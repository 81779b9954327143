import ViewLint.FileSystem

/-!
# What walks bring together

All arguments of a run add their files to one list. The `Walker` holds it, with the paths that are
in it, so that no path is added twice.
-/

namespace ViewLint

/-- The files that have been added so far. -/
structure Walker where
  /-- The paths of the files, the last one first. -/
  seen : List Text := []
  /-- The files, first to last. -/
  files : List Text := []
  deriving DecidableEq

/-- Adds a file, unless it has been added before. -/
def Walker.add (w : Walker) (path : Text) : Walker :=
  if w.seen.contains path then w else ⟨path :: w.seen, w.files ++ [path]⟩

/-- Why a walk was stopped. -/
inductive WalkError where
  | fault (f : FileFault)
  | badPattern
  /-- There is no way from the base to the target. -/
  | noWay (base target : Text)
  deriving DecidableEq

/-- The wording of a failure. -/
def WalkError.message : WalkError → Text
  | fault f => f.message
  | badPattern => Text.ofString "syntax error in pattern"
  | noWay base target =>
    Text.ofString "Rel: can't make " ++ target ++ Text.ofString " relative to " ++ base

end ViewLint
