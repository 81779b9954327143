import ViewLint.FileSystem
import ViewLint.Text.Quoted

/-!
# Components

A component is a template file with the tag that names it. Listing the components of a project is a
walk, which can be stopped for several reasons.
-/

namespace ViewLint

/-- A component: its tag and its file. -/
structure Component where
  tag : Text
  path : Text
  deriving DecidableEq

/-- Why components could not be listed. -/
inductive ComponentError where
  | unreadable (fault : FileFault)
  | badPattern (pattern : Text)
  /-- There is no way from the base to the target. -/
  | noWay (base target : Text)
  deriving DecidableEq

/-- The wording of a failure. -/
def ComponentError.message (e : ComponentError) : Text :=
  Text.ofString "walking components: " ++ match e with
    | unreadable fault => fault.message
    | badPattern pattern =>
      Text.ofString "matching " ++ Text.quoted pattern ++
        Text.ofString ": syntax error in pattern"
    | noWay base target =>
      Text.ofString "Rel: can't make " ++ target ++ Text.ofString " relative to " ++ base

end ViewLint
