import ViewLint.Path

/-!
# File systems

A file system is known by its operations on paths, each of which answers or fails. Two of them look
at an entry: `stat` goes through symbolic links, and `lstat` looks at the link itself, which is never
a directory.

A walk visits the entries at and below a path. It is given a visitor, which is called with a state
of its own at every entry and says whether the walk goes on, passes over what is left of the entry,
or stops.
-/

namespace ViewLint

/-! ### Failures -/

/-- Where files are held. -/
inductive Storage where
  | memory
  | disk
  deriving DecidableEq

/-- Why an access failed. -/
inductive FileFault where
  /-- The path leads nowhere. -/
  | missing (action : String) (path : Text) (storage : Storage)
  /-- A file stands where the path needs a directory. -/
  | notDirectory (action : String) (path : Text)
  /-- A directory was read as a file. -/
  | isDirectory (path : Text)
  /-- The access is refused, for a reason. -/
  | refused (action : String) (path : Text) (reason : String)
  deriving DecidableEq

namespace FileFault

/-- Did the access fail because there is no such file? -/
def isMissing : FileFault → Bool
  | missing .. => true
  | _ => false

/-- The wording of a failure. -/
def message : FileFault → Text
  | missing action path .memory =>
    Text.ofString action ++ Text.ofString " " ++ path ++ Text.ofString ": file does not exist"
  | missing action path .disk =>
    Text.ofString action ++ Text.ofString " " ++ path ++ Text.ofString ": no such file or directory"
  | notDirectory action path =>
    Text.ofString action ++ Text.ofString " " ++ path ++ Text.ofString ": not a directory"
  | isDirectory path => Text.ofString "read " ++ path ++ Text.ofString ": is a directory"
  | refused action path reason =>
    Text.ofString action ++ Text.ofString " " ++ path ++ Text.ofString ": " ++ Text.ofString reason

end FileFault

/-! ### Operations -/

/-- What is told of an entry that is looked at. -/
structure FileInfo where
  /-- The last part of the path. -/
  name : Text
  isDir : Bool
  deriving DecidableEq

/-- The operations of a file system. -/
structure FileSystem where
  /-- What a path leads to, through links. -/
  stat : Text → Except FileFault FileInfo
  /-- What stands at a path; a link is no directory. -/
  lstat : Text → Except FileFault FileInfo
  /-- The content of a file. -/
  read : Text → Except FileFault Text
  /-- The entries of a directory in the order of their names. -/
  list : Text → Except FileFault (List FileInfo)

/-- Is there a directory at the path? A failed access counts as no. -/
def FileSystem.isDir (files : FileSystem) (path : Text) : Bool :=
  match files.stat path with
  | .ok info => info.isDir
  | .error _ => false

/-! ### Walks -/

/-- How a walk goes on after a visit. -/
inductive Visited (σ ε : Type) where
  | next (state : σ)
  /-- Nothing below the entry is visited. -/
  | skip (state : σ)
  | stop (reason : ε)

/-- Is called with the state so far, with a path, and with what stands there or why it could not be
looked at. -/
abbrev Visitor (σ ε : Type) := σ → Text → Except FileFault FileInfo → Visited σ ε

/-- Visits the entries at and below a path: the state at the end, or why the walk was stopped. -/
abbrev Walk (σ ε : Type) := Text → Visitor σ ε → σ → Except ε σ

/-- Acts on files. A fault stops the walk, and only some directories are entered. -/
def Visitor.ofFiles {σ ε : Type} (fault : FileFault → ε) (enters : Text → FileInfo → Bool)
    (act : σ → Text → Except ε σ) : Visitor σ ε
  | _, _, .error f => .stop (fault f)
  | s, path, .ok info =>
    if info.isDir then if enters path info then .next s else .skip s
    else match act s path with
      | .ok after => .next after
      | .error reason => .stop reason

end ViewLint
