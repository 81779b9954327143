import ViewLint.FileSystem

/-!
# Trees of files

A file system that is given as a value: a tree of named entries under the root directory, and a
second one for paths that do not start with a slash. Paths are cleaned on access. A tree also says
which entries are symbolic links, which accesses fail (`failOpen`, `failStat`, by the exact spelling
of the path) and whether it is held in memory or on disk; the two differ in how they word a missing
file, and on disk a directory cannot be read as a file. At a link the tree holds what the link leads
to.

`FileTree.walk` visits the entries below a directory in the order of their names. It does not follow
links.
-/

namespace ViewLint

/-- An entry of a file tree. -/
inductive Entry where
  | file (content : Text)
  | dir (entries : List (Text × Entry))

namespace Entry

/-- Is the entry a directory? -/
def isDir : Entry → Bool
  | file _ => false
  | dir _ => true

/-- The entries of a directory; a file has none. -/
def children : Entry → List (Text × Entry)
  | file _ => []
  | dir entries => entries

/-- The entry that a list of names leads to. -/
def find? : Entry → List Text → Option Entry
  | e, [] => some e
  | e, name :: rest =>
    match e.children.lookup name with
    | some child => child.find? rest
    | none => none

/-- Replaces the entry of a name, or adds it where the order of names puts it. -/
def put (name : Text) (e : Entry) : List (Text × Entry) → List (Text × Entry)
  | [] => [(name, e)]
  | (n, old) :: rest =>
    if n = name then (n, e) :: rest
    else if Text.le name n then (name, e) :: (n, old) :: rest
    else (n, old) :: put name e rest

/-- Writes an entry at a list of names, making directories on the way. A directory that exists is
kept when a directory is written. -/
def write (new : Entry) : List Text → Entry → Entry
  | [], old => match new, old with
    | dir _, dir entries => dir entries
    | _, _ => new
  | name :: rest, old =>
    dir (put name (write new rest ((old.children.lookup name).getD (dir []))) old.children)

end Entry

/-- A tree of files. -/
structure FileTree where
  storage : Storage := .memory
  /-- What stands below `/`. -/
  absolute : Entry := .dir []
  /-- What stands at paths without a leading slash. -/
  relative : Entry := .dir []
  /-- The clean paths at which there are links. -/
  links : List Text := []
  /-- The paths that cannot be opened. -/
  failOpen : List Text := []
  /-- The paths that cannot be looked at. -/
  failStat : List Text := []
  /-- Why accesses are refused. -/
  refusal : String := "injected failure"

namespace FileTree

/-- The place of a path in the tree: below `/` or not, and the names that lead to it. The paths `.`
and `..` are the root directory. -/
def locate (path : Text) : Bool × List Text :=
  let segments := Path.segments path
  if Path.isAbsolute path || segments.isEmpty then (true, segments)
  else if segments = [Path.up] then (true, [])
  else (false, segments)

/-- The entry at a path. -/
def entry? (tree : FileTree) (path : Text) : Option Entry :=
  match locate path with
  | (true, names) => tree.absolute.find? names
  | (false, names) => tree.relative.find? names

/-- Writes an entry at a path. -/
def write (tree : FileTree) (path : Text) (e : Entry) : FileTree :=
  match locate path with
  | (true, names) => { tree with absolute := Entry.write e names tree.absolute }
  | (false, names) => { tree with relative := Entry.write e names tree.relative }

/-- Does the way to a path lead through a file? -/
def throughFile (e : Entry) : List Text → Bool
  | [] => false
  | name :: rest => !e.isDir || ((e.children.lookup name).any (throughFile · rest))

/-- The entry at a path, or the failure of the access. On disk a path through a file, or a file
spelled with a trailing slash, is told apart from a missing one; in memory the failure names the
cleaned path. -/
def access (tree : FileTree) (action : String) (path : Text) : Except FileFault Entry :=
  match tree.entry? path, tree.storage with
  | some e, .memory => .ok e
  | some e, .disk =>
    if !e.isDir && path.getLast? == some Path.slash then .error (.notDirectory action path)
    else .ok e
  | none, .memory => .error (.missing "open" (Path.clean path) .memory)
  | none, .disk =>
    if throughFile tree.absolute (Path.segments path) then .error (.notDirectory action path)
    else .error (.missing action path .disk)

/-- What a path leads to. -/
def stat (tree : FileTree) (path : Text) : Except FileFault Entry :=
  if tree.failStat.contains path then .error (.refused "stat" path tree.refusal)
  else tree.access "stat" path

/-- The action that looks at an entry without following a link. In memory there is only one such
action. -/
def lookAction : Storage → String
  | .memory => "stat"
  | .disk => "lstat"

/-- The entry at a path, as a walk comes to it. -/
def look (tree : FileTree) (path : Text) : Except FileFault Entry :=
  let action := lookAction tree.storage
  if tree.failStat.contains path then .error (.refused action path tree.refusal)
  else tree.access action path

/-- Opens the entry at a path. -/
def openEntry (tree : FileTree) (path : Text) : Except FileFault Entry :=
  if tree.failOpen.contains path then .error (.refused "open" path tree.refusal)
  else tree.access "open" path

/-- The content of a file. In memory a directory reads as an empty file. -/
def read (tree : FileTree) (path : Text) : Except FileFault Text := do
  match ← tree.openEntry path with
  | .file content => return content
  | .dir _ => if tree.storage = .disk then .error (.isDirectory path) else return []

/-- What is told of an entry at a path, if a link is not followed. -/
def infoAt (tree : FileTree) (path : Text) (e : Entry) : FileInfo where
  name := Path.name (Path.clean path)
  isDir := e.isDir && !tree.links.contains (Path.clean path)

/-- The tree as a file system. -/
def fileSystem (tree : FileTree) : FileSystem where
  stat path := (tree.stat path).map fun e => ⟨Path.name (Path.clean path), e.isDir⟩
  lstat path := (tree.look path).map (tree.infoAt path)
  read := tree.read
  list path := (tree.openEntry path).map fun e =>
    e.children.map fun child =>
      { tree.infoAt (Path.join [path, child.1]) child.2 with name := child.1 }

/-! ### Walking a tree -/

/-- What is left of a visit once it is known that nothing below the entry is visited. -/
def settle {σ ε : Type} : Visited σ ε → Except ε σ
  | .next s => .ok s
  | .skip s => .ok s
  | .stop reason => .error reason

mutual

/-- Walks an entry. -/
def walkEntry {σ ε : Type} (tree : FileTree) (visit : Visitor σ ε) (path : Text) :
    Entry → σ → Except ε σ
  | .file content, s => settle (visit s path (.ok (tree.infoAt path (.file content))))
  | .dir entries, s =>
    let info := tree.infoAt path (.dir entries)
    match visit s path (.ok info) with
    | .stop reason => .error reason
    | .skip s => .ok s
    | .next s =>
      if !info.isDir then .ok s
      else if tree.failOpen.contains path then
        settle (visit s path (.error (.refused "open" path tree.refusal)))
      else walkEntries tree visit path entries s

/-- Walks the entries of a directory. -/
def walkEntries {σ ε : Type} (tree : FileTree) (visit : Visitor σ ε) (path : Text) :
    List (Text × Entry) → σ → Except ε σ
  | [], s => .ok s
  | (name, e) :: rest, s =>
    let child := Path.join [path, name]
    let first :=
      if tree.failStat.contains child then
        settle (visit s child (.error (.refused (lookAction tree.storage) child tree.refusal)))
      else walkEntry tree visit child e s
    match first with
    | .error reason => .error reason
    | .ok s => walkEntries tree visit path rest s

end

/-- Visits the entry at a path and, below a directory, its entries in the order of their names. -/
def walk {σ ε : Type} (tree : FileTree) : Walk σ ε := fun path visit s =>
  match tree.look path with
  | .error f => settle (visit s path (.error f))
  | .ok e => walkEntry tree visit path e s

end FileTree

end ViewLint
