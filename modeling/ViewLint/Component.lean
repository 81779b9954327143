import ViewLint.Host

/-!
# Components and their files

A component tag `<c-nav.bar>` names a template file below the components directory of the project.
Dots and hyphens in the name separate directories. `Resolver.pathFor` gives the file of a tag and
`Resolver.tagFor` the tag of a file; `Resolver.list` offers what can follow a partly typed name, and
`Resolver.glob` lists all components that match a pattern.
-/

namespace ViewLint

/-- Knows the components of a project. -/
structure Resolver where
  host : Host
  /-- The root directory of the project; empty without a project. -/
  root : Text
  /-- The components directory, seen from the root. -/
  componentsDir : Text
  /-- The suffix of template files. -/
  suffix : Text

/-- What stands in a directory of components. -/
inductive ListingKind where
  | folder
  | file
  deriving DecidableEq

namespace ListingKind

/-- The name of a kind. -/
def name : ListingKind → String
  | folder => "folder"
  | file => "file"

/-- A kind in words. -/
def detail : ListingKind → String
  | folder => "component folder"
  | file => "component file"

end ListingKind

/-- An entry of a directory of components. -/
structure Listing where
  label : Text
  kind : ListingKind
  deriving DecidableEq

namespace Resolver

/-- The resolver of the project at `root`. -/
def ofSettings (host : Host) (root : Text) (s : Settings) : Resolver :=
  ⟨host, root, s.componentsDir, s.viewSuffix⟩

/-- What a component tag starts with. -/
def tagHead : Text := Text.ofString "c-"

/-- The components directory; empty without a project. -/
def dir (r : Resolver) : Text := if r.root.isEmpty then [] else Path.join [r.root, r.componentsDir]

/-- A name with its dots and hyphens turned into slashes. -/
def nameToPath (name : Text) : Text :=
  name.map fun b => if b = Text.byte '.' ∨ b = Text.byte '-' then Path.slash else b

/-- The file of a tag. -/
def pathFor (r : Resolver) (tag : Text) : Text :=
  Path.join [r.root, r.componentsDir, nameToPath (Text.dropHead tagHead tag) ++ r.suffix]

/-- The file of a tag, and whether it exists. Without a project, or where the file cannot be looked
at, there is no file. -/
def lookup (r : Resolver) (tag : Text) : Text × Bool :=
  if r.root.isEmpty then ([], false)
  else match r.host.files.stat (r.pathFor tag) with
    | .ok _ => (r.pathFor tag, true)
    | .error fault => if fault.isMissing then (r.pathFor tag, false) else ([], false)

/-- A path seen from the root, where it can be. -/
def rel (r : Resolver) (path : Text) : Text := (Path.relative r.root path).getD path

/-- The tag of a file: its way below the components directory, without the suffix, with dots
between directories. -/
def tagFor (r : Resolver) (path : Text) : Option Text :=
  match Path.relative r.dir path with
  | none => none
  | some way =>
    if Path.up.isPrefixOf way || !r.suffix.isSuffixOf way then none
    else
      let stem := Text.dropTail r.suffix way
      some (tagHead ++ Text.replaceByte Path.slash (Text.ofString ".") stem)

/-- An entry of a directory as a listing: folders, templates, and other source files. -/
def listing? (suffix : Text) (info : FileInfo) : Option Listing :=
  if info.isDir then some ⟨info.name, .folder⟩
  else if suffix.isSuffixOf info.name then some ⟨Text.dropTail suffix info.name, .file⟩
  else if (Text.ofString ".php").isSuffixOf info.name then
    some ⟨Text.dropTail (Text.ofString ".php") info.name, .file⟩
  else none

/-- The directory that a partly typed name such as `nav.b` is looked for in: that of the segments
before the last. -/
def listingDir (r : Resolver) (typed : Text) : Text :=
  let parts := (Text.split (Text.byte '.') typed).filter (!·.isEmpty)
  if 1 < parts.length then Path.join (r.dir :: parts.dropLast) else r.dir

/-- The directory that is listed for a partly typed name: where its own directory is missing, the
components directory. -/
def listedDir? (r : Resolver) (typed : Text) : Option Text :=
  if r.dir.isEmpty then none
  else if r.host.files.isDir (r.listingDir typed) then some (r.listingDir typed)
  else if r.host.files.isDir r.dir then some r.dir
  else none

/-- What can follow a partly typed name. A directory that cannot be opened counts as empty; without
a directory there is nothing to list. -/
def list (r : Resolver) (typed : Text) : Option (List Listing) :=
  (r.listedDir? typed).map fun dir =>
    match r.host.files.list dir with
    | .error _ => []
    | .ok infos => infos.filterMap (listing? r.suffix)

/-- What a walk of the components does at a file: if its path below the components directory matches
a pattern and it has a tag, it is a component. -/
def gather (r : Resolver) (pattern : Text) (found : List Component) (path : Text) :
    Except ComponentError (List Component) :=
  match Path.relative r.dir path with
  | none => .error (.noWay r.dir path)
  | some way =>
    match r.host.patterns.matches? pattern way with
    | none => .error (.badPattern pattern)
    | some false => .ok found
    | some true => .ok (found ++ (r.tagFor path).toList.map (⟨·, path⟩))

/-- The pattern in force: the empty pattern is that of all templates. -/
def inForce (r : Resolver) (pattern : Text) : Text :=
  if pattern.isEmpty then Text.ofString "**/*" ++ r.suffix else pattern

/-- The components whose path below the components directory matches a pattern, in the order of
their tags. -/
def glob (r : Resolver) (pattern : Text) : Except ComponentError (List Component) :=
  if r.dir.isEmpty || !r.host.files.isDir r.dir then .ok []
  else do
    let found ← r.host.walkComponents r.dir
      (.ofFiles .unreadable (fun _ _ => true) (r.gather (r.inForce pattern))) []
    return found.mergeSort fun a b => Text.le a.tag b.tag

end Resolver

end ViewLint
