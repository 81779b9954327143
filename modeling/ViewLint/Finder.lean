import ViewLint.Host
import ViewLint.Text.Quoted

/-!
# Finding templates

Arguments of the command line become a list of files. A directory stands for the files below it with
the template suffix, a pattern for the files below the root whose path matches it, and a file for
itself. Directories named `.git` and what the ignore file of the root excludes are passed over,
unless they are named as arguments.

The arguments are resolved one after the other (`Finder.resolve`), and all of them, and all their
walks, add files to one `Walker`. In the end its files are sorted.
-/

namespace ViewLint

/-- Why an argument could not be resolved. -/
inductive FindError where
  | badPattern (argument : Text)
  | noSuchFile (argument : Text)
  | unreadable (argument : Text) (fault : FileFault)
  | matching (argument : Text) (cause : WalkError)
  | walking (argument : Text) (cause : WalkError)
  deriving DecidableEq

namespace FindError

/-- The wording of a failure. -/
def message : FindError → Text
  | badPattern arg => Text.ofString "invalid pattern " ++ Text.quoted arg
  | noSuchFile arg => Text.ofString "no such file or directory: " ++ arg
  | unreadable arg fault => Text.ofString "reading " ++ arg ++ Text.ofString ": " ++ fault.message
  | matching arg cause => Text.ofString "matching " ++ arg ++ Text.ofString ": " ++ cause.message
  | walking arg cause => Text.ofString "walking " ++ arg ++ Text.ofString ": " ++ cause.message

end FindError

/-- Resolves arguments against a root directory. -/
structure Finder where
  host : Host
  root : Text
  suffix : Text

namespace Finder

/-! ### Ignored paths -/

/-- The lines of the ignore file of the root; none if it cannot be read. -/
def rules (f : Finder) : Option (List Text) :=
  match f.host.files.read (Path.join [f.root, Text.ofString ".gitignore"]) with
  | .ok text => some (Text.split (Text.byte '\n') text)
  | .error _ => none

/-- Is the path ignored? A path that starts with two dots, seen from the root, never is. -/
def ignored (f : Finder) (rules : Option (List Text)) (path : Text) : Bool :=
  match rules, Path.relative f.root path with
  | some lines, some way => !Path.up.isPrefixOf way && f.host.ignores lines way
  | _, _ => false

/-! ### Walks -/

/-- Does a walk of `dir` enter a directory? The walked directory itself is always entered. -/
def enters (f : Finder) (rules : Option (List Text)) (dir path : Text) (info : FileInfo) : Bool :=
  path == dir || !(info.name == Text.ofString ".git" || f.ignored rules path)

/-- What a walk does at a file: unless it is ignored, it is added if it passes a test. -/
def take (f : Finder) (rules : Option (List Text)) (test : Text → Except WalkError Bool)
    (w : Walker) (path : Text) : Except WalkError Walker :=
  if f.ignored rules path then .ok w
  else match test path with
    | .ok true => .ok (w.add path)
    | .ok false => .ok w
    | .error reason => .error reason

/-- Adds the files below a directory that are not ignored and pass a test. -/
def walk (f : Finder) (rules : Option (List Text)) (test : Text → Except WalkError Bool)
    (w : Walker) (dir : Text) : Except WalkError Walker :=
  f.host.walkTemplates dir (.ofFiles .fault (f.enters rules dir) (f.take rules test)) w

/-- The test of a pattern: does it match the path, seen from the root? -/
def matchTest (f : Finder) (pattern path : Text) : Except WalkError Bool :=
  match Path.relative f.root path with
  | none => .error (.noWay f.root path)
  | some way =>
    match f.host.patterns.matches? pattern way with
    | none => .error .badPattern
    | some matched => .ok matched

/-- The test of a directory: does the path end in the suffix? -/
def suffixTest (f : Finder) (path : Text) : Except WalkError Bool := .ok (f.suffix.isSuffixOf path)

/-! ### Arguments -/

/-- Does the argument hold a byte with a meaning in patterns? -/
def isPattern (argument : Text) : Bool :=
  argument.any fun b =>
    b == Text.byte '*' || b == Text.byte '?' || b == Text.byte '[' || b == Text.byte '\x7b'

/-- The path that an argument names. -/
def target (f : Finder) (argument : Text) : Text :=
  if Path.isAbsolute argument then argument else Path.join [f.root, argument]

/-- Adds the files that an argument stands for. -/
def resolve (f : Finder) (rules : Option (List Text)) (w : Walker) (argument : Text) :
    Except FindError Walker :=
  if isPattern argument then
    if !f.host.patterns.wellFormed argument then .error (.badPattern argument)
    else (f.walk rules (f.matchTest argument) w f.root).mapError (.matching argument)
  else match f.host.files.stat (f.target argument) with
    | .error fault =>
      if fault.isMissing then .error (.noSuchFile argument)
      else .error (.unreadable argument fault)
    | .ok info =>
      if !info.isDir then .ok (w.add (f.target argument))
      else (f.walk rules f.suffixTest w (f.target argument)).mapError (.walking argument)

/-- The files that the arguments stand for, sorted and without repetitions. No argument means the
root directory. -/
def find (f : Finder) (arguments : List Text) : Except FindError (List Text) := do
  let named := if arguments.isEmpty then [Path.here] else arguments
  let w ← named.foldlM (f.resolve f.rules) {}
  return Text.sort w.files

end Finder

end ViewLint
