import ViewLint.CommandLine
import ViewLint.FileTree.Host
import ViewLint.Server.Session

/-!
# The program

Reads the command line, the files that it needs and the standard input, and writes what the library
makes of them. Files are read in two steps: first the names below a directory, then the contents of
the few files whose text matters.
-/

namespace ViewLint

/-- The string of a text. -/
def Text.toString (text : Text) : String := (String.fromUTF8? ⟨text.toArray⟩).getD ""

/-- The bytes of a file; none if it cannot be read. -/
def readText (path : Text) : IO (Option Text) := do
  try
    return some (← IO.FS.readBinFile path.toString).data.toList
  catch _ => return none

/-- Adds a link to a tree. What stands below the directory that it leads to is left out. -/
def addLink (tree : FileTree) (path : Text) (toDir : Bool) : FileTree :=
  { tree.write path (if toDir then .dir [] else .file []) with links := path :: tree.links }

/-- Adds the names below a path to a tree. Links below it are not followed. -/
partial def addNames (tree : FileTree) (path : Text) : IO FileTree := do
  try
    let place ← IO.FS.realPath path.toString
    if ← place.isDir then
      let mut tree := tree.write path (.dir [])
      for entry in ← place.readDir do
        let child := Path.join [path, Text.ofString entry.fileName]
        let isLink := (← entry.path.symlinkMetadata).type == .symlink
        tree ← if isLink then pure (addLink tree child (← entry.path.isDir)) else addNames tree child
      return tree
    else if ← place.pathExists then return tree.write path (.file [])
    else return tree
  catch _ => return tree

/-- Fills in the contents of files that the tree knows. -/
def addContents (tree : FileTree) (paths : List Text) : IO FileTree :=
  paths.foldlM (fun (tree : FileTree) path => do
    match tree.entry? path with
    | some (.file _) =>
      match ← readText path with
      | some text => return tree.write path (.file text)
      | none => return { tree with failOpen := path :: tree.failOpen }
    | _ => return tree) tree

/-- The files of a project whose text says how the others are read. -/
def ruleFiles (root : Text) : List Text :=
  (".gitignore" :: Settings.fileNames).map fun name => Path.join [root, Text.ofString name]

/-- The names below some paths, and the rules of the project at `root`. -/
def readProject (root : Text) (paths : List Text) : IO FileTree := do
  let tree ← paths.foldlM addNames ({ storage := .disk, refusal := "permission denied" } : FileTree)
  addContents tree (ruleFiles root)

/-- Runs checks. -/
def runChecks (cwd : Text) (run : CheckRun) : IO CommandOutcome := do
  let root := run.rootDir cwd
  let tree ← readProject root (root :: run.arguments.filter Path.isAbsolute)
  let files := match run.templates tree.host cwd with
    | .ok (_, files) => files
    | .error _ => []
  return (Command.check run).run (← addContents tree files).host cwd

/-- Takes bytes that have arrived, with the files of the workspace as they are now. Where the bytes
open another workspace they are taken once more, with the files of that one. -/
def receiveFresh (s : Session) (bytes : Text) : IO (Session × List Outgoing) := do
  let withWorkspace (workspace : Text) : IO Session := do
    let paths := if workspace.isEmpty then [] else [workspace]
    return { s with server := { s.server with host := (← readProject workspace paths).host } }
  let first := (← withWorkspace s.server.workspace).receive bytes
  if first.1.server.workspace = s.server.workspace then return first
  else return (← withWorkspace first.1.server.workspace).receive bytes

/-- Serves the editor until the connection ends. -/
partial def serveFrom (input output : IO.FS.Stream) (s : Session) : IO Session := do
  let bytes := (← input.read 65536).data.toList
  if bytes.isEmpty then return s.close
  let (s, sent) ← receiveFresh s bytes
  for message in sent do
    output.write ⟨(Frame.encode message.json.compact).toArray⟩
  output.flush
  if s.isOver then return s else serveFrom input output s

/-- Runs the language server on the standard streams. -/
def runServer (cwd : Text) (debug : Bool) : IO CommandOutcome := do
  let session : Session :=
    { server := { host := ({ storage := .disk } : FileTree).host, cwd, version := Text.ofString Product.version }
      logger := { threshold := if debug then .debug else .info }
      traced := debug }
  let last ← serveFrom (← IO.getStdin) (← IO.getStdout) session
  return { failure := last.failure?.map .server }

/-- Runs a command. -/
def runCommand (cwd : Text) : Command → IO CommandOutcome
  | .check run => runChecks cwd run
  | .serve debug => runServer cwd debug
  | command => return command.run ({ storage := .disk } : FileTree).host cwd

end ViewLint

open ViewLint in
/-- The program. It fails if the command does, and says why, unless the report has told it. -/
def main (arguments : List String) : IO UInt32 := do
  let cwd := Text.ofString (← IO.currentDir).toString
  let outcome ← match Command.read (arguments.map Text.ofString) with
    | .ok command => runCommand cwd command
    | .error e => pure { failure := some e }
  (← IO.getStdout).write ⟨outcome.output.toArray⟩
  (← IO.getStderr).write ⟨outcome.errors.toArray⟩
  match outcome.failure with
  | none => return 0
  | some e =>
    if e ≠ .check .findings then
      (← IO.getStderr).write ⟨(e.message ++ Text.ofString "\n").toArray⟩
    return 1
