import ViewLint.Announcement
import ViewLint.Finder
import ViewLint.Report
import ViewLint.Settings

/-!
# Checking the templates of a project

A run finds the templates that its arguments stand for, checks each of them, and writes a report.
The checks are tasks that share a `Ledger`: a task reads its file, notes the document under the
file's number and posts the diagnostics on the board, or notes why the file could not be read. The
result is collected from the ledger in the order of the files, so it does not depend on the order in
which the tasks have run.
-/

namespace ViewLint

/-- From which severity on a run fails. -/
inductive FailOn where
  | never
  | error
  | warning
  deriving DecidableEq

namespace FailOn

/-- The threshold of a name. -/
def ofName? (name : Text) : Option FailOn :=
  [("error", error), ("warning", warning), ("never", never)].findSome? fun (n, f) =>
    if Text.ofString n = name then some f else none

/-- Does a diagnostic reach the threshold? -/
def reached (f : FailOn) (d : Diagnostic) : Bool :=
  match f with
  | never => false
  | error => d.severity = .error
  | warning => true

/-- Does any diagnostic of a report reach the threshold? -/
def exceeded (f : FailOn) (results : List FileResult) : Bool :=
  results.any fun r => r.diagnostics.any f.reached

end FailOn

/-- A file that could not be read. -/
structure Unreadable where
  path : Text
  fault : FileFault
  deriving DecidableEq

/-- The wording of a failure to read a file. -/
def Unreadable.message (u : Unreadable) : Text :=
  Text.ofString "reading " ++ u.path ++ Text.ofString ": " ++ u.fault.message

/-! ### Tasks -/

/-- What the tasks of a run share. -/
structure Ledger where
  /-- The documents by the number of their file. -/
  docs : List (Nat × Document) := []
  board : Board := []
  /-- The files that could not be read, first to last. -/
  unreadable : List Unreadable := []
  deriving DecidableEq

/-- The selector of a run: the finder has chosen the files, so every path is a template. -/
def everyPath (patterns : Patterns) : Selector := ⟨patterns, [], Text.ofString "**"⟩

/-- Runs the task of one file. -/
def Ledger.check (host : Host) (window : Int) (l : Ledger) (task : Text × Nat) : Ledger :=
  let (path, number) := task
  match host.files.read path with
  | .error fault => { l with unreadable := l.unreadable ++ [⟨path, fault⟩] }
  | .ok text =>
    let noted := { l with docs := (number, ⟨text⟩) :: l.docs }
    match Announcement.ofSnapshot? (everyPath host.patterns) window ⟨path, path, [], 0, text⟩ with
    | none => noted
    | some a => { noted with board := a.post l.board }

/-- Runs tasks one after the other. -/
def Ledger.run (host : Host) (window : Int) (tasks : List (Text × Nat)) : Ledger :=
  tasks.foldl (Ledger.check host window) {}

/-- The path as a report shows it: seen from the root, unless it lies outside. -/
def displayPath (root path : Text) : Text :=
  match Path.relative root path with
  | none => path
  | some way =>
    if way = Path.up ∨ (Path.up ++ [Path.slash]).isPrefixOf way then path else way

/-- Collects the results of the files that are on the board. -/
def Ledger.collect (l : Ledger) (root : Text) (files : List Text) : List FileResult :=
  files.zipIdx.filterMap fun (path, number) =>
    (Table.get? l.board path).map fun p =>
      ⟨displayPath root path, (l.docs.lookup number).getD ⟨[]⟩, p.diagnostics⟩

/-- The results of a finished ledger, or the files that could not be read. -/
def Ledger.results (l : Ledger) (root : Text) (files : List Text) :
    Except (List Unreadable) (List FileResult) :=
  if l.unreadable.isEmpty then .ok (l.collect root files) else .error l.unreadable

/-- Checks files. -/
def checkAll (host : Host) (root : Text) (window : Int) (files : List Text) :
    Except (List Unreadable) (List FileResult) :=
  (Ledger.run host window files.zipIdx).results root files

/-! ### Runs -/

/-- What a run is asked to do. -/
structure CheckRun where
  root : Text
  format : Text
  color : Bool
  failOn : Text
  arguments : List Text
  deriving DecidableEq

/-- Why a run failed. -/
inductive CheckError where
  | unknownFormat (name : Text)
  | unknownFailOn (name : Text)
  | settings (cause : SettingsError)
  | find (cause : FindError)
  | unreadable (files : List Unreadable)
  | diskFull
  /-- The report holds diagnostics that reach the threshold. -/
  | findings
  deriving DecidableEq

namespace CheckError

/-- The wording of a failure. -/
def message : CheckError → Text
  | unknownFormat name => Text.ofString "unknown format " ++ Text.quoted name
  | unknownFailOn name => Text.ofString "unknown --fail-on value " ++ Text.quoted name
  | settings cause => Text.ofString "loading config: " ++ cause.message
  | find cause => cause.message
  | unreadable files => Text.join (Text.ofString "; ") (files.map Unreadable.message)
  | diskFull => Text.ofString "writing report: disk full"
  | findings => Text.ofString "structural problems found"

end CheckError

namespace CheckRun

/-- The name of a choice, or the failure if it is unknown. -/
def known {α : Type} (fault : CheckError) : Option α → Except CheckError α
  | some a => .ok a
  | none => .error fault

/-- The root directory of a run, seen from the working directory. -/
def rootDir (run : CheckRun) (cwd : Text) : Text := Path.absolute cwd run.root

/-- The settings in force and the templates to check. -/
def templates (run : CheckRun) (host : Host) (cwd : Text) :
    Except CheckError (Settings × List Text) := do
  let root := run.rootDir cwd
  let settings ← (Settings.load host root).mapError .settings
  let files ← ((⟨host, root, settings.viewSuffix⟩ : Finder).find run.arguments).mapError .find
  return (settings, files)

/-- Finds and checks the templates of a run. -/
def results (run : CheckRun) (host : Host) (cwd : Text) :
    Except CheckError (List FileResult) := do
  let (settings, files) ← run.templates host cwd
  (checkAll host (run.rootDir cwd) settings.unclosedWindow files).mapError .unreadable

/-- Executes a run: what it writes, and how it fails. The names are judged before any file is looked
at. -/
def execute (run : CheckRun) (host : Host) (cwd : Text) (room : Option Nat) :
    Text × Option CheckError :=
  let attempt : Except CheckError (Text × Option CheckError) := do
    let format ← known (.unknownFormat run.format) (ReportFormat.ofName? run.format)
    let failOn ← known (.unknownFailOn run.failOn) (FailOn.ofName? run.failOn)
    let results ← run.results host cwd
    let (written, complete) := Report.write room (Report.pieces format run.color results)
    return (written,
      if !complete then some .diskFull
      else if failOn.exceeded results then some .findings
      else none)
  match attempt with
  | .ok outcome => outcome
  | .error e => ([], some e)

end CheckRun

end ViewLint
