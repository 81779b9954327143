import Mathlib.Data.List.Forall2
import ViewLint.Proofs.CheckRun.Schedule
import ViewLint.Proofs.Server.Freshness

/-!
# The editor and the report agree

The same problems reach a user in two ways. The server publishes the diagnostics of a stored document
to the editor, in columns that are computed against the text found in the store; a check run reports
the diagnostics of a file as SARIF results, in regions that are computed against the document that the
task of the file has noted. `editor_and_report_agree` says that the two lists agree result by result,
for every text, under the same settings and after every history of messages: the same rule, the same
message, the same severity, and regions that are the ranges of the editor plus one.

Both lists are maps of one list, the diagnostics of the text. That the last publication is about the
text that is stored now is the freshness of diagnostics; that a run which succeeds reports every file
with its own document is the account of its schedules.
-/

namespace ViewLint

/-- A result of a report says the same as a diagnostic in the columns of the editor. -/
structure Report.SarifResult.Matches (r : Report.SarifResult) (d : Diagnostic) : Prop where
  ruleId : r.ruleId = d.code
  message : r.message = d.message
  error_iff : d.severity.number = 1 ↔ r.level = "error"
  warning_iff : d.severity.number = 2 ↔ r.level = "warning"
  startLine : r.region.startLine = d.range.start.line + 1
  startColumn : r.region.startColumn = d.range.start.character + 1
  endLine : r.region.endLine = d.range.stop.line + 1
  endColumn : r.region.endColumn = d.range.stop.character + 1

theorem Severity.number_iff_name (s : Severity) :
    (s.number = 1 ↔ s.name = "error") ∧ (s.number = 2 ↔ s.name = "warning") := by
  cases s <;> decide

namespace CheckRun

variable {run : CheckRun} {host : Host} {cwd : Text} {settings : Settings} {files : List Text}
  {results : List FileResult}

/-- A run that succeeds has checked all its files. -/
theorem checkAll_of_results (htemplates : run.templates host cwd = .ok (settings, files))
    (hresults : run.results host cwd = .ok results) :
    checkAll host (run.rootDir cwd) settings.unclosedWindow files = .ok results := by
  unfold CheckRun.results at hresults
  rw [htemplates] at hresults
  cases hcheck : checkAll host (run.rootDir cwd) settings.unclosedWindow files with
  | ok found =>
    simpa [hcheck, bind, Except.bind, Except.mapError] using hresults
  | error faults =>
    simp [hcheck, bind, Except.bind, Except.mapError] at hresults

/-- A run that succeeds reports every file with its own text. -/
theorem getElem?_results (hstars : host.patterns.StarsMatchAll)
    (htemplates : run.templates host cwd = .ok (settings, files))
    (hresults : run.results host cwd = .ok results) {i : Nat} {path text : Text}
    (hpath : files[i]? = some path) (hread : host.files.read path = .ok text) :
    results[i]? = some (.ofText (run.rootDir cwd) settings.unclosedWindow path text) := by
  obtain ⟨-, rfl⟩ := Crew.checkAll_eq_ok hstars (checkAll_of_results htemplates hresults)
  rw [List.getElem?_map, hpath, Option.map_some, hread]
  rfl

/-- What a run writes in SARIF is the report of its results. -/
theorem execute_sarif (hresults : run.results host cwd = .ok results)
    (hformat : run.format = Text.ofString "sarif") {failOn : FailOn}
    (hfail : FailOn.ofName? run.failOn = some failOn) :
    (run.execute host cwd none).1 = (Report.sarif results).indented ++ Text.ofString "\n" := by
  have hname : ReportFormat.ofName? run.format = some .sarif := by
    rw [hformat]
    decide
  have hwritten : (Report.pieces .sarif run.color results).flatten =
      (Report.sarif results).indented ++ Text.ofString "\n" := List.append_nil _
  unfold execute
  simp only [hname, hfail, hresults, known, Report.write, hwritten, bind, Except.bind, pure,
    Except.pure]

end CheckRun

/-- The result of a diagnostic and the diagnostic in the columns of the editor, both computed against
the same document, say the same. -/
theorem Report.matches_sarifResults (doc : Document) (path : Text) (diagnostics : List Diagnostic) :
    List.Forall₂ (fun g s => s.Matches g ∧ s.uri = path)
      (diagnostics.map fun g => { g with range := doc.toUTF16Range g.range })
      (Report.sarifResults ⟨path, doc, diagnostics⟩) := by
  unfold Report.sarifResults
  rw [List.forall₂_map_left_iff, List.forall₂_map_right_iff, List.forall₂_same]
  intro g _
  obtain ⟨herror, hwarning⟩ := g.severity.number_iff_name
  exact ⟨⟨rfl, rfl, herror, hwarning, rfl, rfl, rfl, rfl⟩, rfl⟩

namespace Server

/-- **The editor and the report agree.** After any messages to a server whose workspace was opened at
most once, let a template be stored, and let a check run under the same settings succeed and check a
file with the text of that template; the patterns of its host let its selector take every path. Then the
last publication for the template and the results of
the report for the file agree one by one, in the same order. In SARIF, that report is what the run
writes. -/
theorem editor_and_report_agree (host : Host) (cwd version : Text)
    (workspace : Option WorkspaceParams) (sent : List Publication) (ms : List DocumentMessage)
    {d : OpenDocument} (run : CheckRun) (disk : Host) (hstars : disk.patterns.StarsMatchAll) (dir : Text)
    {files : List Text} {results : List FileResult} {i : Nat} {path : Text} :
    let edited := serve (Sink.editor cwd) (start host cwd version workspace, sent) ms
    edited.1.Holds d → edited.1.IsTemplate d →
    run.templates disk dir = .ok (edited.1.settings, files) →
    run.results disk dir = .ok results →
    files[i]? = some path → disk.files.read path = .ok d.text →
    (∃ p r, lastAbout Publication.uri edited.2 d.uri = some p ∧ p.version = some d.version ∧
      results[i]? = some r ∧ r.path = displayPath (run.rootDir dir) path ∧
      List.Forall₂ (fun g s => s.Matches g ∧ s.uri = r.path) p.diagnostics
        (Report.sarifResults r)) ∧
    (run.format = Text.ofString "sarif" → (FailOn.ofName? run.failOn).isSome →
      (run.execute disk dir none).1 = (Report.sarif results).indented ++ Text.ofString "\n") := by
  intro edited hd ht htemplates hresults hpath hread
  have hk := keysAgree_start host cwd version workspace
  have hagree := documentsAgree_start host cwd version workspace
  have hempty := not_holds_start host cwd version workspace
  have hserver : edited.1 = (start host cwd version workspace).afterAll ms := serve_fst _ _ sent ms
  have hlast := lastIs_serve_editor hk hagree hempty sent ms
  rw [start_cwd] at hlast
  have hresult := CheckRun.getElem?_results hstars htemplates hresults hpath hread
  rw [hserver] at hd ht hresult
  constructor
  · refine ⟨_, _, hlast d hd ht, rfl, hresult, rfl, ?_⟩
    -- both lists are maps of the diagnostics of the text, under one window
    have hdiagnose : (start host cwd version workspace).diagnose d =
        check ((start host cwd version workspace).afterAll ms).settings.unclosedWindow d.text :=
      (diagnose_afterAll _ ms d).symm
    unfold currentPublication
    rw [hdiagnose]
    exact Report.matches_sarifResults _ _ _
  · intro hformat hfail
    obtain ⟨failOn, hfail⟩ := Option.isSome_iff_exists.mp hfail
    exact CheckRun.execute_sarif hresults hformat hfail

/-- A character of two units is typed in front of an open component. -/
def typedMessages : List DocumentMessage :=
  [ .didOpen ⟨Text.ofString "file:///v/a.view.php", Text.ofString "php", 1, Text.ofString "<c-a>"⟩,
    .didChange (Text.ofString "file:///v/a.view.php") 2
      [⟨some (.onLine 0 0 0), Text.ofString "😀"⟩] ]

/-- The document after both messages. -/
def typedDocument : OpenDocument :=
  ⟨Text.ofString "file:///v/a.view.php", Text.ofString "/v/a.view.php", Text.ofString "php", 2,
    Text.ofString "😀<c-a>", ⟨Text.ofString "😀<c-a>"⟩⟩

/-- The project with the document as a file. -/
def typedProject : FileTree :=
  ({} : FileTree).write (Text.ofString "/v/a.view.php") (.file (Text.ofString "😀<c-a>"))

/-- A run over the project. -/
def typedRun : CheckRun :=
  ⟨Text.ofString "/v", Text.ofString "sarif", false, Text.ofString "never", []⟩

/-- The component starts in the fifth byte of its line, which is the third UTF-16 unit: column 2 for
the editor and column 3 in the report. -/
theorem editor_and_report_agree_typed :
    let edited := serve (Sink.editor (Text.ofString "/"))
      (start (FileTree.host {}) (Text.ofString "/") [] none, []) typedMessages
    edited.1.Holds typedDocument ∧ edited.1.IsTemplate typedDocument ∧
    typedRun.templates typedProject.host (Text.ofString "/") =
      .ok (edited.1.settings, [Text.ofString "/v/a.view.php"]) ∧
    typedRun.results typedProject.host (Text.ofString "/") =
      .ok [⟨Text.ofString "a.view.php", ⟨Text.ofString "😀<c-a>"⟩,
        [⟨.onLine 0 4 9, .unclosedTag (Text.ofString "a")⟩]⟩] ∧
    ∃ p, lastAbout Publication.uri edited.2 typedDocument.uri = some p ∧
      List.Forall₂ (fun g (s : Report.SarifResult) =>
          s.Matches g ∧ s.uri = Text.ofString "a.view.php") p.diagnostics
        [⟨"unclosed-tag", "warning", Text.ofString "unclosed component <c-a>",
          Text.ofString "a.view.php", ⟨1, 3, 1, 8⟩⟩] := by
  intro edited
  -- the server stores the changed document, and takes it for a template
  have hholds : edited.1.Holds typedDocument :=
    ⟨Text.ofString "file:///v/a.view.php", by decide +kernel⟩
  have htemplate : edited.1.IsTemplate typedDocument := by decide +kernel
  -- the run finds the file and reports one component
  have htemplates : typedRun.templates typedProject.host (Text.ofString "/") =
      .ok (edited.1.settings, [Text.ofString "/v/a.view.php"]) := by decide +kernel
  have hresults : typedRun.results typedProject.host (Text.ofString "/") =
      .ok [⟨Text.ofString "a.view.php", ⟨Text.ofString "😀<c-a>"⟩,
        [⟨.onLine 0 4 9, .unclosedTag (Text.ofString "a")⟩]⟩] := by decide +kernel
  obtain ⟨⟨p, r, hlast, -, hr, -, hagree⟩, -⟩ := editor_and_report_agree (FileTree.host {})
    (Text.ofString "/") [] none [] typedMessages typedRun typedProject.host Glob.starsMatchAll
    (Text.ofString "/") hholds htemplate htemplates hresults (i := 0) rfl rfl
  obtain rfl := Option.some.inj hr
  exact ⟨hholds, htemplate, htemplates, hresults, p, hlast, hagree⟩

end Server

end ViewLint
