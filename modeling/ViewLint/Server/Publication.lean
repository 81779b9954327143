import ViewLint.Report.Basic
import ViewLint.Server.Document

/-!
# Diagnostics for the editor

An editor counts columns in UTF-16 units. A publication is an announcement in the editor's columns,
which are computed against the text of the open document. `Sink.editor` collects the publications
that are sent to an editor.
-/

namespace ViewLint

/-- A message that a server sends on its own account. -/
structure Notification where
  method : String
  params : Json

/-- The diagnostics of a document in UTF-16 columns. They are about a version, or about none when
they are withdrawn. -/
structure Publication where
  uri : Text
  version : Option Int
  diagnostics : List Diagnostic
  deriving DecidableEq

namespace Publication

/-- A range in the columns of the editor; for a document that is not open the columns are kept. -/
def editorRange (cwd : Text) (store : Store) (uri : Text) (r : Range) : Range :=
  match store.find? cwd uri with
  | some doc => doc.lines.toUTF16Range r
  | none => r

/-- An announcement as the editor gets it. -/
def ofAnnouncement (cwd : Text) (store : Store) : Announcement → Publication
  | .publish uri version diagnostics =>
    ⟨uri, some version, diagnostics.map fun d =>
      { d with range := editorRange cwd store uri d.range }⟩
  | .clear uri => ⟨uri, none, []⟩

/-- The message that carries a publication. -/
def notification (p : Publication) : Notification where
  method := "textDocument/publishDiagnostics"
  params := Json.record
    ([("uri", .str p.uri)] ++ (p.version.toList.map fun v => ("version", .int v)) ++
      [("diagnostics", Diagnostic.jsonList p.diagnostics)])

end Publication

namespace Sink

/-- Sends announcements to an editor; the state is what was sent, first to last. -/
def editor (cwd : Text) (store : Store) : Sink (List Publication) :=
  ⟨fun sent a => .ok (sent ++ [.ofAnnouncement cwd store a])⟩

/-- An editor that cannot be reached. -/
def lostEditor : Sink (List Publication) :=
  ⟨fun _ _ => .error (Text.ofString "sending diagnostics: connection lost")⟩

end Sink

end ViewLint
