import ViewLint.Completion
import ViewLint.Folding
import ViewLint.Hover
import ViewLint.Product
import ViewLint.Report.Basic
import ViewLint.Server.Basic
import ViewLint.Text.Lower

/-!
# Answers to the editor

What a server answers to the questions of an editor, in the editor's UTF-16 columns. Only view
templates that are open have completions, hovers, definitions and folds. Each answer stands beside
its form in JSON.
-/

namespace ViewLint

namespace Server

/-- The byte place of a place that the editor names. -/
def byteplace (doc : OpenDocument) (place : Place) : Place := doc.lines.fromUTF16Place place

/-- The suggestions at a place of a template. -/
def completion? (s : Server) (uri : Text) (place : Place) : Option (List Completion.Item) :=
  (s.template? uri).map fun doc =>
    (Completion.complete (some s.resolver)
      (.ofPlace doc.lines (byteplace doc place))).map fun item =>
        { item with range := item.range.map doc.lines.toUTF16Range }

/-- The hover at a place of a template: its text and the range it is about. -/
def hover? (s : Server) (uri : Text) (place : Place) : Option (Text × Range) := do
  let doc ← s.template? uri
  let (content, range) ← s.resolver.hover doc.lines (byteplace doc place)
  return (content, doc.lines.toUTF16Range range)

/-- The definition of the component at a place of a template: the URI of its file, and its start. -/
def definition? (s : Server) (uri : Text) (place : Place) : Option (Text × Range) := do
  let doc ← s.template? uri
  let (path, range) ← s.resolver.definition doc.lines (byteplace doc place)
  return (Uri.ofPath s.cwd path, range)

/-- The folds of a template. -/
def folds? (s : Server) (uri : Text) : Option (List Fold) :=
  (s.template? uri).map fun doc => Fold.ofText s.settings.unclosedWindow doc.text doc.lines

/-- The components of the workspace whose tag holds the query, in any case. -/
def symbols (s : Server) (query : Text) : Except ComponentError (List Component) :=
  (s.resolver.glob []).map fun found => found.filter fun c =>
    query.isEmpty || (Text.toLower c.tag).includes (Text.toLower query)

end Server

/-! ### Their forms in JSON -/

/-- An answer that may be missing. -/
def Json.orNull {α : Type} (form : α → Json) : Option α → Json
  | some a => form a
  | none => .null

namespace Completion.Item

/-- The form of a suggestion. A text that is empty is left out. -/
def json (i : Item) : Json :=
  let optional (key : String) (value : Text) : List (String × Json) :=
    if value.isEmpty then [] else [(key, .str value)]
  Json.record ([("label", .str i.label), ("kind", .int i.kind.number)] ++
    optional "detail" i.detail ++ optional "insertText" i.insertText ++
    [("insertTextFormat", .int (if i.isSnippet then 2 else 1))] ++
    i.range.toList.map fun range =>
      ("textEdit", Json.record [("range", range.json), ("newText", .str i.insertText)]))

end Completion.Item

namespace Server

/-- The form of a hover. -/
def hoverJson (hover : Text × Range) : Json :=
  Json.record [
    ("contents", Json.record [("kind", .string "markdown"), ("value", .str hover.1)]),
    ("range", hover.2.json)]

/-- The form of a place in a file. -/
def locationJson (location : Text × Range) : Json :=
  Json.record [("uri", .str location.1), ("range", location.2.json)]

/-- The form of a component among the symbols of a workspace. -/
def symbolJson (s : Server) (c : Component) : Json :=
  Json.record ([("name", .str c.tag), ("kind", .int 1),
    ("location", locationJson (Uri.ofPath s.cwd c.path, .onLine 0 0 0))] ++
    (if (s.resolver.rel c.path).isEmpty then []
      else [("containerName", .str (s.resolver.rel c.path))]))

/-- What the server can do, and who it is. -/
def introduction (s : Server) : Json :=
  Json.record [
    ("capabilities", Json.record [
      ("textDocumentSync", Json.record [("openClose", .bool true), ("change", .int 2),
        ("save", Json.record [("includeText", .bool true)])]),
      ("hoverProvider", .bool true),
      ("definitionProvider", .bool true),
      ("completionProvider", Json.record
        [("triggerCharacters", .arr (Completion.triggerCharacters.map .string))]),
      ("foldingRangeProvider", .bool true),
      ("workspaceSymbolProvider", .bool true)]),
    ("serverInfo", Json.record ([("name", .string Product.name)] ++
      (if s.version.isEmpty then [] else [("version", .str s.version)])))]

end Server

/-- The form of a fold. -/
def Fold.json (f : Fold) : Json :=
  Json.record [("startLine", .int f.startLine), ("endLine", .int f.endLine),
    ("kind", .string f.kind.name)]

end ViewLint
