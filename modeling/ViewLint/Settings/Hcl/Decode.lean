import ViewLint.Settings.Basic
import ViewLint.Settings.Hcl.Body
import ViewLint.Word

/-!
# Settings in HCL

Settings are the attributes of a file without blocks. An unknown attribute, a block, an expression
without a value and a value of the wrong type are faults of value; a file that breaks the grammar is
a fault of syntax. Expressions may use the name `default_components_dir`.
-/

namespace ViewLint.Hcl

/-- The names in scope. -/
def settingsScope : Scope :=
  [("default_components_dir".toList, .string Settings.defaultComponentsDir.toList)]

/-- A value as a text. -/
def asText? (v : Value) : Option Text := v.toText?.map Settings.textOf

/-- A value as a list of texts; null is the empty list. -/
def asTexts? : Value → Option (List Text)
  | .null => some []
  | .tuple items => items.mapM asText?
  | _ => none

/-- A value as a whole number of 64 bits. -/
def asInt? (v : Value) : Option Int :=
  (v.toNumber?.bind Number.toInt?).filter (Word.fits 64)

/-- Sets the setting of a name. -/
def setField? (s : Settings) (name : List Char) (v : Value) : Option Settings :=
  match String.ofList name with
  | "components_dir" => (asText? v).map fun x => { s with componentsDir := x }
  | "view_suffix" => (asText? v).map fun x => { s with viewSuffix := x }
  | "language_ids" => (asTexts? v).map fun x => { s with languageIds := x }
  | "unclosed_window" => (asInt? v).map fun x => { s with unclosedWindow := x }
  | _ => none

/-- The settings of a list of entries. -/
def ofEntries? (entries : List BodyEntry) : Option Settings :=
  entries.foldlM (fun s entry =>
    match entry with
    | .attribute name e => (e.eval? settingsScope).bind (setField? s name)
    | .block => none) {}

/-- Reads settings. -/
def settings (data : Text) : Except Fault Settings :=
  match (Settings.characters? data).bind body? with
  | none => .error .syntaxError
  | some entries =>
    match ofEntries? entries with
    | none => .error .valueError
    | some s => .ok s

end ViewLint.Hcl
