import ViewLint.Diagnostic
import ViewLint.Json.Print

/-!
# Reports

A report lists the diagnostics of the checked files. This module holds what a report is made from,
and the shape that ranges and diagnostics have in JSON.
-/

namespace ViewLint

/-- The outcome of checking one file. -/
structure FileResult where
  /-- The path as the report shows it. -/
  path : Text
  doc : Document
  diagnostics : List Diagnostic
  deriving DecidableEq

/-- The formats of a report. -/
inductive ReportFormat where
  | text
  | json
  | sarif
  deriving DecidableEq

namespace ReportFormat

/-- The format of a name. -/
def ofName? (name : Text) : Option ReportFormat :=
  [("text", text), ("json", json), ("sarif", sarif)].findSome? fun (n, f) =>
    if Text.ofString n = name then some f else none

end ReportFormat

/-- A place in JSON. -/
def Place.json (p : Place) : Json :=
  Json.record [("line", .int p.line), ("character", .int p.character)]

/-- A range in JSON. -/
def Range.json (r : Range) : Json :=
  Json.record [("start", r.start.json), ("end", r.stop.json)]

/-- A diagnostic in JSON, at a range that may count columns in another unit. -/
def Diagnostic.jsonAt (d : Diagnostic) (r : Range) : Json :=
  Json.record [("range", r.json), ("severity", .int d.severity.number), ("code", .string d.code),
    ("source", .string source), ("message", .str d.message)]

/-- Diagnostics in JSON, in byte columns. -/
def Diagnostic.jsonList (diagnostics : List Diagnostic) : Json :=
  .arr (diagnostics.map fun d => d.jsonAt d.range)

end ViewLint
