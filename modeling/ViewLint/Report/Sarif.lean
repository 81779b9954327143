import ViewLint.Product
import ViewLint.Report.Basic

/-!
# Reports in SARIF

The interchange format of static analysis results. Lines and columns count from one, and columns
count UTF-16 units, so a region is the range that an editor shows, plus one.
-/

namespace ViewLint.Report

/-- The schema that a report follows. -/
def sarifSchema : String :=
  "https://raw.githubusercontent.com/oasis-tcs/sarif-spec/master/Schemata/sarif-schema-2.1.0.json"

/-- A region: lines and columns count from one. -/
structure Region where
  startLine : Int
  startColumn : Int
  endLine : Int
  endColumn : Int
  deriving DecidableEq

/-- The region of a range. -/
def Region.ofRange (r : Range) : Region where
  startLine := r.start.line + 1
  startColumn := r.start.character + 1
  endLine := r.stop.line + 1
  endColumn := r.stop.character + 1

/-- One result of a report. -/
structure SarifResult where
  ruleId : String
  level : String
  message : Text
  uri : Text
  region : Region
  deriving DecidableEq

/-- The results of a file: one for each diagnostic, in order. -/
def sarifResults (r : FileResult) : List SarifResult :=
  r.diagnostics.map fun d =>
    { ruleId := d.code
      level := d.severity.name
      message := d.message
      uri := r.path
      region := .ofRange (r.doc.toUTF16Range d.range) }

/-- A region in JSON. -/
def Region.json (r : Region) : Json :=
  Json.record [("startLine", .int r.startLine), ("startColumn", .int r.startColumn),
    ("endLine", .int r.endLine), ("endColumn", .int r.endColumn)]

/-- A text as a message. -/
def sarifMessage (text : Text) : Json := Json.record [("text", .str text)]

/-- A result in JSON. -/
def SarifResult.json (r : SarifResult) : Json :=
  Json.record [("ruleId", .string r.ruleId), ("level", .string r.level),
    ("message", sarifMessage r.message),
    ("locations", .arr [Json.record [("physicalLocation", Json.record
      [("artifactLocation", Json.record [("uri", .str r.uri)]), ("region", r.region.json)])]])]

/-- The rules in JSON. -/
def sarifRules : Json :=
  .arr (Rule.all.map fun r => Json.record [("id", .string r.code),
    ("shortDescription", sarifMessage (Text.ofString r.description))])

/-- A report in JSON. -/
def sarif (results : List FileResult) : Json :=
  let driver := Json.record [("name", .string Product.name), ("version", .string Product.version),
    ("rules", sarifRules)]
  Json.record [("$schema", .string sarifSchema), ("version", .string "2.1.0"),
    ("runs", .arr [Json.record [("tool", Json.record [("driver", driver)]),
      ("results", .arr ((results.flatMap sarifResults).map SarifResult.json))]])]

end ViewLint.Report
