import ViewLint.Report.Lines
import ViewLint.Report.Sarif

/-!
# Writing a report

A report is a list of pieces, each of which is written at once. A text report is written line by
line, the other formats as a whole.
-/

namespace ViewLint.Report

/-- A report in JSON: for each file its path and its diagnostics. -/
def json (results : List FileResult) : Json :=
  .arr (results.map fun r =>
    Json.record [("path", .str r.path), ("diagnostics", Diagnostic.jsonList r.diagnostics)])

/-- The pieces of a report. -/
def pieces (format : ReportFormat) (color : Bool) (results : List FileResult) : List Text :=
  match format with
  | .text => lines color results
  | .json => [(json results).indented ++ Text.ofString "\n"]
  | .sarif => [(sarif results).indented ++ Text.ofString "\n"]

/-- Writes pieces into a room of a number of bytes. A piece that does not fit is not written, and
nothing after it. Gives what is written, and whether all of it is. -/
def writeInto (room : Nat) : List Text → Text × Bool
  | [] => ([], true)
  | piece :: rest =>
    if room < piece.length then ([], false)
    else
      let (written, complete) := writeInto (room - piece.length) rest
      (piece ++ written, complete)

/-- Writes pieces, into a limited room if one is given. -/
def write (room : Option Nat) (pieces : List Text) : Text × Bool :=
  match room with
  | none => (pieces.flatten, true)
  | some n => writeInto n pieces

end ViewLint.Report
