import ViewLint.Report.Basic
import ViewLint.Terminal

/-!
# Reports as lines of text

One line a diagnostic, with places counted from one, and a summary at the end. Parts of a line can
be set off by terminal escape sequences.
-/

namespace ViewLint.Report

/-- The look of a severity. -/
def severityStyle : Severity → Style
  | .error => .redBold
  | .warning => .yellowBold

/-- The line of a diagnostic. -/
def line (color : Bool) (path : Text) (d : Diagnostic) : Text :=
  Style.paint color .bold path ++ Text.ofString ":" ++ Text.ofInt (d.range.start.line + 1) ++
    Text.ofString ":" ++ Text.ofInt (d.range.start.character + 1) ++ Text.ofString ": " ++
    Style.paint color (severityStyle d.severity) (Text.ofString d.severity.name) ++
    Text.ofString ": " ++
    d.message ++ Text.ofString " " ++
    Style.paint color .faint (Text.ofString "[" ++ Text.ofString d.code ++ Text.ofString "]") ++
    Text.ofString "\n"

/-- The summary at the end of a report. -/
def summary (results : List FileResult) : Text :=
  let all := results.flatMap (·.diagnostics)
  let errors := all.countP (·.severity = .error)
  let files := Text.ofNat results.length ++ Text.ofString " files\n"
  if all.isEmpty then Text.ofString "no problems in " ++ files
  else
    Text.ofNat all.length ++ Text.ofString " problems (" ++ Text.ofNat errors ++
      Text.ofString " errors, " ++ Text.ofNat (all.length - errors) ++
      Text.ofString " warnings) in " ++ files

/-- The lines of a report, the summary last. -/
def lines (color : Bool) (results : List FileResult) : List Text :=
  results.flatMap (fun r => r.diagnostics.map (line color r.path)) ++ [summary results]

end ViewLint.Report
