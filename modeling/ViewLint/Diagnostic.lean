import ViewLint.Event

/-!
# Diagnostics

A diagnostic is a structural problem at a range of the template. What is wrong is a `Problem`; its
rule, its severity and its wording are functions of it, so two diagnostics about the same problem
never disagree on them.
-/

namespace ViewLint

/-- The severity of a diagnostic. -/
inductive Severity where
  | error
  | warning
  deriving DecidableEq

namespace Severity

/-- The name of a severity. -/
def name : Severity → String
  | error => "error"
  | warning => "warning"

/-- The number that editors use for a severity. -/
def number : Severity → Nat
  | error => 1
  | warning => 2

end Severity

/-- The rules, in their fixed order. -/
inductive Rule where
  | duplicateExtends
  | repeatedMarker
  | unmatchedDirective
  | unclosedDirective
  | unmatchedTag
  | unclosedTag
  deriving DecidableEq

namespace Rule

/-- All rules, in their fixed order. -/
def all : List Rule :=
  [duplicateExtends, repeatedMarker, unmatchedDirective, unclosedDirective, unmatchedTag,
    unclosedTag]

/-- The stable identifier of a rule. -/
def code : Rule → String
  | duplicateExtends => "duplicate-extends"
  | repeatedMarker => "repeated-marker"
  | unmatchedDirective => "unmatched-directive"
  | unclosedDirective => "unclosed-directive"
  | unmatchedTag => "unmatched-tag"
  | unclosedTag => "unclosed-tag"

/-- What a rule is about, in a sentence. -/
def description : Rule → String
  | duplicateExtends => "A document may extend a single layout."
  | repeatedMarker => "A run of two or more @ characters."
  | unmatchedDirective => "A closing or else directive without an open block."
  | unclosedDirective => "A directive block still open at the end of the document."
  | unmatchedTag => "A closing component tag without a matching opener."
  | unclosedTag => "A component tag that is never closed."

end Rule

/-- A structural problem. Directives are named with their `@`, components without their `c-`. -/
inductive Problem where
  | duplicateExtends
  | repeatedMarker
  | unmatchedDirective (directive : Text)
  | unclosedDirective (directive : Text)
  | unmatchedTag (component : Text)
  | unclosedTag (component : Text)
  deriving DecidableEq

namespace Problem

/-- The rule that a problem breaks. -/
def rule : Problem → Rule
  | duplicateExtends => .duplicateExtends
  | repeatedMarker => .repeatedMarker
  | unmatchedDirective _ => .unmatchedDirective
  | unclosedDirective _ => .unclosedDirective
  | unmatchedTag _ => .unmatchedTag
  | unclosedTag _ => .unclosedTag

/-- Markers that cannot stand where they stand are errors, what is merely left open is a warning. -/
def severity : Problem → Severity
  | duplicateExtends | repeatedMarker | unmatchedDirective _ => .error
  | unclosedDirective _ | unmatchedTag _ | unclosedTag _ => .warning

/-- The wording of a problem. -/
def message : Problem → Text
  | duplicateExtends => Text.ofString "only one extends marker is allowed per document"
  | repeatedMarker => Text.ofString "unexpected repeated marker"
  | unmatchedDirective d => Text.ofString "marker without matching opener: " ++ d
  | unclosedDirective d => Text.ofString "unclosed " ++ d ++ Text.ofString " block"
  | unmatchedTag c => Text.ofString "unmatched closing component </c-" ++ c ++ Text.ofString ">"
  | unclosedTag c => Text.ofString "unclosed component <c-" ++ c ++ Text.ofString ">"

end Problem

/-- A structural problem at a range of the template, in byte columns. -/
structure Diagnostic where
  range : Range
  problem : Problem
  deriving DecidableEq

namespace Diagnostic

/-- The name that is attached to every diagnostic, so that an editor can tell who reported it. -/
def source : String := "viewphp"

/-- The severity of a diagnostic. -/
def severity (d : Diagnostic) : Severity := d.problem.severity

/-- The wording of a diagnostic. -/
def message (d : Diagnostic) : Text := d.problem.message

/-- The rule identifier of a diagnostic. -/
def code (d : Diagnostic) : String := d.problem.rule.code

/-- The order of a report: by line, then by column, then by wording. -/
def le (a b : Diagnostic) : Bool :=
  let p := a.range.start
  let q := b.range.start
  if p.line = q.line then
    if p.character = q.character then Text.le a.message b.message
    else decide (p.character < q.character)
  else decide (p.line < q.line)

/-- The diagnostics in the order of a report. -/
def sort (diagnostics : List Diagnostic) : List Diagnostic := diagnostics.mergeSort le

end Diagnostic

end ViewLint
