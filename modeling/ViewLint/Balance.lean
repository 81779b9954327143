import ViewLint.Comment
import ViewLint.Diagnostic
import ViewLint.Word

/-!
# The balance of directives and component tags

The checker reads the events of a template once, from first to last, and keeps what is still open:
a stack of openers for each directive family, and one stack of component tags. Closing a directive
block also closes out the component tags that were opened inside it (`Pass.fence`): a component
opened in a block has to be closed in it.

To know which tags those are, tags are numbered in the order in which they are opened, and a
directive opener remembers the number reached when it was pushed. Stacks are lists with the most
recent entry first.

* `Pass.apply` handles one event, `Pass.finish` reports what is open at the end;
* `analyze` runs the pass over a template and sorts what it reported.
-/

namespace ViewLint

/-- A directive opener that waits for its closer; `mark` is the number of tags opened before it. -/
structure OpenBlock where
  name : Text
  range : Range
  mark : Nat
  deriving DecidableEq

/-- A component tag that waits for its closing tag; `number` counts the tags from one. -/
structure OpenComponent where
  name : Text
  range : Range
  number : Nat
  deriving DecidableEq

/-- A directive pair that was opened and closed. -/
structure Block where
  name : Text
  opened : Range
  closed : Range
  deriving DecidableEq

/-- The stacks of open directive blocks, one for each family. -/
structure OpenBlocks where
  conditional : List OpenBlock := []
  loop : List OpenBlock := []
  sections : List OpenBlock := []
  deriving DecidableEq

namespace OpenBlocks

/-- The stack of a family. -/
def get (s : OpenBlocks) : Family → List OpenBlock
  | .conditional => s.conditional
  | .loop => s.loop
  | .sections => s.sections

/-- Replaces the stack of a family. -/
def set (s : OpenBlocks) (f : Family) (stack : List OpenBlock) : OpenBlocks :=
  match f with
  | .conditional => { s with conditional := stack }
  | .loop => { s with loop := stack }
  | .sections => { s with sections := stack }

@[simp] theorem get_set (s : OpenBlocks) (f g : Family) (stack : List OpenBlock) :
    (s.set f stack).get g = if g = f then stack else s.get g := by
  cases f <;> cases g <;> rfl

end OpenBlocks

/-- What the pass depends on besides the events: the lines of the template, and the widest range
reported for an unclosed component. -/
structure Checkup where
  doc : Document
  window : Int
  deriving DecidableEq

namespace Checkup

/-- The range of a whole line. -/
def wholeLine (c : Checkup) (line : Int) : Range := .onLine line 0 (c.doc.line line).length

/-- An event whose directive has no open block. -/
def unmatchedDirective (c : Checkup) (e : Event) : Diagnostic :=
  ⟨c.wholeLine e.line, .unmatchedDirective e.name⟩

/-- A block that is open at the end. -/
def unclosedDirective (c : Checkup) (b : OpenBlock) : Diagnostic :=
  ⟨c.wholeLine b.range.start.line, .unclosedDirective b.name⟩

/-- A component that is never closed. Its range starts with the tag and spans the window, or less if
the line ends before; the end of the window is computed in 64-bit arithmetic. -/
def unclosedTag (c : Checkup) (t : OpenComponent) : Diagnostic :=
  let start := t.range.start
  let stop := min (wrap64 (start.character + c.window)) (c.doc.line start.line).length
  ⟨.onLine start.line start.character stop, .unclosedTag t.name⟩

end Checkup

/-- The state of the balance pass: what is open, and what has been found so far, oldest last. -/
structure Pass where
  /-- How many extends markers have been seen. -/
  extendsSeen : Nat := 0
  blocks : OpenBlocks := {}
  /-- The open component tags, most recent first. -/
  tags : List OpenComponent := []
  /-- How many component tags have been opened. -/
  opened : Nat := 0
  reported : List Diagnostic := []
  matched : List Block := []
  deriving DecidableEq

namespace Pass

/-- Records diagnostics, given in the order in which they are found. -/
def report (p : Pass) (found : List Diagnostic) : Pass :=
  { p with reported := found.reverse ++ p.reported }

/-- Closes out every component opened after the mark: they are reported, oldest first, and are open
no more. -/
def fence (p : Pass) (c : Checkup) (mark : Nat) : Pass :=
  { p.report ((p.tags.filter fun t => mark < t.number).reverse.map c.unclosedTag) with
    tags := p.tags.filter fun t => t.number ≤ mark }

/-- Closes the most recent block of a family, or reports the closer. -/
def closeBlock (p : Pass) (c : Checkup) (f : Family) (e : Event) : Pass :=
  match p.blocks.get f with
  | [] => p.report [c.unmatchedDirective e]
  | top :: rest =>
    let fenced := { p with blocks := p.blocks.set f rest }.fence c top.mark
    { fenced with matched := ⟨top.name, top.range, e.range⟩ :: fenced.matched }

/-- Closes the most recent component of a name, or reports the closing tag. -/
def closeTag (p : Pass) (e : Event) : Pass :=
  if p.tags.any (·.name == e.name) then
    { p with tags := p.tags.eraseP (·.name == e.name) }
  else p.report [⟨e.range, .unmatchedTag e.name⟩]

/-- Handles one event. -/
def apply (c : Checkup) (p : Pass) (e : Event) : Pass :=
  match e.kind with
  | .extendsMarker =>
    let seen := { p with extendsSeen := p.extendsSeen + 1 }
    if p.extendsSeen = 0 then seen
    else seen.report [⟨c.wholeLine e.line, .duplicateExtends⟩]
  | .doubleAt => p.report [⟨e.range, .repeatedMarker⟩]
  | .opener f =>
    { p with blocks := p.blocks.set f (⟨e.name, e.range, p.opened⟩ :: p.blocks.get f) }
  | .elseBranch =>
    if (p.blocks.get .conditional).isEmpty then p.report [c.unmatchedDirective e] else p
  | .closer f => p.closeBlock c f e
  | .openTag =>
    { p with opened := p.opened + 1, tags := ⟨e.name, e.range, p.opened + 1⟩ :: p.tags }
  | .closeTag => p.closeTag e
  | .selfClosedTag => p

/-- Handles a list of events, from first to last. -/
def run (c : Checkup) (p : Pass) (events : List Event) : Pass := events.foldl (apply c) p

/-- Reports what is still open at the end of the document: the blocks of each family and then the
components, each from the oldest to the most recent. -/
def finish (c : Checkup) (p : Pass) : Pass :=
  let stack f := (p.blocks.get f).reverse.map c.unclosedDirective
  let done := p.report
    (stack .conditional ++ stack .loop ++ stack .sections ++ p.tags.reverse.map c.unclosedTag)
  { done with tags := [] }

/-- What the pass reported, in the order in which it was found. -/
def found (p : Pass) : List Diagnostic := p.reported.reverse

/-- The blocks that were opened and closed, in closing order. -/
def pairs (p : Pass) : List Block := p.matched.reverse

end Pass

/-- The widest range reported for an unclosed component unless the settings say otherwise. -/
def defaultWindow : Int := 20

/-- The window in force: a window that is not positive is the default one. -/
def effectiveWindow (window : Int) : Int := if window ≤ 0 then defaultWindow else window

/-- What a check of one template gives. -/
structure Analysis where
  diagnostics : List Diagnostic
  blocks : List Block
  deriving DecidableEq

/-- The whole pass over a list of events. -/
def balance (c : Checkup) (events : List Event) : Pass := (Pass.run c {} events).finish c

/-- Blanks the comments, reads the events and checks their balance. -/
def analyze (window : Int) (text : Text) : Analysis :=
  let p := balance ⟨⟨text⟩, effectiveWindow window⟩ (Event.ofText (Comment.strip text))
  ⟨Diagnostic.sort p.found, p.pairs⟩

/-- The structural diagnostics of a template. -/
def check (window : Int) (text : Text) : List Diagnostic := (analyze window text).diagnostics

end ViewLint
