import ViewLint.Balance

/-!
# Folding ranges

The parts of a template that an editor can fold away: the directive blocks, without the line of the
closing directive, and the comments that span several lines.
-/

namespace ViewLint

/-- What a fold hides. -/
inductive FoldKind where
  | region
  | comment
  deriving DecidableEq

/-- The name of a kind. -/
def FoldKind.name : FoldKind → String
  | region => "region"
  | comment => "comment"

/-- Lines that can be folded into the first of them. -/
structure Fold where
  startLine : Int
  endLine : Int
  kind : FoldKind
  deriving DecidableEq

namespace Fold

/-- A fold over lines; a single line is none. -/
def over? (startLine endLine : Int) (kind : FoldKind) : Option Fold :=
  if startLine < endLine then some ⟨startLine, endLine, kind⟩ else none

/-- The fold of a block; the line of its closing directive stays visible. -/
def ofBlock? (b : Block) : Option Fold :=
  over? b.opened.start.line (b.closed.start.line - 1) .region

/-- The fold of a comment. -/
def ofSpan? (doc : Document) (s : Comment.Span) : Option Fold :=
  over? (doc.placeAt s.start).line (doc.placeAt s.stop).line .comment

/-- The order of folds: by the first line, and of two with the same first line the longer one
first. -/
def le (a b : Fold) : Bool :=
  if a.startLine = b.startLine then decide (b.endLine ≤ a.endLine)
  else decide (a.startLine < b.startLine)

/-- The folds of a template, which is given as a text and as its lines. -/
def ofText (window : Int) (text : Text) (lines : Document) : List Fold :=
  ((analyze window text).blocks.filterMap ofBlock? ++
    (Comment.spans text).filterMap (ofSpan? lines)).mergeSort le

end Fold

end ViewLint
