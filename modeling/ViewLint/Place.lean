import ViewLint.Text.Occurrence

/-!
# Places in a document

A place is a zero-based line and column. Lines end at `\n` only, and a carriage return right before
the end of a line does not belong to its content. Columns count bytes unless UTF-16 is named, which
is the unit editors count in.

`Document` gives the two ways between byte offsets and places (`Document.offset`,
`Document.placeAt`) and between byte columns and UTF-16 columns (`toUTF16`, `fromUTF16`). All four
are total: a place outside the document is moved to the nearest place inside it. The place of an
offset is found by halving the index of line starts (`Document.lineStarts`).
-/

namespace ViewLint

/-- A zero-based line and column. -/
structure Place where
  line : Int
  character : Int
  deriving DecidableEq

namespace Place

/-- Does `p` stand strictly before `q`? -/
def before (p q : Place) : Bool :=
  if p.line = q.line then decide (p.character < q.character) else decide (p.line < q.line)

/-- A place is written as line, colon, column. -/
def text (p : Place) : Text :=
  Text.ofInt p.line ++ Text.ofString ":" ++ Text.ofInt p.character

end Place

/-- The text between two places. -/
structure Range where
  start : Place
  stop : Place
  deriving DecidableEq

namespace Range

/-- Does the place lie in the range, both ends included? -/
def contains (r : Range) (p : Place) : Bool := !p.before r.start && !r.stop.before p

/-- A range is written as its two places with a hyphen between them. -/
def text (r : Range) : Text := r.start.text ++ Text.ofString "-" ++ r.stop.text

/-- The columns from `start` to `stop` of one line. -/
def onLine (line start stop : Int) : Range := ⟨⟨line, start⟩, ⟨line, stop⟩⟩

end Range

/-! ### UTF-16 columns -/

/-- The UTF-16 units of the characters that lie wholly in the first `column` bytes. -/
def unitsBefore : List Text.Rune → Int → Nat
  | [], _ => 0
  | r :: rs, column =>
    if column ≤ 0 ∨ column < r.width then 0 else r.units + unitsBefore rs (column - r.width)

/-- The bytes of the characters that lie wholly in the first `column` UTF-16 units. -/
def bytesBefore : List Text.Rune → Int → Nat
  | [], _ => 0
  | r :: rs, column =>
    if column ≤ 0 ∨ column < r.units then 0 else r.width + bytesBefore rs (column - r.units)

/-- The UTF-16 column of a byte column. A column inside a character is that character's start. -/
def toUTF16 (line : Text) (column : Int) : Nat := unitsBefore (Text.runes line) column

/-- The byte column of a UTF-16 column. A column inside a surrogate pair is that pair's start. -/
def fromUTF16 (line : Text) (column : Int) : Nat := bytesBefore (Text.runes line) column

/-! ### Halving -/

/-- The first index from `low` on, below `high`, at which a test holds, for a test that goes on
holding; `high` if there is none. The indices that are left are halved at each step. -/
def firstIndex (test : Nat → Bool) (low high : Nat) : Nat :=
  if low < high then
    let middle := (low + high) / 2
    if test middle then firstIndex test low middle else firstIndex test (middle + 1) high
  else low
termination_by high - low

/-! ### Documents -/

/-- A text seen as a sequence of lines. -/
structure Document where
  text : Text
  deriving DecidableEq

namespace Document

/-- The lines of a document as they stand between the newlines. -/
def rawLines (doc : Document) : List Text := Text.split (Text.byte '\n') doc.text

/-- The number of lines: one more than there are newlines. -/
def lineCount (doc : Document) : Nat := doc.rawLines.length

/-- The content of line `i` without its terminator; empty outside the document. -/
def line (doc : Document) (i : Int) : Text :=
  if i < 0 then []
  else Text.dropTail [Text.byte '\r'] (doc.rawLines.getD i.toNat [])

/-- The contents of all lines. -/
def lines (doc : Document) : List Text := doc.rawLines.map (Text.dropTail [Text.byte '\r'])

/-- The offsets behind the newlines of a text that starts at `offset`. -/
def startsFrom (offset : Nat) : Text → List Nat
  | [] => []
  | b :: rest =>
    if b = Text.byte '\n' then (offset + 1) :: startsFrom (offset + 1) rest
    else startsFrom (offset + 1) rest

/-- The line index: the byte offsets at which the lines start. -/
def lineStarts (doc : Document) : List Nat := 0 :: startsFrom 0 doc.text

/-- The byte offset at which line `i` starts. -/
def lineStart (doc : Document) (i : Nat) : Nat := doc.lineStarts.getD i 0

/-- The byte offset of a place, moved into the document. -/
def offset (doc : Document) (p : Place) : Nat :=
  if p.line < 0 then 0
  else if (doc.lineCount : Int) ≤ p.line then doc.text.length
  else doc.lineStart p.line.toNat + min p.character.toNat (doc.line p.line).length

/-- The place of a byte offset, moved into the document: the last line that starts no later, and
the distance from its start. -/
def placeAt (doc : Document) (offset : Int) : Place :=
  let offset := min offset.toNat doc.text.length
  let starts := doc.lineStarts
  let line := firstIndex (fun i => offset < starts.getD i 0) 0 starts.length - 1
  { line := line
    character := offset - starts.getD line 0 }

/-- A place with its column turned from bytes to UTF-16. -/
def toUTF16Place (doc : Document) (p : Place) : Place :=
  ⟨p.line, toUTF16 (doc.line p.line) p.character⟩

/-- A place with its column turned from UTF-16 to bytes. -/
def fromUTF16Place (doc : Document) (p : Place) : Place :=
  ⟨p.line, fromUTF16 (doc.line p.line) p.character⟩

/-- A range with both columns turned from bytes to UTF-16. -/
def toUTF16Range (doc : Document) (r : Range) : Range :=
  ⟨doc.toUTF16Place r.start, doc.toUTF16Place r.stop⟩

end Document

end ViewLint
