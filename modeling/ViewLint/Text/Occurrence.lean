import ViewLint.Text.Utf8

/-!
# Occurrences of a pattern in a text

A pattern is a function that looks at the start of a text and gives the length of its match there,
if it matches. `occurrences` lists the matches that a left-to-right search finds: after a match the
search resumes at its end, and where nothing matches it moves on by one character. A pattern may
match the empty text; an empty match that touches the end of the previous match is not reported.

`wordAt` picks the occurrence that a column touches, which is how an editor resolves the word under
the cursor.
-/

namespace ViewLint.Text

/-- A pattern gives the length of its match at the start of a text. -/
abbrev Pattern := Text → Option Nat

/-- An occurrence: the offsets of its first byte and of the byte after it. -/
structure Occurrence where
  start : Nat
  stop : Nat
  deriving DecidableEq

namespace Occurrence

/-- The bytes of an occurrence. -/
def text (o : Occurrence) (source : Text) : Text := (source.drop o.start).take (o.stop - o.start)

/-- Does the column lie in the occurrence, its end included? -/
def touches (o : Occurrence) (column : Int) : Bool := (o.start : Int) ≤ column && column ≤ o.stop

end Occurrence

/-- The occurrences in the rest of a text that starts at `offset`, of which `skip` bytes are passed
over first; `last` is the end of the previous match. -/
def occurrencesFrom (p : Pattern) (last : Option Nat) : Nat → Nat → Text → List Occurrence
  | offset, _, [] =>
    match p [] with
    | none => []
    | some _ => if last = some offset then [] else [⟨offset, offset⟩]
  | offset, skip + 1, _ :: rest => occurrencesFrom p last (offset + 1) skip rest
  | offset, 0, b :: rest =>
    match p (b :: rest) with
    | none => occurrencesFrom p last (offset + 1) ((runeAt b rest).width - 1) rest
    | some 0 =>
      let tail := occurrencesFrom p last (offset + 1) ((runeAt b rest).width - 1) rest
      if last = some offset then tail else ⟨offset, offset⟩ :: tail
    | some (n + 1) =>
      ⟨offset, offset + n + 1⟩ :: occurrencesFrom p (some (offset + n + 1)) (offset + 1) n rest

/-- The occurrences that a left-to-right search finds. -/
def occurrences (p : Pattern) (text : Text) : List Occurrence :=
  occurrencesFrom p none 0 0 text

/-- The occurrence on a line that a column touches: the first of those not beyond it. -/
def wordAt (line : Text) (column : Int) (p : Pattern) : Option Occurrence :=
  ((occurrences p line).takeWhile fun o => decide ((o.start : Int) ≤ column)).find?
    (·.touches column)

/-- A non-empty run of bytes of a class, after a fixed head. -/
def afterHead (head : Text) (p : UInt8 → Bool) : Pattern := fun text =>
  if head.isPrefixOf text then
    let run := (text.drop head.length).takeWhile p
    if run.isEmpty then none else some (head.length + run.length)
  else none

/-- A fixed word, with or without a leading `@`. -/
def atWord (word : Text) : Pattern := fun text =>
  if (byte '@' :: word).isPrefixOf text then some (word.length + 1)
  else if word.isPrefixOf text then some word.length
  else none

end ViewLint.Text
