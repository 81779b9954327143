import ViewLint.Text.Utf8

/-!
# Regular expressions

A small matcher for the expressions that ignore rules are turned into. An expression is read by
`Regex.parse?` and matched on the characters of a text by computing, for a set of positions, the set
of positions that a match can lead to (`Regex.reach`). So a match costs no backtracking, and the
repetition of an expression is a closure that is reached after as many rounds as the text has
characters.
-/

namespace ViewLint

/-- A regular expression over code points. -/
inductive Regex where
  /-- Matches nothing, anywhere. -/
  | empty
  /-- One character in one of the ranges, or in none of them if `negated`. -/
  | set (negated : Bool) (ranges : List (Nat × Nat))
  /-- The start of the text. -/
  | start
  /-- The end of the text. -/
  | stop
  /-- A place between a word character and another one, or not such a place if `negated`. -/
  | boundary (negated : Bool)
  | seq (first second : Regex)
  | alt (first second : Regex)
  | star (body : Regex)

namespace Regex

/-! ### Matching -/

/-- Does a class hold the code point? -/
def holds (negated : Bool) (ranges : List (Nat × Nat)) (code : Nat) : Bool :=
  ranges.any (fun r => r.1 ≤ code && code ≤ r.2) != negated

/-- Is there a word character at the position? -/
def wordAt (input : Array Nat) (position : Nat) : Bool :=
  input[position]?.any fun code => code < 128 && Text.isWordByte code.toUInt8

/-- The union of two sets of positions. -/
def union (as bs : List Nat) : List Nat := as ++ bs.filter (!as.contains ·)

/-- Repeats a step until a set of positions is closed; the fuel bounds the rounds. -/
def closure (next : List Nat → List Nat) : Nat → List Nat → List Nat
  | 0, positions => positions
  | rounds + 1, positions => closure next rounds (union positions (next positions))

/-- The positions that a match from one of the given positions can lead to. -/
def reach (input : Array Nat) : Regex → List Nat → List Nat
  | empty, positions => positions
  | set negated ranges, positions =>
    (positions.filter fun p => input[p]?.any (holds negated ranges)).map (· + 1)
  | start, positions => positions.filter (· == 0)
  | stop, positions => positions.filter (· == input.size)
  | boundary negated, positions =>
    positions.filter fun p =>
      ((0 < p && wordAt input (p - 1)) != wordAt input p) != negated
  | seq a b, positions => reach input b (reach input a positions)
  | alt a b, positions => union (reach input a positions) (reach input b positions)
  | star a, positions => closure (reach input a) (input.size + 1) positions

/-- Does the expression match somewhere in the text? -/
def search (r : Regex) (text : Text) : Bool :=
  let input := ((Text.runes text).map Text.Rune.code).toArray
  !(reach input r (List.range (input.size + 1))).isEmpty

/-! ### Expressions from parts -/

/-- One given character. -/
def literal (code : Nat) : Regex := set false [(code, code)]

/-- Any character but a newline. -/
def anyButNewline : Regex := set true [(10, 10)]

/-- `n` copies of an expression. -/
def copies (r : Regex) : Nat → Regex
  | 0 => empty
  | n + 1 => seq r (copies r n)

/-- At most `n` copies of an expression. -/
def atMost (r : Regex) : Nat → Regex
  | 0 => empty
  | n + 1 => alt empty (seq r (atMost r n))

/-- At least `low` and at most `high` copies of an expression. -/
def between (r : Regex) (low : Nat) : Option Nat → Regex
  | some high => seq (copies r low) (atMost r (high - low))
  | none => seq (copies r low) (star r)

/-! ### Reading -/

/-- The ranges of a class named by a letter. -/
def classOf (letter : Nat) : Option (Bool × List (Nat × Nat)) :=
  let digit := [(48, 57)]
  let word := [(48, 57), (65, 90), (95, 95), (97, 122)]
  let blank := [(9, 10), (12, 13), (32, 32)]
  if letter = 100 then some (false, digit)
  else if letter = 68 then some (true, digit)
  else if letter = 119 then some (false, word)
  else if letter = 87 then some (true, word)
  else if letter = 115 then some (false, blank)
  else if letter = 83 then some (true, blank)
  else none

/-- The code points outside a list of ranges. -/
def complement (ranges : List (Nat × Nat)) : List (Nat × Nat) :=
  let sorted := ranges.mergeSort fun a b => a.1 ≤ b.1
  let (gaps, next) := sorted.foldl (fun (gaps, next) r =>
    (if next < r.1 then gaps ++ [(next, r.1 - 1)] else gaps, max next (r.2 + 1))) ([], 0)
  gaps ++ [(next, 0x10FFFF)]

/-- The ranges of a class in plain form. -/
def plainRanges : Bool × List (Nat × Nat) → List (Nat × Nat)
  | (false, ranges) => ranges
  | (true, ranges) => complement ranges

/-- The ranges of a class named by a word, as in `[[:digit:]]`. -/
def namedClass (name : String) : Option (List (Nat × Nat)) :=
  let letters := [(65, 90), (97, 122)]
  match name with
  | "alnum" => some ((48, 57) :: letters)
  | "alpha" => some letters
  | "ascii" => some [(0, 127)]
  | "blank" => some [(9, 9), (32, 32)]
  | "cntrl" => some [(0, 31), (127, 127)]
  | "digit" => some [(48, 57)]
  | "graph" => some [(33, 126)]
  | "lower" => some [(97, 122)]
  | "print" => some [(32, 126)]
  | "punct" => some [(33, 47), (58, 64), (91, 96), (123, 126)]
  | "space" => some [(9, 13), (32, 32)]
  | "upper" => some [(65, 90)]
  | "word" => some ((48, 57) :: (95, 95) :: letters)
  | "xdigit" => some [(48, 57), (65, 70), (97, 102)]
  | _ => none

/-- Cuts a list in front of the first occurrence of two items in a row, which are dropped. -/
def cutAt (first second : Nat) : List Nat → Option (List Nat × List Nat)
  | a :: b :: rest =>
    if a = first ∧ b = second then some ([], rest)
    else (cutAt first second (b :: rest)).map fun cut => (a :: cut.1, cut.2)
  | _ => none

/-- A class named by a word, read behind its opening bracket and colon: its ranges and the rest. A
caret negates it. The outer option is `none` if there is no closing colon, and then the bracket is
an item of its own; the inner one if the word is not known. -/
def wordClass? (input : List Nat) : Option (Option (List (Nat × Nat) × List Nat)) :=
  (cutAt 58 93 input).map fun (name, rest) =>
    let negated := name.head? == some 94
    let word := String.ofList ((if negated then name.drop 1 else name).map Char.ofNat)
    (namedClass word).map fun ranges => (plainRanges (negated, ranges), rest)

/-- The value of octal digits, and the rest; at most `most` digits are read. -/
def octal (most : Nat) (input : List Nat) : Nat × List Nat :=
  let digits := (input.take most).takeWhile fun c => 48 ≤ c && c ≤ 55
  (digits.foldl (fun v d => v * 8 + (d - 48)) 0, input.drop digits.length)

/-- The value of hexadecimal digits. -/
def hexOf (digits : List Nat) : Nat :=
  digits.foldl (fun v d => v * 16 + Text.hexValue d.toUInt8) 0

/-- Is the code point a hexadecimal digit? -/
def isHex (code : Nat) : Bool := code < 128 && Text.isHexDigit code.toUInt8

/-- The code point of an escape, read behind the backslash. -/
def escape? : List Nat → Option (Nat × List Nat)
  | [] => none
  | 120 :: 123 :: rest =>
    let digits := rest.takeWhile isHex
    let after := rest.drop digits.length
    if digits.isEmpty ∨ after.head? ≠ some 125 ∨ 0x10FFFF < hexOf digits then none
    else some (hexOf digits, after.drop 1)
  | 120 :: a :: b :: rest => if isHex a && isHex b then some (hexOf [a, b], rest) else none
  | c :: rest =>
    if c = 48 ∨ (49 ≤ c ∧ c ≤ 55 ∧ rest.head?.any fun d => 48 ≤ d && d ≤ 55) then
      some (octal 3 (c :: rest))
    else if c = 97 then some (7, rest)
    else if c = 102 then some (12, rest)
    else if c = 110 then some (10, rest)
    else if c = 114 then some (13, rest)
    else if c = 116 then some (9, rest)
    else if c = 118 then some (11, rest)
    else if c < 128 ∧ !Text.isLetter c.toUInt8 ∧ !Text.isDigit c.toUInt8 then some (c, rest)
    else none

/-- A single character of a class. -/
def classChar? : List Nat → Option (Nat × List Nat)
  | [] => none
  | 92 :: rest => escape? rest
  | c :: rest => some (c, rest)

/-- The items of a class up to its closing bracket; `first` says that no item has been read, so that
a closing bracket is an item. -/
def classItems? : Nat → Bool → List Nat → Option (List (Nat × Nat) × List Nat)
  | 0, _, _ => none
  | _ + 1, _, [] => none
  | fuel + 1, first, c :: rest =>
    let word := if c = 91 ∧ rest.head? = some 58 then wordClass? (rest.drop 1) else none
    if c = 93 ∧ !first then some ([], rest)
    else match word, c, rest.head?.bind classOf with
      | some none, _, _ => none
      | some (some (ranges, after)), _, _ =>
        (classItems? fuel false after).map fun tail => (ranges ++ tail.1, tail.2)
      | none, 92, some named => (classItems? fuel false (rest.drop 1)).map fun tail =>
          (plainRanges named ++ tail.1, tail.2)
      | none, _, _ => do
        let (lo, after) ← classChar? (c :: rest)
        if after.head? = some 45 ∧ (after.drop 1).head?.any (· != 93) then
          let (hi, after) ← classChar? (after.drop 1)
          if hi < lo then none
          else
            let (tail, after) ← classItems? fuel false after
            return ((lo, hi) :: tail, after)
        else
          let (tail, after) ← classItems? fuel false after
          return ((lo, lo) :: tail, after)

/-- A class, read behind its opening bracket. -/
def class? (input : List Nat) : Option (Regex × List Nat) :=
  let negated := input.head? == some 94
  let body := if negated then input.drop 1 else input
  (classItems? (body.length + 1) true body).map fun items => (set negated items.1, items.2)

/-- The value of decimal digits without a leading zero, and the rest. -/
def count? (input : List Nat) : Option (Nat × List Nat) :=
  let digits := input.takeWhile fun c => 48 ≤ c && c ≤ 57
  if digits.isEmpty ∨ (digits.head? = some 48 ∧ 1 < digits.length) then none
  else some (digits.foldl (fun v d => v * 10 + (d - 48)) 0, input.drop digits.length)

/-- A counted repetition, read behind its brace: the least and the greatest number of copies. -/
def counts? (input : List Nat) : Option ((Nat × Option Nat) × List Nat) := do
  let (low, rest) ← count? input
  match rest with
  | 125 :: rest => return ((low, some low), rest)
  | 44 :: 125 :: rest => return ((low, none), rest)
  | 44 :: rest =>
    let (high, rest) ← count? rest
    match rest with
    | 125 :: rest => return ((low, some high), rest)
    | _ => none
  | _ => none

/-- The repetition that is written at the start of the input, if there is one. A second question
mark asks for short matches and changes nothing here. The inner option is `none` for a repetition
that is out of bounds. -/
def repetition? (input : List Nat) : Option (Option ((Nat × Option Nat) × List Nat)) :=
  let lazily (r : (Nat × Option Nat) × List Nat) :=
    (r.1, if r.2.head? = some 63 then r.2.drop 1 else r.2)
  match input with
  | 42 :: rest => some (some (lazily ((0, none), rest)))
  | 43 :: rest => some (some (lazily ((1, none), rest)))
  | 63 :: rest => some (some (lazily ((0, some 1), rest)))
  | 123 :: rest => (counts? rest).map fun c =>
      if 1000 < c.1.1 ∨ (c.1.2.any fun high => high < c.1.1 || 1000 < high) then none
      else some (lazily c)
  | _ => none

/-- An expression that has been read, and the number of copies of a character that the counted
repetitions in it ask for, one inside the other. -/
structure Part where
  regex : Regex
  copies : Nat

/-- An expression behind another one. -/
def Part.seq (first second : Part) : Part :=
  ⟨.seq first.regex second.regex, max first.copies second.copies⟩

/-- An expression, or another one. -/
def Part.alt (first second : Part) : Part :=
  ⟨.alt first.regex second.regex, max first.copies second.copies⟩

/-- The copies of a repeated expression; stars, pluses and question marks are not counted, and no copy
hides what is inside. -/
def Part.copiesOf (p : Part) (counted : Bool) (low : Nat) (high : Option Nat) : Nat :=
  if counted then max 1 (high.getD low * p.copies) else p.copies

/-- Applies a repetition that follows an expression. Two in a row are refused, and so are counted ones
that ask for too many copies together. -/
def repeated? (p : Part) (input : List Nat) : Option (Part × List Nat) :=
  match repetition? input with
  | none => some (p, input)
  | some none => none
  | some (some ((low, high), rest)) =>
    let copies := p.copiesOf (input.head? == some 123) low high
    if (repetition? rest).isSome ∨ 1000 < copies then none
    else some (⟨between p.regex low high, copies⟩, rest)

/-- The text behind a `\Q`, up to the next `\E` or to the end of the input, and the rest. -/
def quotedText (input : List Nat) : List Nat × List Nat :=
  (cutAt 92 69 input).getD (input, [])

/-- An expression up to the end of the input or to the bracket that closes its group. `depth` counts
the open groups; `before` is what has been read of the current alternative. -/
def expression? : Nat → Nat → Part → List Nat → Option (Part × List Nat)
  | 0, _, _, _ => none
  | _ + 1, 0, before, [] => some (before, [])
  | _ + 1, _ + 1, _, [] => none
  | fuel + 1, depth, before, c :: rest =>
    let append (p : Part) (after : List Nat) := do
      let (p, after) ← repeated? p after
      expression? fuel depth (before.seq p) after
    if c = 41 then if depth = 0 then none else some (before, rest)
    else if c = 124 then do
      let (other, after) ← expression? fuel depth ⟨empty, 1⟩ rest
      return (before.alt other, after)
    else if c = 40 then do
      let (p, after) ← expression? fuel (depth + 1) ⟨empty, 1⟩ rest
      append p after
    else if c = 91 then do
      let (r, after) ← class? rest
      append ⟨r, 1⟩ after
    else if c = 46 then append ⟨anyButNewline, 1⟩ rest
    else if c = 94 then append ⟨start, 1⟩ rest
    else if c = 36 then append ⟨stop, 1⟩ rest
    else if c = 92 then
      match rest.head? with
      | some 98 => append ⟨boundary false, 1⟩ (rest.drop 1)
      | some 66 => append ⟨boundary true, 1⟩ (rest.drop 1)
      | some 65 => append ⟨start, 1⟩ (rest.drop 1)
      | some 122 => append ⟨stop, 1⟩ (rest.drop 1)
      | some 81 =>
        let (text, after) := quotedText (rest.drop 1)
        match text.getLast? with
        | none => expression? fuel depth before after
        | some last =>
          let upTo := text.dropLast.foldl (fun p code => p.seq ⟨literal code, 1⟩) before
          do
            let (p, after) ← repeated? ⟨literal last, 1⟩ after
            expression? fuel depth (upTo.seq p) after
      | _ =>
        match rest.head?.bind classOf with
        | some named => append ⟨set named.1 named.2, 1⟩ (rest.drop 1)
        | none => do
          let (code, after) ← escape? rest
          append ⟨literal code, 1⟩ after
    else if (repetition? (c :: rest)).isSome then none
    else append ⟨literal c, 1⟩ rest

/-- Reads an expression; `none` if it is malformed. -/
def parse? (pattern : Text) : Option Regex := do
  if !Text.isUtf8 pattern then none
  else
    let input := (Text.runes pattern).map Text.Rune.code
    let (p, _) ← expression? (input.length + 1) 0 ⟨empty, 1⟩ input
    return p.regex

end Regex

end ViewLint
