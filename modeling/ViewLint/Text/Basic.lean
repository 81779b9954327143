/-!
# Texts as byte strings

Every text of the library (templates, paths, settings, messages) is a list of bytes. A template is
whatever the editor or the disk holds, valid UTF-8 or not, and columns count bytes, so bytes are the
only unit in which all operations agree. Characters enter through `ViewLint.Text.Utf8`, as a view on
top of the bytes.

* `Text` is the type, `Text.ofString` spells a constant;
* `Text.split` cuts at a separator byte and never returns the empty list;
* `Text.cutAt` finds the first occurrence of a needle;
* `Text.le` is the order of the bytes, the order in which every listing is sorted.
-/

namespace ViewLint

/-- A text is a list of bytes. -/
abbrev Text := List UInt8

namespace Text

/-- The UTF-8 bytes of a string constant. -/
def ofString (s : String) : Text :=
  s.toList.flatMap String.utf8EncodeChar

/-- The byte of an ASCII character. -/
abbrev byte (c : Char) : UInt8 := c.toUInt8

/-! ### Byte classes -/

/-- ASCII decimal digit. -/
def isDigit (b : UInt8) : Bool := 48 ≤ b && b ≤ 57

/-- ASCII letter. -/
def isLetter (b : UInt8) : Bool := (65 ≤ b && b ≤ 90) || (97 ≤ b && b ≤ 122)

/-- ASCII hexadecimal digit. -/
def isHexDigit (b : UInt8) : Bool := isDigit b || (65 ≤ b && b ≤ 70) || (97 ≤ b && b ≤ 102)

/-- The value of a hexadecimal digit; other bytes count zero. -/
def hexValue (b : UInt8) : Nat :=
  if isDigit b then b.toNat - 48
  else if 97 ≤ b && b ≤ 102 then b.toNat - 87
  else if 65 ≤ b && b ≤ 70 then b.toNat - 55
  else 0

/-- A word byte: letter, digit or underscore. -/
def isWordByte (b : UInt8) : Bool := isLetter b || isDigit b || b == byte '_'

/-- The blanks allowed inside a tag: space, tab, newline, form feed and carriage return. -/
def isBlank (b : UInt8) : Bool :=
  b == 32 || b == 9 || b == 10 || b == 12 || b == 13

/-- ASCII white space: the blanks and the vertical tab. -/
def isSpace (b : UInt8) : Bool := isBlank b || b == 11

/-- The ASCII capital of a byte; bytes that are no small letter are kept. -/
def upper (b : UInt8) : UInt8 := if 97 ≤ b && b ≤ 122 then b - 32 else b

/-- The small ASCII letter of a byte; bytes that are no capital are kept. -/
def lower (b : UInt8) : UInt8 := if 65 ≤ b && b ≤ 90 then b + 32 else b

/-! ### Cutting and joining -/

/-- Cuts a text at every occurrence of `sep`. There is always at least one piece. -/
def split (sep : UInt8) : Text → List Text
  | [] => [[]]
  | b :: rest =>
    if b = sep then [] :: split sep rest
    else match split sep rest with
      | [] => [[b]]
      | piece :: pieces => (b :: piece) :: pieces

/-- Joins pieces with a separator text between neighbours. -/
def join (sep : Text) : List Text → Text
  | [] => []
  | [piece] => piece
  | piece :: pieces => piece ++ sep ++ join sep pieces

/-- What precedes and what follows the first occurrence of `needle`. -/
def cutAt (needle : Text) : Text → Option (Text × Text)
  | [] => if needle.isEmpty then some ([], []) else none
  | b :: rest =>
    if needle.isPrefixOf (b :: rest) then some ([], (b :: rest).drop needle.length)
    else (cutAt needle rest).map fun cut => (b :: cut.1, cut.2)

/-- The offset of the first occurrence of `needle`. -/
def find? (needle text : Text) : Option Nat :=
  (cutAt needle text).map (·.1.length)

/-- Does `needle` occur in the text? -/
def includes (text needle : Text) : Bool :=
  (cutAt needle text).isSome

/-- Drops one leading occurrence of `head`. -/
def dropHead (head text : Text) : Text :=
  if head.isPrefixOf text then text.drop head.length else text

/-- Drops one trailing occurrence of `tail`. -/
def dropTail (tail text : Text) : Text :=
  if tail.isSuffixOf text then text.take (text.length - tail.length) else text

/-- Replaces every byte `old` by the text `new`. -/
def replaceByte (old : UInt8) (new : Text) (text : Text) : Text :=
  text.flatMap fun b => if b = old then new else [b]

/-- Replaces, from left to right, the occurrences of a needle; `skip` counts the bytes of an
occurrence that are still to be passed over. -/
def replaceFrom (old new : Text) : Nat → Text → Text
  | _, [] => []
  | skip + 1, _ :: rest => replaceFrom old new skip rest
  | 0, b :: rest =>
    if old.isPrefixOf (b :: rest) then new ++ replaceFrom old new (old.length - 1) rest
    else b :: replaceFrom old new 0 rest

/-- Replaces the occurrences of a non-empty needle from left to right. -/
def replaceAll (old new text : Text) : Text :=
  if old.isEmpty then text else replaceFrom old new 0 text

/-- Drops the bytes of a class at both ends. -/
def trimBoth (p : UInt8 → Bool) (text : Text) : Text :=
  ((text.dropWhile p).reverse.dropWhile p).reverse

/-- Drops the bytes of a class at the end. -/
def trimEnd (p : UInt8 → Bool) (text : Text) : Text :=
  (text.reverse.dropWhile p).reverse

/-! ### Order -/

/-- The lexicographic order of the bytes. -/
def le : Text → Text → Bool
  | [], _ => true
  | _ :: _, [] => false
  | a :: as, b :: bs => if a = b then le as bs else decide (a < b)

/-- It is the order that lists have by the order of their elements. -/
theorem le_iff (a b : Text) : le a b = true ↔ a ≤ b := by
  induction a generalizing b with
  | nil => exact ⟨fun _ => List.nil_le b, fun _ => rfl⟩
  | cons x a ih =>
    cases b with
    | nil => exact ⟨fun h => absurd h Bool.false_ne_true, fun h => absurd h (by simp)⟩
    | cons y b =>
      rw [le, List.cons_le_cons_iff]
      by_cases hxy : x = y
      · rw [if_pos hxy, ih]
        constructor
        · exact fun h => Or.inr ⟨hxy, h⟩
        · rintro (hlt | ⟨-, h⟩)
          · exact absurd hxy (UInt8.ne_of_lt hlt)
          · exact h
      · rw [if_neg hxy, decide_eq_true_iff]
        exact ⟨Or.inl, fun h => h.elim id fun heq => absurd heq.1 hxy⟩

/-- Sorts texts by their bytes. -/
def sort (texts : List Text) : List Text := texts.mergeSort le

/-! ### Decimal numbers -/

/-- The decimal digits of a natural number. -/
def ofNat (n : Nat) : Text := (Nat.toDigits 10 n).map byte

/-- The decimal digits of an integer, with a sign if it is negative. -/
def ofInt : Int → Text
  | .ofNat n => ofNat n
  | .negSucc n => byte '-' :: ofNat (n + 1)

/-- The value of a run of decimal digits, read after the digits worth `value`. -/
def digitsFrom (value : Nat) : Text → Nat
  | [] => value
  | b :: rest => digitsFrom (10 * value + (b.toNat - 48)) rest

/-- The value of a non-empty run of decimal digits. -/
def toNat? (digits : Text) : Option Nat :=
  if digits.isEmpty || !digits.all isDigit then none else some (digitsFrom 0 digits)

/-- The value of a run of decimal digits with an optional sign. -/
def toInt? : Text → Option Int
  | [] => none
  | b :: rest =>
    if b = byte '-' then (toNat? rest).map fun n => -(n : Int)
    else (toNat? (if b = byte '+' then rest else b :: rest)).map fun n => (n : Int)

/-- A natural number in hexadecimal with at least `width` small digits. -/
def hex (width n : Nat) : Text :=
  let digits := (Nat.toDigits 16 n).map byte
  List.replicate (width - digits.length) 48 ++ digits

end Text

end ViewLint
