import ViewLint.Text.Basic

/-!
# The characters of a text

UTF-8 as a view on bytes. `runes` cuts any text into characters, from left to right: a well-formed
sequence is one character, and a byte that starts none is a character of its own, standing for the
replacement character. So every text has characters, whether it is valid UTF-8 or not, and their
widths add up to its length.

* `Rune` is a character with the number of bytes it was read from;
* `runes` cuts a text, `encode` writes a code point;
* `Rune.units` counts the UTF-16 code units of a character, the unit in which editors count columns.
-/

namespace ViewLint.Text

/-- The code point that stands for malformed input. -/
def replacement : Nat := 0xFFFD

/-- A character of a text: its code point, and how many bytes it was read from. -/
structure Rune where
  code : Nat
  width : Nat
  deriving DecidableEq

/-- Does the byte lie between `lo` and `hi`? -/
def isBetween (lo hi b : UInt8) : Bool := lo ≤ b && b ≤ hi

/-- Is the byte a continuation byte? -/
def isContinuation (b : UInt8) : Bool := isBetween 0x80 0xBF b

/-- The payload of a continuation byte. -/
def payload (b : UInt8) : Nat := b.toNat % 64

/-- The character that stands for a malformed byte. -/
def Rune.malformed : Rune := ⟨replacement, 1⟩

/-- A two-byte character after the lead byte `b`. -/
def rune2 (b : UInt8) : Text → Rune
  | c :: _ => if isContinuation c then ⟨b.toNat % 32 * 64 + payload c, 2⟩ else .malformed
  | _ => .malformed

/-- A three-byte character after the lead byte `b`, whose second byte lies between `lo` and `hi`. -/
def rune3 (b lo hi : UInt8) : Text → Rune
  | c :: d :: _ =>
    if isBetween lo hi c && isContinuation d then
      ⟨b.toNat % 16 * 4096 + payload c * 64 + payload d, 3⟩
    else .malformed
  | _ => .malformed

/-- A four-byte character after the lead byte `b`, whose second byte lies between `lo` and `hi`. -/
def rune4 (b lo hi : UInt8) : Text → Rune
  | c :: d :: e :: _ =>
    if isBetween lo hi c && isContinuation d && isContinuation e then
      ⟨b.toNat % 8 * 262144 + payload c * 4096 + payload d * 64 + payload e, 4⟩
    else .malformed
  | _ => .malformed

/-- The character that starts with byte `b`, followed by `rest`. Overlong forms, surrogates and code
points above U+10FFFF are malformed. -/
def runeAt (b : UInt8) (rest : Text) : Rune :=
  if b < 0x80 then ⟨b.toNat, 1⟩
  else if b < 0xC2 then .malformed
  else if b < 0xE0 then rune2 b rest
  else if b = 0xE0 then rune3 b 0xA0 0xBF rest
  else if b = 0xED then rune3 b 0x80 0x9F rest
  else if b < 0xF0 then rune3 b 0x80 0xBF rest
  else if b = 0xF0 then rune4 b 0x90 0xBF rest
  else if b < 0xF4 then rune4 b 0x80 0xBF rest
  else if b = 0xF4 then rune4 b 0x80 0x8F rest
  else .malformed

/-- The characters of a text of which the first `skip` bytes are passed over. -/
def runesFrom : Nat → Text → List Rune
  | _, [] => []
  | skip + 1, _ :: rest => runesFrom skip rest
  | 0, b :: rest => runeAt b rest :: runesFrom ((runeAt b rest).width - 1) rest

/-- The characters of a text, from left to right. -/
def runes (text : Text) : List Rune := runesFrom 0 text

/-- The first character of a text; the empty text gives an empty malformed one. -/
def firstRune : Text → Rune
  | [] => ⟨replacement, 0⟩
  | b :: rest => runeAt b rest

/-- The UTF-16 code units of a character: two above U+FFFF, one otherwise. -/
def Rune.units (r : Rune) : Nat := if r.code > 0xFFFF then 2 else 1

/-- A character that was malformed in the text: the replacement character read from one byte. -/
def Rune.isMalformed (r : Rune) : Bool := r.code == replacement && r.width == 1

/-- Is the text valid UTF-8? -/
def isUtf8 (text : Text) : Bool := !(runes text).any Rune.isMalformed

/-- The UTF-8 bytes of a code point; surrogates and numbers above U+10FFFF are written as the
replacement character. -/
def encode (code : Nat) : Text :=
  let code := if (0xD800 ≤ code ∧ code < 0xE000) ∨ 0x10FFFF < code then replacement else code
  if code < 0x80 then [code.toUInt8]
  else if code < 0x800 then [(0xC0 + code / 64).toUInt8, (0x80 + code % 64).toUInt8]
  else if code < 0x10000 then
    [(0xE0 + code / 4096).toUInt8, (0x80 + code / 64 % 64).toUInt8, (0x80 + code % 64).toUInt8]
  else
    [(0xF0 + code / 262144).toUInt8, (0x80 + code / 4096 % 64).toUInt8,
      (0x80 + code / 64 % 64).toUInt8, (0x80 + code % 64).toUInt8]

/-! ### Unicode white space -/

/-- Unicode white space. -/
def isUnicodeSpace (code : Nat) : Bool :=
  (9 ≤ code && code ≤ 13) || code == 32 || code == 0x85 || code == 0xA0 || code == 0x1680 ||
  (0x2000 ≤ code && code ≤ 0x200A) || code == 0x2028 || code == 0x2029 || code == 0x202F ||
  code == 0x205F || code == 0x3000

/-- The number of bytes that a list of characters was read from. -/
def width (rs : List Rune) : Nat := rs.foldr (fun r n => r.width + n) 0

/-- Drops the white-space characters at the end of a text. -/
def trimSpaceEnd (text : Text) : Text :=
  text.take (width ((runes text).reverse.dropWhile fun r => isUnicodeSpace r.code))

/-- Drops the white-space characters at the start of a text. -/
def trimSpaceStart (text : Text) : Text :=
  text.drop (width ((runes text).takeWhile fun r => isUnicodeSpace r.code))

/-- Drops the white-space characters at both ends of a text. -/
def trimSpace (text : Text) : Text := trimSpaceEnd (trimSpaceStart text)

end ViewLint.Text
