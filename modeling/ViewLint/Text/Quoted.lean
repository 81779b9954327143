import ViewLint.Text.Printable

/-!
# Quoted texts

A text in double quotes, as messages show a value the user gave. Printable characters stand for
themselves, the usual control characters have their letter escapes, and all else is written as a
hexadecimal escape: `\x` for a byte, `\u` and `\U` for a code point.
-/

namespace ViewLint.Text

/-- How one character stands inside quotes; `source` is the byte a malformed character was read
from. -/
def quoteRune (r : Rune) (source : UInt8) : Text :=
  if r.isMalformed then ofString "\\x" ++ hex 2 source.toNat
  else if r.code = 0x22 then ofString "\\\""
  else if r.code = 0x5C then ofString "\\\\"
  else if isPrintable r.code then encode r.code
  else if r.code = 7 then ofString "\\a"
  else if r.code = 8 then ofString "\\b"
  else if r.code = 12 then ofString "\\f"
  else if r.code = 10 then ofString "\\n"
  else if r.code = 13 then ofString "\\r"
  else if r.code = 9 then ofString "\\t"
  else if r.code = 11 then ofString "\\v"
  else if r.code < 32 ∨ r.code = 127 then ofString "\\x" ++ hex 2 r.code
  else if r.code < 0x10000 then ofString "\\u" ++ hex 4 r.code
  else ofString "\\U" ++ hex 8 r.code

/-- The quoted characters of a text of which the first `skip` bytes are passed over. -/
def quoteFrom : Nat → Text → Text
  | _, [] => []
  | skip + 1, _ :: rest => quoteFrom skip rest
  | 0, b :: rest => quoteRune (runeAt b rest) b ++ quoteFrom ((runeAt b rest).width - 1) rest

/-- A text in double quotes. -/
def quoted (text : Text) : Text := ofString "\"" ++ quoteFrom 0 text ++ ofString "\""

end ViewLint.Text
