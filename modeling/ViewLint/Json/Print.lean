import ViewLint.Json.Basic

/-!
# Writing JSON

Two layouts of one format: `compact` without any blanks, and `indented` with two spaces for each
level and one member a line. Strings are written so that they can stand inside a page: besides
quotes, backslashes and control characters, the characters `<`, `>` and `&` and the two Unicode line
separators are escaped. A byte that is no UTF-8 is written as the escaped replacement character.
-/

namespace ViewLint.Json

/-- A four-digit escape. -/
def unicodeEscape (code : Nat) : Text := Text.ofString "\\u" ++ Text.hex 4 code

/-- How one character stands inside a string. -/
def escape (r : Text.Rune) : Text :=
  if r.code = 0x22 then Text.ofString "\\\""
  else if r.code = 0x5C then Text.ofString "\\\\"
  else if r.code = 0x08 then Text.ofString "\\b"
  else if r.code = 0x0C then Text.ofString "\\f"
  else if r.code = 0x0A then Text.ofString "\\n"
  else if r.code = 0x0D then Text.ofString "\\r"
  else if r.code = 0x09 then Text.ofString "\\t"
  else if r.code < 0x20 ∨ r.code = 0x3C ∨ r.code = 0x3E ∨ r.code = 0x26 ∨ r.code = 0x2028 ∨
      r.code = 0x2029 ∨ r.isMalformed then unicodeEscape r.code
  else Text.encode r.code

/-- A string with its quotes. -/
def quote (s : Text) : Text :=
  Text.ofString "\"" ++ (Text.runes s).flatMap escape ++ Text.ofString "\""

mutual

/-- A value without any blanks. -/
def compact : Json → Text
  | .null => Text.ofString "null"
  | .bool true => Text.ofString "true"
  | .bool false => Text.ofString "false"
  | .num written => written
  | .str s => quote s
  | .arr items => Text.ofString "[" ++ Text.join (Text.ofString ",") (compactItems items)
      ++ Text.ofString "]"
  | .obj members => Text.ofString "\x7b" ++ Text.join (Text.ofString ",") (compactMembers members)
      ++ Text.ofString "\x7d"

/-- The items of an array without any blanks. -/
def compactItems : List Json → List Text
  | [] => []
  | v :: rest => compact v :: compactItems rest

/-- The members of an object without any blanks. -/
def compactMembers : List (Text × Json) → List Text
  | [] => []
  | (key, v) :: rest => (quote key ++ Text.ofString ":" ++ compact v) :: compactMembers rest

end

/-- A new line, indented by two spaces for each level. -/
def newline (level : Nat) : Text := Text.byte '\n' :: List.replicate (2 * level) 32

mutual

/-- A value with one member a line, from the given level on. -/
def indentedAt (level : Nat) : Json → Text
  | .arr [] => Text.ofString "[]"
  | .arr items =>
    Text.ofString "[" ++ newline (level + 1) ++
      Text.join (Text.ofString "," ++ newline (level + 1)) (indentedItems (level + 1) items) ++
      newline level ++ Text.ofString "]"
  | .obj [] => Text.ofString "\x7b\x7d"
  | .obj members =>
    Text.ofString "\x7b" ++ newline (level + 1) ++
      Text.join (Text.ofString "," ++ newline (level + 1)) (indentedMembers (level + 1) members) ++
      newline level ++ Text.ofString "\x7d"
  | .null => compact .null
  | .bool b => compact (.bool b)
  | .num written => compact (.num written)
  | .str s => compact (.str s)

/-- The items of an array, each from the given level on. -/
def indentedItems (level : Nat) : List Json → List Text
  | [] => []
  | v :: rest => indentedAt level v :: indentedItems level rest

/-- The members of an object, each from the given level on. -/
def indentedMembers (level : Nat) : List (Text × Json) → List Text
  | [] => []
  | (key, v) :: rest =>
    (quote key ++ Text.ofString ": " ++ indentedAt level v) :: indentedMembers level rest

end

/-- A value with one member a line. -/
def indented (v : Json) : Text := indentedAt 0 v

end ViewLint.Json
