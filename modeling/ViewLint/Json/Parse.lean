import ViewLint.Json.Basic

/-!
# Reading JSON

`Json.parse?` reads exactly one value with nothing but blanks around it. The reader follows the
grammar: numbers have no leading zeros, strings hold no bare control characters, and objects and
arrays nest at most ten thousand levels deep. Bytes that are no UTF-8, and escapes of half a
surrogate pair, are read as the replacement character.
-/

namespace ViewLint.Json

/-- The blanks between tokens. -/
def isBlank (b : UInt8) : Bool := b == 32 || b == 9 || b == 10 || b == 13

/-- Passes over blanks. -/
def skipBlanks (text : Text) : Text := text.dropWhile isBlank

/-- A non-empty run of digits and the rest. -/
def digits? (text : Text) : Option (Text × Text) :=
  let run := text.takeWhile Text.isDigit
  if run.isEmpty then none else some (run, text.drop run.length)

/-- The integer part of a number: a zero, or digits without a leading zero. -/
def integer? : Text → Option (Text × Text)
  | [] => none
  | b :: rest => if b = 48 then some ([b], rest) else digits? (b :: rest)

/-- The fraction of a number, if there is one. -/
def fraction? (text : Text) : Option (Text × Text) :=
  if text.head? = some (Text.byte '.') then
    (digits? (text.drop 1)).map fun d => (Text.byte '.' :: d.1, d.2)
  else some ([], text)

/-- The exponent of a number, if there is one. -/
def exponent? : Text → Option (Text × Text)
  | [] => some ([], [])
  | b :: rest =>
    if Text.lower b = Text.byte 'e' then
      let sign := if rest.head? = some (Text.byte '+') ∨ rest.head? = some (Text.byte '-')
        then rest.take 1 else []
      (digits? (rest.drop sign.length)).map fun d => (b :: sign ++ d.1, d.2)
    else some ([], b :: rest)

/-- A number and the rest. -/
def number? (text : Text) : Option (Text × Text) := do
  let sign := if text.head? = some (Text.byte '-') then text.take 1 else []
  let (whole, rest) ← integer? (text.drop sign.length)
  let (fraction, rest) ← fraction? rest
  let (exponent, rest) ← exponent? rest
  return (sign ++ whole ++ fraction ++ exponent, rest)

/-- The value of four hexadecimal digits, and the rest. -/
def hex4? : Text → Option (Nat × Text)
  | a :: b :: c :: d :: rest =>
    if [a, b, c, d].all Text.isHexDigit then
      some (((Text.hexValue a * 16 + Text.hexValue b) * 16 + Text.hexValue c) * 16
        + Text.hexValue d, rest)
    else none
  | _ => none

/-- The low half of a surrogate pair, written as an escape at the start of a text. -/
def lowSurrogate? (text : Text) : Option (Nat × Text) :=
  if (Text.ofString "\\u").isPrefixOf text then
    (hex4? (text.drop 2)).filter fun h => 0xDC00 ≤ h.1 ∧ h.1 < 0xE000
  else none

/-- The character after a `\u`, and the rest. A half surrogate pair is the replacement
character. -/
def unicodeEscape? (text : Text) : Option (Text × Text) := do
  let (code, rest) ← hex4? text
  if 0xD800 ≤ code ∧ code < 0xDC00 then
    match lowSurrogate? rest with
    | some (low, rest) =>
      return (Text.encode (0x10000 + (code - 0xD800) * 1024 + (low - 0xDC00)), rest)
    | none => return (Text.encode Text.replacement, rest)
  else return (Text.encode code, rest)

/-- The character after a backslash, and the rest. -/
def escape? : Text → Option (Text × Text)
  | [] => none
  | b :: rest =>
    if b = Text.byte 'u' then unicodeEscape? rest
    else if b = Text.byte '"' ∨ b = Text.byte '\\' ∨ b = Text.byte '/' then some ([b], rest)
    else if b = Text.byte 'b' then some ([8], rest)
    else if b = Text.byte 'f' then some ([12], rest)
    else if b = Text.byte 'n' then some ([10], rest)
    else if b = Text.byte 'r' then some ([13], rest)
    else if b = Text.byte 't' then some ([9], rest)
    else none

/-- The content of a string up to its closing quote, and the rest behind the quote. Each step of
the fuel reads one character. -/
def stringBody? : Nat → Text → Option (Text × Text)
  | 0, _ => none
  | _ + 1, [] => none
  | fuel + 1, b :: rest =>
    if b = Text.byte '"' then some ([], rest)
    else if b < 32 then none
    else if b = Text.byte '\\' then do
      let (c, rest) ← escape? rest
      let (tail, rest) ← stringBody? fuel rest
      return (c ++ tail, rest)
    else do
      let r := Text.runeAt b rest
      let (tail, rest) ← stringBody? fuel (rest.drop (r.width - 1))
      return (Text.encode r.code ++ tail, rest)

/-- A string and the rest, read behind the opening quote. -/
def string? (text : Text) : Option (Text × Text) := stringBody? (text.length + 1) text

/-- The greatest depth of nesting. -/
def maxDepth : Nat := 10000

mutual

/-- A value and the rest; blanks before it are passed over. -/
def value? : Nat → Nat → Text → Option (Json × Text)
  | 0, _, _ => none
  | fuel + 1, depth, text =>
    match skipBlanks text with
    | [] => none
    | b :: rest =>
      if b = Text.byte '"' then (string? rest).map fun s => (.str s.1, s.2)
      else if b = Text.byte '[' then
        if depth = 0 then none
        else match skipBlanks rest with
          | [] => none
          | c :: after =>
            if c = Text.byte ']' then some (.arr [], after)
            else (items? fuel (depth - 1) (c :: after)).map fun i => (.arr i.1, i.2)
      else if b = Text.byte '\x7b' then
        if depth = 0 then none
        else match skipBlanks rest with
          | [] => none
          | c :: after =>
            if c = Text.byte '\x7d' then some (.obj [], after)
            else (members? fuel (depth - 1) (c :: after)).map fun m => (.obj m.1, m.2)
      else if (Text.ofString "null").isPrefixOf (b :: rest) then some (.null, rest.drop 3)
      else if (Text.ofString "true").isPrefixOf (b :: rest) then some (.bool true, rest.drop 3)
      else if (Text.ofString "false").isPrefixOf (b :: rest) then some (.bool false, rest.drop 4)
      else (number? (b :: rest)).map fun n => (.num n.1, n.2)

/-- The items of an array and the rest behind its bracket. -/
def items? : Nat → Nat → Text → Option (List Json × Text)
  | 0, _, _ => none
  | fuel + 1, depth, text => do
    let (v, rest) ← value? fuel depth text
    match skipBlanks rest with
    | [] => none
    | b :: rest =>
      if b = Text.byte ']' then return ([v], rest)
      else if b = Text.byte ',' then
        let (tail, rest) ← items? fuel depth rest
        return (v :: tail, rest)
      else none

/-- The members of an object and the rest behind its brace. -/
def members? : Nat → Nat → Text → Option (List (Text × Json) × Text)
  | 0, _, _ => none
  | fuel + 1, depth, text => do
    match skipBlanks text with
    | [] => none
    | b :: rest =>
      if b ≠ Text.byte '"' then none
      else
        let (key, rest) ← string? rest
        match skipBlanks rest with
        | [] => none
        | c :: rest =>
          if c ≠ Text.byte ':' then none
          else
            let (v, rest) ← value? fuel depth rest
            match skipBlanks rest with
            | [] => none
            | d :: rest =>
              if d = Text.byte '\x7d' then return ([(key, v)], rest)
              else if d = Text.byte ',' then
                let (tail, rest) ← members? fuel depth rest
                return ((key, v) :: tail, rest)
              else none

end

/-- Reads one value with nothing but blanks around it. -/
def parse? (text : Text) : Option Json := do
  let (v, rest) ← value? (2 * text.length + 2) maxDepth text
  if (skipBlanks rest).isEmpty then some v else none

end ViewLint.Json
