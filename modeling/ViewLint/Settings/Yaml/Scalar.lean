import ViewLint.Decimal
import ViewLint.Settings.Characters
import ViewLint.Settings.Yaml.Token
import ViewLint.Word

/-!
# The values of YAML scalars

A plain scalar means what its spelling says: nothing, a truth value, a number, or else a text. A
quoted scalar is a text. A tag asks for a type, and a scalar whose spelling does not mean a value of
that type is refused; any scalar can be tagged as a text, and a whole number as a fraction.
-/

namespace ViewLint.Yaml

/-- What a scalar means. -/
inductive Value where
  | null
  | bool
  | int (n : Int)
  /-- A double; `none` is not a number or beyond all numbers. -/
  | float (x : Option Binary)
  | date
  | str
  /-- A text that was written in base 64. -/
  | binary (content : Text)
  deriving DecidableEq

namespace Value

/-- The tag of a value. -/
def tag : Value → String
  | null => "!!null"
  | bool => "!!bool"
  | int _ => "!!int"
  | float _ => "!!float"
  | date => "!!timestamp"
  | str => "!!str"
  | binary _ => "!!binary"

/-! ### Whole numbers -/

/-- The value of a digit in any base up to sixteen; other bytes are too large for every base. -/
def digit (b : UInt8) : Nat := if Text.isHexDigit b then Text.hexValue b else 16

/-- A non-empty run of digits in a base. -/
def inBase? (base : Nat) (digits : Text) : Option Nat :=
  if digits.isEmpty || digits.any (base ≤ digit ·) then none
  else some (digits.foldl (fun n b => n * base + digit b) 0)

/-- A number whose base is given by what it starts with. A leading zero means base eight. -/
def unsigned? (text : Text) : Option Nat :=
  match text with
  | 48 :: b :: rest =>
    if Text.lower b = Text.byte 'x' then inBase? 16 rest
    else if Text.lower b = Text.byte 'b' then inBase? 2 rest
    else if Text.lower b = Text.byte 'o' then inBase? 8 rest
    else inBase? 8 (b :: rest)
  | _ => inBase? 10 text

/-- A whole number that fits 64 bits, with or without a sign. -/
def int? (text : Text) : Option Int :=
  let within (lo hi : Int) (n : Int) : Option Int := if lo ≤ n ∧ n ≤ hi then some n else none
  match text with
  | [] => none
  | b :: rest =>
    if b = Text.byte '-' then (unsigned? rest).bind fun n => within (-Word.bound 64) 0 (-n)
    else if b = Text.byte '+' then (unsigned? rest).bind fun n => within 0 (Word.bound 64 - 1) n
    else (unsigned? (b :: rest)).bind fun n => within 0 (2 * Word.bound 64 - 1) n

/-! ### Fractions -/

/-- A number with a point or an exponent. -/
def float? (text : Text) : Option Binary := (Decimal.ofText? text).bind Decimal.nearest?

/-! ### Dates -/

/-- A number of one or two digits at the start of a text, and the rest. -/
def shortNumber? (text : Text) : Option (Nat × Text) :=
  let digits := (text.take 2).takeWhile Text.isDigit
  if digits.isEmpty then none else some (Text.digitsFrom 0 digits, text.drop digits.length)

/-- The days of a month. -/
def daysIn (year month : Nat) : Nat :=
  if month = 2 then
    if year % 4 = 0 ∧ (year % 100 ≠ 0 ∨ year % 400 = 0) then 29 else 28
  else if month = 4 ∨ month = 6 ∨ month = 9 ∨ month = 11 then 30
  else 31

/-- Is the text a day: year, month and day with hyphens between them? -/
def isDate (text : Text) : Bool :=
  let year := text.takeWhile Text.isDigit
  let hyphen := some (Text.byte '-')
  if year.length ≠ 4 ∨ (text.drop 4).head? ≠ hyphen then false
  else match shortNumber? (text.drop 5) with
    | none => false
    | some (month, rest) =>
      if rest.head? ≠ hyphen then false
      else match shortNumber? (rest.drop 1) with
        | none => false
        | some (day, rest) =>
          rest.isEmpty && 1 ≤ month && month ≤ 12 && 1 ≤ day &&
            day ≤ daysIn (Text.digitsFrom 0 year) month

/-! ### Base 64 -/

/-- The value of a base 64 digit. -/
def sextet? (b : UInt8) : Option Nat :=
  if 65 ≤ b && b ≤ 90 then some (b.toNat - 65)
  else if 97 ≤ b && b ≤ 122 then some (b.toNat - 71)
  else if Text.isDigit b then some (b.toNat + 4)
  else if b = Text.byte '+' then some 62
  else if b = Text.byte '/' then some 63
  else none

/-- The bytes of base 64 digits, four digits for three bytes; the last group may be filled up. -/
def base64? : Text → Option Text
  | [] => some []
  | a :: b :: c :: d :: rest => do
    let fill := Text.byte '='
    let x ← sextet? a
    let y ← sextet? b
    if rest.isEmpty ∧ c = fill ∧ d = fill then return [(x * 4 + y / 16).toUInt8]
    else
      let z ← sextet? c
      if rest.isEmpty ∧ d = fill then
        return [(x * 4 + y / 16).toUInt8, (y % 16 * 16 + z / 4).toUInt8]
      else
        let w ← sextet? d
        let tail ← base64? rest
        return (x * 4 + y / 16).toUInt8 :: (y % 16 * 16 + z / 4).toUInt8 ::
          (z % 4 * 64 + w).toUInt8 :: tail
  | _ => none

/-! ### Resolution -/

/-- The spellings of the empty value. -/
def nulls : List String := ["", "~", "null", "Null", "NULL"]

/-- The spellings of truth values. -/
def bools : List String := ["true", "True", "TRUE", "false", "False", "FALSE"]

/-- The spellings of doubles that are no decimal numbers. -/
def unusual : List (String × Option Binary) :=
  let none' : Option Binary := none
  [(".nan", none'), (".NaN", none'), (".NAN", none'), (".inf", none'), (".Inf", none'),
    (".INF", none'), ("+.inf", none'), ("+.Inf", none'), ("+.INF", none')] ++
    ["-.inf", "-.Inf", "-.INF"].map fun s => (s, some ⟨true, Binary.leastFull, 971⟩)

/-- What a number's spelling means, if it is one: underscores do not count. -/
def number? (text : Text) : Option Value :=
  match text with
  | [] => none
  | b :: _ =>
    if b = Text.byte '.' then (float? text).map fun x => .float (some x)
    else if Text.isDigit b || b == Text.byte '+' || b == Text.byte '-' then
      let bare := text.filter (· != Text.byte '_')
      match int? bare with
      | some n => some (.int n)
      | none => (float? bare).map fun x => .float (some x)
    else none

/-- What the spelling of a plain scalar means. -/
def ofPlain (content : List Char) : Value :=
  let text := Settings.textOf content
  let spelled (words : List String) := words.any fun w => w.toList == content
  if spelled nulls then .null
  else if spelled bools then .bool
  else match unusual.find? fun u => u.1.toList == content with
    | some u => .float u.2
    | none => (number? text).getD .str

/-- What a scalar means; `none` if its tag refuses it. -/
def ofScalar? (tag : Option (List Char)) (style : Style) (content : List Char) : Option Value :=
  match tag.map String.ofList with
  | none | some "" => some (if style = .plain then ofPlain content else .str)
  | some "!!str" => some .str
  | some "!!binary" =>
    (base64? ((Settings.textOf content).filter fun b => b != 10 && b != 13)).map .binary
  | some "!!timestamp" => if isDate (Settings.textOf content) then some .date else none
  | some tag =>
    match ofPlain content with
    | .int n =>
      if tag = "!!int" then some (.int n)
      else if tag = "!!float" then
        some (.float (Decimal.nearest? ⟨decide (n < 0), n.natAbs, 0⟩))
      else none
    | v => if tag = v.tag then some v else none

/-- The value as a 64-bit whole number. A double loses its fraction; one that does not fit becomes
the least number, unless it is too large. -/
def toInt? : Value → Option Int
  | int n => if n < Word.bound 64 then some n else none
  | float (some x) =>
    if Word.bound 64 < x.whole then none
    else if Word.fits 64 x.whole then some x.whole
    else some (-Word.bound 64)
  | _ => none

end Value

end ViewLint.Yaml
