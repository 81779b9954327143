import ViewLint.Text.Basic

/-!
# Decimal numbers and their nearest doubles

A number that is written with a point or an exponent is held as the double nearest to it, and a
double is written with the fewest digits that read back as the same double. Both directions are
exact arithmetic on natural numbers.

* `Decimal` is a number as it is written: digits and a power of ten;
* `Binary` is a finite double: a mantissa below `2 ^ 53` and a power of two;
* `Decimal.nearest?` rounds, half to even; `Binary.shortest` finds the digits.
-/

namespace ViewLint

/-- The number `digits * 10 ^ exponent`, with a sign. -/
structure Decimal where
  negative : Bool
  digits : Nat
  exponent : Int
  deriving DecidableEq

/-- The double `mantissa * 2 ^ exponent`, with a sign. -/
structure Binary where
  negative : Bool
  mantissa : Nat
  exponent : Int
  deriving DecidableEq

/-- A fraction of natural numbers, scaled by a power of a base. -/
def scaled (base num : Nat) (power : Int) (den : Nat) : Nat × Nat :=
  if power < 0 then (num, den * Nat.pow base power.natAbs)
  else (num * Nat.pow base power.toNat, den)

/-- The least mantissa of a double that uses all its 53 bits. -/
def Binary.leastFull : Nat := Nat.pow 2 52

namespace Decimal

/-- The least exponent of a double. -/
def leastExponent : Int := -1074

/-- The quotient rounded to the nearest natural number, half to even. -/
def roundHalfEven (num den : Nat) : Nat :=
  let q := num / den
  let r := num % den
  if 2 * r < den then q else if den < 2 * r then q + 1 else q + q % 2

/-- The power of two with which a fraction is a mantissa of 53 bits, or the least one. -/
def binaryExponent (num den : Nat) : Int :=
  let guess : Int := (Nat.log2 num : Int) - Nat.log2 den - 52
  let (n, d) := scaled 2 num (-guess) den
  max leastExponent (if n < Binary.leastFull * d then guess - 1 else guess)

/-- The nearest double; `none` if the number is too large for one. -/
def nearest? (x : Decimal) : Option Binary :=
  let size := (Nat.toDigits 10 x.digits).length + x.exponent
  if x.digits = 0 ∨ size < -330 then some ⟨x.negative, 0, leastExponent⟩
  else if 310 < size then none
  else
    let (num, den) := scaled 10 x.digits x.exponent 1
    let e := binaryExponent num den
    let (n, d) := scaled 2 num (-e) den
    let m := roundHalfEven n d
    let (m, e) := if m = 2 * Binary.leastFull then (Binary.leastFull, e + 1) else (m, e)
    if 971 < e then none else some ⟨x.negative, m, e⟩

/-- Reads digits with an optional point among them and an optional exponent behind them; an
underscore or any other byte is refused. The sign has been read. -/
def ofUnsigned? (negative : Bool) (text : Text) : Option Decimal := do
  let whole := text.takeWhile Text.isDigit
  let rest := text.drop whole.length
  let hasPoint := rest.head? = some (Text.byte '.')
  let rest := if hasPoint then rest.drop 1 else rest
  let fraction := if hasPoint then rest.takeWhile Text.isDigit else []
  let rest := rest.drop fraction.length
  if whole.isEmpty ∧ fraction.isEmpty then none
  else
    let value := Text.digitsFrom 0 (whole ++ fraction)
    let shift : Int := -(fraction.length : Int)
    match rest with
    | [] => some ⟨negative, value, shift⟩
    | b :: rest =>
      if Text.lower b ≠ Text.byte 'e' then none
      else
        let sign := rest.head?
        let signed := sign = some (Text.byte '+') ∨ sign = some (Text.byte '-')
        match Text.toNat? (if signed then rest.drop 1 else rest) with
        | none => none
        | some n =>
          -- Beyond any double the exponent no longer matters.
          let n : Int := min n 100000
          some ⟨negative, value, shift + (if sign = some (Text.byte '-') then -n else n)⟩

/-- Reads a number with an optional sign. -/
def ofText? : Text → Option Decimal
  | [] => none
  | b :: rest =>
    if b = Text.byte '-' then ofUnsigned? true rest
    else if b = Text.byte '+' then ofUnsigned? false rest
    else ofUnsigned? false (b :: rest)

end Decimal

namespace Binary

/-- The whole part of a double. -/
def whole (x : Binary) : Int :=
  let (num, den) := scaled 2 x.mantissa x.exponent 1
  let n : Int := (num / den : Nat)
  if x.negative then -n else n

/-- Does the fraction `num / den` round to the double with this mantissa and exponent? -/
def roundsTo (m : Nat) (e : Int) (num den : Nat) : Bool :=
  let (n, d) := scaled 2 num (-e) den
  -- The gap below a power of two is half as wide as the one above it.
  let narrow := m = leastFull ∧ Decimal.leastExponent < e
  let low := if narrow then (4 * m - 1) * d else (4 * m - 2) * d
  let high := (4 * m + 2) * d
  if m % 2 = 0 then low ≤ 4 * n && 4 * n ≤ high else low < 4 * n && 4 * n < high

/-- The point of the grid `10 ^ k` that rounds to a double, the nearer one if there are two. -/
def onGrid? (m : Nat) (e k : Int) : Option Nat :=
  let (n, d) := scaled 2 m e 1
  let (n, d) := scaled 10 n (-k) d
  let below := n / d
  let hits (digits : Nat) : Bool :=
    let (a, b) := scaled 10 digits k 1
    roundsTo m e a b
  let near := Decimal.roundHalfEven n d
  let far := if near = below then below + 1 else below
  if hits near then some near else if hits far then some far else none

/-- The number of digits before the decimal point of a positive double; not positive if the double
starts behind it. -/
def magnitude (m : Nat) (e : Int) : Int :=
  let (n, d) := scaled 2 m e 1
  if d ≤ n then (Nat.toDigits 10 (n / d)).length
  else
    -- The first power of ten that lifts the fraction to one or more.
    let lifts := (List.range 330).find? fun k => d ≤ n * Nat.pow 10 k
    1 - (lifts.getD 330 : Int)

/-- The digits of a positive double on the coarsest grid that has a point for it. -/
def shortestFrom (m : Nat) (e magnitude : Int) : Nat → Nat → Decimal
  | _, 0 => ⟨false, 0, 0⟩
  | count, more + 1 =>
    match onGrid? m e (magnitude - count) with
    | some digits => ⟨false, digits, magnitude - count⟩
    | none => shortestFrom m e magnitude (count + 1) more

/-- Drops the zeros at the end of a number's digits. -/
def trimZeros : Nat → Decimal → Decimal
  | 0, x => x
  | fuel + 1, x =>
    if x.digits ≠ 0 ∧ x.digits % 10 = 0 then
      trimZeros fuel { x with digits := x.digits / 10, exponent := x.exponent + 1 }
    else x

/-- The number with the fewest digits that reads back as the double, and the nearest of those. -/
def shortest (x : Binary) : Decimal :=
  if x.mantissa = 0 then ⟨x.negative, 0, 0⟩
  else
    { trimZeros 20 (shortestFrom x.mantissa x.exponent (magnitude x.mantissa x.exponent) 1 17) with
      negative := x.negative }

end Binary

namespace Decimal

/-- Writes digits with a point behind the first `whole` of them, zeros filling the gaps. -/
def positional (digits : Text) (whole : Int) : Text :=
  if whole ≤ 0 then
    Text.ofString "0." ++ List.replicate whole.natAbs 48 ++ digits
  else if (digits.length : Int) ≤ whole then
    digits ++ List.replicate (whole.toNat - digits.length) 48
  else digits.take whole.toNat ++ Text.ofString "." ++ digits.drop whole.toNat

/-- Writes digits with a point behind the first and a power of ten. -/
def scientific (digits : Text) (whole : Int) : Text :=
  let power := whole - 1
  digits.take 1 ++ (if 1 < digits.length then Text.ofString "." ++ digits.drop 1 else []) ++
    Text.ofString (if power < 0 then "e-" else "e+") ++ Text.ofNat power.natAbs

/-- How JSON writes a number: positionally from `10 ^ -6` up to `10 ^ 21`, else with a power of
ten. -/
def jsonText (x : Decimal) : Text :=
  let digits := Text.ofNat x.digits
  let whole := digits.length + x.exponent
  let body :=
    if x.digits = 0 then Text.ofString "0"
    else if -6 < whole ∧ whole ≤ 21 then positional digits whole
    else scientific digits whole
  if x.negative then Text.byte '-' :: body else body

end Decimal

end ViewLint
