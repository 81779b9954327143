import ViewLint.Decimal

/-!
# Numbers in HCL

A number has a sign and 512 significant bits. Its size is held as the exact rational number that
those bits mean, so every operation is the operation on rational numbers, followed by one rounding
(`Number.round`, half to even). Division by zero gives an infinite number; the sum of opposite
infinities and the like have no value. A number is written positionally, with the fewest digits that
round to it again.
-/

namespace ViewLint.Hcl

/-- A number. The size of a finite one is not negative; zero has a sign too. -/
inductive Number where
  | finite (negative : Bool) (size : Rat)
  | infinite (negative : Bool)
  deriving DecidableEq

namespace Number

/-! ### Rounding -/

/-- How many significant bits a number has. -/
def precision : Nat := 512

/-- The exponent of the last significant bit of a positive size. -/
def lastBit (size : Rat) : Int :=
  let top : Int := (Nat.log2 size.num.natAbs : Int) - Nat.log2 size.den
  (if size < (2 : Rat) ^ top then top - 1 else top) - (precision - 1)

/-- The integer nearest to a number that is not negative, half to even. -/
def nearestInt (x : Rat) : Int := Decimal.roundHalfEven x.num.natAbs x.den

/-- The number nearest to a size. -/
def round (negative : Bool) (size : Rat) : Number :=
  if size = 0 then .finite negative 0
  else
    let unit := (2 : Rat) ^ lastBit size
    .finite negative (nearestInt (size / unit) * unit)

/-- The number nearest to a rational number; zero is positive. -/
def ofRat (x : Rat) : Number := round (decide (x < 0)) x.abs

/-- A natural number as a number. -/
def ofNat (n : Nat) : Number := round false n

/-- The largest exponent that is computed with. -/
def largestExponent : Int := 5000

/-- The number nearest to a decimal. -/
def ofDecimal (x : Decimal) : Number :=
  let e := max (-largestExponent) (min largestExponent x.exponent)
  round x.negative (x.digits * (10 : Rat) ^ e)

/-! ### Views -/

/-- The rational number of a finite number. -/
def toRat? : Number → Option Rat
  | finite negative size => some (if negative then -size else size)
  | infinite _ => none

/-- The integer that a number is. -/
def toInt? (x : Number) : Option Int :=
  x.toRat?.bind fun q => if q.den = 1 then some q.num else none

/-- Does a number have a negative sign? -/
def isNegative : Number → Bool
  | finite negative _ => negative
  | infinite negative => negative

/-- Is a number zero, whatever its sign? -/
def isZero : Number → Bool
  | finite _ size => size == 0
  | infinite _ => false

/-! ### Order -/

/-- Where a number stands: before all finite ones, among them, or behind them, and there where. -/
def rank : Number → Int × Rat
  | infinite true => (-1, 0)
  | infinite false => (1, 0)
  | finite negative size => (0, if negative then -size else size)

/-- Is a number less than another one? -/
def less (x y : Number) : Bool :=
  x.rank.1 < y.rank.1 || (x.rank.1 == y.rank.1 && x.rank.2 < y.rank.2)

/-- Do two numbers stand at the same place? The sign of zero does not matter. -/
def same (x y : Number) : Bool := x.rank == y.rank

/-! ### Arithmetic -/

/-- The number with the other sign. -/
def neg : Number → Number
  | finite negative size => .finite (!negative) size
  | infinite negative => .infinite (!negative)

/-- The sum; opposite infinities have none. Zero is negative only as the sum of negative zeros. -/
def add? : Number → Number → Option Number
  | infinite a, infinite b => if a = b then some (.infinite a) else none
  | infinite a, finite _ _ => some (.infinite a)
  | finite _ _, infinite b => some (.infinite b)
  | finite a x, finite b y =>
    let sum := (if a then -x else x) + (if b then -y else y)
    some (if sum = 0 then .finite (a && b) 0 else ofRat sum)

/-- The difference. -/
def sub? (x y : Number) : Option Number := x.add? y.neg

/-- The product; zero and an infinite number have none. -/
def mul? (x y : Number) : Option Number :=
  let negative := x.isNegative != y.isNegative
  match x, y with
  | finite _ x, finite _ y => some (round negative (x * y))
  | _, _ => if x.isZero || y.isZero then none else some (.infinite negative)

/-- The quotient. A number divided by zero is infinite; zero by zero, and an infinite number by
another one, have none. -/
def div? (x y : Number) : Option Number :=
  let negative := x.isNegative != y.isNegative
  match x, y with
  | finite _ x, finite _ y =>
    if y ≠ 0 then some (round negative (x / y))
    else if x = 0 then none
    else some (.infinite negative)
  | finite _ _, infinite _ => some (.finite negative 0)
  | infinite _, finite _ _ => some (.infinite negative)
  | infinite _, infinite _ => none

/-- The number without its fraction. -/
def truncated? (x : Number) : Option Number :=
  x.toRat?.map fun q => ofRat (Int.tdiv q.num q.den)

/-- What a division leaves, with the sign of the dividend. Zero divides nothing off. -/
def mod? (x y : Number) : Option Number :=
  if y.isZero then some x
  else do x.sub? (← y.mul? (← (← x.div? y).truncated?))

/-! ### Writing -/

/-- How many digits a positive size has before the decimal point; not positive if it starts behind
it. -/
def magnitude (size : Rat) : Int :=
  if 1 ≤ size then (Nat.toDigits 10 size.floor.toNat).length
  else
    -- The first power of ten that lifts the size to one or more.
    let lifts := (List.range (size.den.log2 + 2)).find? fun k => 1 ≤ size * 10 ^ k
    1 - (lifts.getD 0 : Int)

/-- The point of the grid `10 ^ k` that rounds to a size, whose last bit has the exponent `e`. Half
a bit off counts if the size has an even last bit, since halves are rounded to even. -/
def onGrid? (size : Rat) (e k : Int) : Option Nat :=
  let grid := (10 : Rat) ^ k
  let point := nearestInt (size / grid)
  let gap := (point * grid - size).abs
  let half := (2 : Rat) ^ (e - 1)
  let isEven := (size / (2 : Rat) ^ e).num % 2 = 0
  if gap < half ∨ (gap = half ∧ isEven) then some point.toNat else none

/-- More digits than any number needs. -/
def mostDigits : Nat := 160

/-- The decimal with the fewest digits that rounds to a positive size. -/
def shortest (size : Rat) : Decimal :=
  let e := lastBit size
  let top := magnitude size
  let found := (List.range mostDigits).findSome? fun (n : Nat) =>
    (onGrid? size e (top - n - 1)).map fun digits => (⟨false, digits, top - n - 1⟩ : Decimal)
  Binary.trimZeros mostDigits (found.getD ⟨false, 0, 0⟩)

/-- Writes a number. -/
def text : Number → Text
  | infinite negative => Text.ofString (if negative then "-Inf" else "+Inf")
  | finite negative size =>
    let body :=
      if size = 0 then Text.ofString "0"
      else
        let x := shortest size
        let digits := Text.ofNat x.digits
        Decimal.positional digits (digits.length + x.exponent)
    if negative then Text.byte '-' :: body else body

end Number

end ViewLint.Hcl
