import ViewLint.Settings.Characters
import ViewLint.Settings.Hcl.Number

/-!
# The values of HCL expressions

Values and the conversions between them. A number and a truth value can stand for a text, and a text
that spells a number or a truth value can stand for it.
-/

namespace ViewLint.Hcl

/-- A value. The members of an object are sorted by their names. -/
inductive Value where
  | null
  | bool (b : Bool)
  | number (x : Number)
  | string (content : List Char)
  | tuple (items : List Value)
  | object (members : List (List Char × Value))

namespace Value

mutual

/-- Are two values the same? Values of different types never are. -/
def same : Value → Value → Bool
  | .null, .null => true
  | .bool a, .bool b => a == b
  | .number x, .number y => x.same y
  | .string s, .string t => s == t
  | .tuple xs, .tuple ys => sameItems xs ys
  | .object xs, .object ys => sameMembers xs ys
  | _, _ => false

/-- Are two lists of values the same? -/
def sameItems : List Value → List Value → Bool
  | [], [] => true
  | x :: xs, y :: ys => same x y && sameItems xs ys
  | _, _ => false

/-- Are two lists of members the same? -/
def sameMembers : List (List Char × Value) → List (List Char × Value) → Bool
  | [], [] => true
  | (n, x) :: xs, (m, y) :: ys => n == m && same x y && sameMembers xs ys
  | _, _ => false

end

/-! ### Conversions -/

/-- The value as a text. -/
def toText? : Value → Option (List Char)
  | bool true => some "true".toList
  | bool false => some "false".toList
  | number x => some (x.text.map fun b => Char.ofNat b.toNat)
  | string s => some s
  | _ => none

/-- The value as a number. -/
def toNumber? : Value → Option Number
  | number x => some x
  | string s => (Decimal.ofText? (Settings.textOf s)).map Number.ofDecimal
  | _ => none

/-- The value as a truth value. -/
def toBool? : Value → Option Bool
  | bool b => some b
  | string s =>
    if s = "true".toList ∨ s = ['1'] then some true
    else if s = "false".toList ∨ s = ['0'] then some false
    else none
  | _ => none

/-- A whole number as a value. -/
def ofNat (n : Nat) : Value := .number (.ofNat n)

/-- The value as a place in a list. -/
def toIndex? (v : Value) : Option Nat :=
  (v.toNumber?.bind Number.toInt?).bind fun n => if 0 ≤ n then some n.toNat else none

/-! ### Parts of values -/

/-- Adds a member where the order of names puts it; a member of that name is replaced. -/
def insert (name : List Char) (v : Value) : List (List Char × Value) → List (List Char × Value)
  | [] => [(name, v)]
  | (n, old) :: rest =>
    if n = name then (n, v) :: rest
    else if name < n then (name, v) :: (n, old) :: rest
    else (n, old) :: insert name v rest

/-- The part of a value at an index. -/
def index? (v key : Value) : Option Value :=
  match v with
  | .tuple items => key.toIndex?.bind fun i => items[i]?
  | .object members => key.toText?.bind fun name => members.lookup name
  | _ => none

/-- The member of an object. -/
def attr? (v : Value) (name : List Char) : Option Value :=
  match v with
  | .object members => members.lookup name
  | _ => none

/-- The values that a splat goes over: the items of a tuple, nothing for null, else the value
itself. -/
def spread : Value → List Value
  | .tuple items => items
  | .null => []
  | v => [v]

/-- The keys and values that a loop goes over. -/
def entries? : Value → Option (List (Value × Value))
  | .tuple items => some (items.zipIdx.map fun (v, i) => (ofNat i, v))
  | .object members => some (members.map fun (name, v) => (.string name, v))
  | _ => none

/-- The two outcomes of a choice, in their common type. A null fits every type. -/
def unify? : Value → Value → Option (Value × Value)
  | .null, v => some (.null, v)
  | v, .null => some (v, .null)
  | .string s, v => v.toText?.map fun t => (.string s, .string t)
  | v, .string t => v.toText?.map fun s => (.string s, .string t)
  | .bool a, .bool b => some (.bool a, .bool b)
  | .number x, .number y => some (.number x, .number y)
  | .tuple xs, .tuple ys => some (.tuple xs, .tuple ys)
  | .object xs, .object ys => some (.object xs, .object ys)
  | _, _ => none

end Value

end ViewLint.Hcl
