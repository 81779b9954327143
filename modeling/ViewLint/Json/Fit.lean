import ViewLint.Decimal
import ViewLint.Json.Basic
import ViewLint.Word

/-!
# Reading JSON into records

The parameters of a message are JSON objects, and the receiver has a record type for each of them. A
`Fit` reads a JSON value into a value that is there already, so that what a message leaves out keeps
its default:

* `null` changes nothing, except that it empties an optional value;
* the keys of an object are matched without regard to case, unknown keys are passed over, and a key
  that is repeated is read once more into what it has given before;
* a number fits an integer only if it is written as one and lies in range.

A value of the wrong shape fits nothing, and then the whole message does not fit.
-/

namespace ViewLint

/-- Reads a JSON value into a value that is there already; `none` if it does not fit. -/
abbrev Fit (α : Type) := α → Json → Option α

namespace Fit

/-! ### Values -/

/-- A text. -/
def text : Fit Text
  | old, .null => some old
  | _, .str s => some s
  | _, _ => none

/-- An integer of a number of bits, sign included. A number with a fraction or exponent is none. -/
def int (bits : Nat) : Fit Int
  | old, .null => some old
  | _, .num written =>
    (Text.toInt? written).filter (Word.fits bits)
  | _, _ => none

mutual

/-- Can every number of a value be held as a double? -/
def isFinite : Json → Bool
  | .num written => ((Decimal.ofText? written).bind Decimal.nearest?).isSome
  | .arr items => allFinite items
  | .obj members => membersFinite members
  | _ => true

/-- Can every number of some values be held as a double? -/
def allFinite : List Json → Bool
  | [] => true
  | v :: rest => isFinite v && allFinite rest

/-- Can every number of some members be held as a double? -/
def membersFinite : List (Text × Json) → Bool
  | [] => true
  | (_, v) :: rest => isFinite v && membersFinite rest

end

/-- Any value; it is looked at, but not kept. -/
def any {α : Type} : Fit α := fun old v => if isFinite v then some old else none

/-- A value that may be left out; a value that is given is read into `zero`, or into the value that
was given before. -/
def option {α : Type} (zero : α) (fit : Fit α) : Fit (Option α)
  | _, .null => some none
  | old, v => (fit (old.getD zero) v).map some

/-- Reads the items of a list, each into the item that stands at its place already, or into
`zero`. -/
def items {α : Type} (zero : α) (fit : Fit α) : List α → List Json → Option (List α)
  | _, [] => some []
  | old, v :: rest => do
    let item ← fit (old.headD zero) v
    let tail ← items zero fit (old.drop 1) rest
    return item :: tail

/-- A list. -/
def list {α : Type} (zero : α) (fit : Fit α) : Fit (List α)
  | _, .null => some []
  | old, .arr values => items zero fit old values
  | _, _ => none

/-! ### Records -/

/-- A field of a record: its key, and how its value is read into the record. -/
structure Field (α : Type) where
  key : String
  read : Fit α

/-- A field given by how it is looked up and replaced. -/
def Field.of {α β : Type} (key : String) (get : α → β) (set : α → β → α) (fit : Fit β) : Field α :=
  ⟨key, fun a v => (fit (get a) v).map (set a)⟩

/-- One code for all cases of a letter. Two letters have a third case beyond ASCII: the long s and
the Kelvin sign. -/
def foldCase (code : Nat) : Nat :=
  if 97 ≤ code ∧ code ≤ 122 then code - 32
  else if code = 0x17F then 0x53
  else if code = 0x212A then 0x4B
  else code

/-- Is the key the name of a field, in any case? -/
def isKey (name : String) (key : Text) : Bool :=
  (Text.runes key).map (fun r => foldCase r.code) == name.toList.map fun c => foldCase c.toNat

/-- Reads one member of an object; unknown keys change nothing. -/
def member {α : Type} (fields : List (Field α)) (old : α) (m : Text × Json) : Option α :=
  match fields.find? (isKey ·.key m.1) with
  | some field => field.read old m.2
  | none => some old

/-- A record. -/
def record {α : Type} (fields : List (Field α)) : Fit α
  | old, .null => some old
  | old, .obj members => members.foldlM (member fields) old
  | _, _ => none

end Fit

end ViewLint
