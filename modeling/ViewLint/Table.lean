import ViewLint.Text.Basic

/-!
# Tables keyed by texts

A table binds keys to values, each key to one value. `get?` is the view of a table, and the two
operations are what one expects through it: `get?_put` and `get?_erase`.
-/

namespace ViewLint

/-- Bindings of keys to values. -/
abbrev Table (α : Type) := List (Text × α)

namespace Table

variable {α : Type}

/-- The value that a key is bound to. -/
def get? (t : Table α) (key : Text) : Option α := t.lookup key

/-- Unbinds a key. -/
def erase (t : Table α) (key : Text) : Table α := t.filter fun b => b.1 != key

/-- Binds a key to a value, in place of what it was bound to. -/
def put (t : Table α) (key : Text) (value : α) : Table α := (key, value) :: t.erase key

/-- The keys, in the order of their bytes. -/
def keys (t : Table α) : List Text := Text.sort (t.map (·.1))

@[simp] theorem get?_nil (key : Text) : get? ([] : Table α) key = none := rfl

theorem get?_cons (b : Text × α) (t : Table α) (key : Text) :
    get? (b :: t) key = if key = b.1 then some b.2 else get? t key := by
  obtain ⟨k, v⟩ := b
  by_cases h : key = k
  · simp [get?, h]
  · have : (key == k) = false := by simp [h]
    simp [get?, List.lookup_cons, this, h]

@[simp] theorem get?_erase (t : Table α) (key other : Text) :
    (t.erase key).get? other = if other = key then none else t.get? other := by
  induction t with
  | nil => simp [erase]
  | cons b t ih =>
    rw [get?_cons]
    by_cases hb : b.1 = key
    · have : erase (b :: t) key = erase t key := by simp [erase, hb]
      rw [this, ih]
      by_cases ho : other = key <;> simp [ho, hb]
    · have : erase (b :: t) key = b :: erase t key := by simp [erase, hb]
      rw [this, get?_cons, ih]
      by_cases ho : other = b.1
      · simp [ho, hb]
      · simp [ho]

@[simp] theorem get?_put (t : Table α) (key other : Text) (value : α) :
    (t.put key value).get? other = if other = key then some value else t.get? other := by
  rw [put, get?_cons, get?_erase]
  by_cases h : other = key <;> simp [h]

end Table

end ViewLint
