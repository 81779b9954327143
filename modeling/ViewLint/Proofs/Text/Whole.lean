import Mathlib.Algebra.Ring.Nat
import Mathlib.Tactic.Common
import ViewLint.Place
import ViewLint.Proofs.Text.Runes

/-!
# The characters before a column

A column of a line is turned from bytes to UTF-16 units by a walk over the characters of the line, and
back by another one. The two walks stop for different reasons, one for bytes and one for units, but at
the same kind of place: behind the last character that lies wholly before the column. `wholeBefore`
counts these characters in either measure. That so many characters lie wholly before a column says that
their sizes add up to no more than the column (`le_wholeBefore_iff`); everything else follows from this
equivalence, once for each measure.
-/

namespace ViewLint

open Text (runes)

/-! ### Sizes -/

/-- The size of some characters, measured by `size`. -/
def total (size : Text.Rune → Nat) (rs : List Text.Rune) : Nat := (rs.map size).sum

@[simp] theorem total_nil (size : Text.Rune → Nat) : total size [] = 0 := rfl

@[simp] theorem total_cons (size : Text.Rune → Nat) (r : Text.Rune) (rs : List Text.Rune) :
    total size (r :: rs) = size r + total size rs := by
  unfold total
  rw [List.map_cons, List.sum_cons]

theorem total_append (size : Text.Rune → Nat) (rs rest : List Text.Rune) :
    total size (rs ++ rest) = total size rs + total size rest := by
  unfold total
  rw [List.map_append, List.sum_append]

/-- More characters are no smaller. -/
theorem total_take_mono (size : Text.Rune → Nat) (rs : List Text.Rune) {k n : Nat} (h : k ≤ n) :
    total size (rs.take k) ≤ total size (rs.take n) := by
  have hsplit := List.take_append_drop k (rs.take n)
  rw [List.take_take, Nat.min_eq_left h] at hsplit
  rw [← hsplit, total_append]
  exact Nat.le_add_right _ _

theorem Text.width_eq_total (rs : List Text.Rune) : Text.width rs = total Text.Rune.width rs := by
  induction rs with
  | nil => rfl
  | cons r rs ih => rw [Text.width_cons, total_cons, ih]

theorem Text.Rune.units_pos (r : Text.Rune) : 1 ≤ r.units := by
  unfold units
  split <;> omega

theorem Text.one_le_width {text : Text} : ∀ r ∈ runes text, 1 ≤ r.width := by
  induction text using Text.runes_induction with
  | nil => simp
  | cons b rest ih =>
    rw [Text.runes_cons, List.forall_mem_cons]
    exact ⟨(Text.width_runeAt b rest).1, ih⟩

/-! ### Whole characters -/

/-- How many characters lie wholly before a column, where `size` measures a character. -/
def wholeBefore (size : Text.Rune → Nat) : List Text.Rune → Int → Nat
  | [], _ => 0
  | r :: rs, column =>
    if column ≤ 0 ∨ column < size r then 0 else wholeBefore size rs (column - size r) + 1

theorem wholeBefore_le_length (size : Text.Rune → Nat) (rs : List Text.Rune) (column : Int) :
    wholeBefore size rs column ≤ rs.length := by
  induction rs generalizing column with
  | nil => exact Nat.le_refl 0
  | cons r rs ih =>
    rw [wholeBefore, List.length_cons]
    split
    · exact Nat.zero_le _
    · exact Nat.succ_le_succ (ih _)

section

-- every character has a size
variable {size : Text.Rune → Nat} {rs : List Text.Rune} (hpos : ∀ r ∈ rs, 1 ≤ size r)

include hpos

/-- **The first `k` characters lie wholly before a column** just in case they add up to no more
than the column. -/
theorem le_wholeBefore_iff {k : Nat} (hk : k ≤ rs.length) (column : Int) :
    k ≤ wholeBefore size rs column ↔ (total size (rs.take k) : Int) ≤ max 0 column := by
  induction rs generalizing k column with
  | nil =>
    obtain rfl : k = 0 := Nat.le_zero.mp hk
    rw [List.take_zero, total_nil]
    omega
  | cons r rs ih =>
    obtain ⟨hr, hrs⟩ := List.forall_mem_cons.mp hpos
    cases k with
    | zero =>
      rw [List.take_zero, total_nil]
      omega
    | succ k =>
      rw [wholeBefore, List.take_succ_cons, total_cons]
      by_cases hcolumn : column ≤ 0 ∨ column < size r
      · -- not even the first character lies before the column
        rw [if_pos hcolumn]
        omega
      · have hrest := ih hrs (Nat.le_of_succ_le_succ hk) (column - size r)
        rw [if_neg hcolumn, Nat.add_le_add_iff_right, hrest]
        omega

theorem total_take_le_iff {k n : Nat} (hk : k ≤ rs.length) (hn : n ≤ rs.length) :
    total size (rs.take k) ≤ total size (rs.take n) ↔ k ≤ n := by
  -- induction on the runes: with both counts positive the first rune is taken from both sides
  induction rs generalizing k n with
  | nil =>
    obtain rfl : k = 0 := Nat.le_zero.mp hk
    simp
  | cons r rs ih =>
    obtain ⟨hr, hrs⟩ := List.forall_mem_cons.mp hpos
    cases k with
    | zero => simp
    | succ k =>
      cases n with
      | zero =>
        rw [List.take_zero, List.take_succ_cons, total_nil, total_cons]
        omega
      | succ n =>
        rw [List.take_succ_cons, List.take_succ_cons, total_cons, total_cons,
          Nat.add_le_add_iff_left, Nat.add_le_add_iff_right]
        exact ih hrs (Nat.le_of_succ_le_succ hk) (Nat.le_of_succ_le_succ hn)

/-- Before the size of the first characters there lie just these. -/
theorem wholeBefore_total {k : Nat} (hk : k ≤ rs.length) :
    wholeBefore size rs (total size (rs.take k)) = k := by
  have hiff : ∀ n ≤ rs.length, n ≤ wholeBefore size rs (total size (rs.take k)) ↔ n ≤ k := by
    intro n hn
    rw [le_wholeBefore_iff hpos hn, ← total_take_le_iff hpos hn hk]
    omega
  exact Nat.le_antisymm ((hiff _ (wholeBefore_le_length size rs _)).mp (Nat.le_refl _))
    ((hiff k hk).mpr (Nat.le_refl k))

theorem wholeBefore_mono {a b : Int} (h : a ≤ b) :
    wholeBefore size rs a ≤ wholeBefore size rs b := by
  have hle := wholeBefore_le_length size rs a
  have ha := (le_wholeBefore_iff hpos hle a).mp (Nat.le_refl _)
  rw [le_wholeBefore_iff hpos hle]
  omega

/-- Before the size of a first part there lies just this part. -/
theorem take_wholeBefore {front rest : List Text.Rune} (h : rs = front ++ rest) :
    rs.take (wholeBefore size rs (total size front)) = front := by
  have hk : front.length ≤ rs.length := by
    rw [h, List.length_append]
    exact Nat.le_add_right _ _
  have hfront : rs.take front.length = front := by rw [h, List.take_left]
  have hwhole := wholeBefore_total hpos hk
  rw [hfront] at hwhole
  rw [hwhole, hfront]

end

/-! ### The two walks -/

/-- The units of the characters that lie wholly in the first bytes. -/
theorem unitsBefore_eq_total (rs : List Text.Rune) (column : Int) :
    unitsBefore rs column =
      total Text.Rune.units (rs.take (wholeBefore Text.Rune.width rs column)) := by
  induction rs generalizing column with
  | nil => rfl
  | cons r rs ih =>
    rw [unitsBefore, wholeBefore]
    split
    · rfl
    · rw [ih, List.take_succ_cons, total_cons]

/-- The bytes of the characters that lie wholly in the first units. -/
theorem bytesBefore_eq_total (rs : List Text.Rune) (column : Int) :
    bytesBefore rs column =
      total Text.Rune.width (rs.take (wholeBefore Text.Rune.units rs column)) := by
  induction rs generalizing column with
  | nil => rfl
  | cons r rs ih =>
    rw [bytesBefore, wholeBefore]
    split
    · rfl
    · rw [ih, List.take_succ_cons, total_cons]

theorem toUTF16_eq_total (line : Text) (b : Int) : toUTF16 line b =
    total Text.Rune.units ((runes line).take (wholeBefore Text.Rune.width (runes line) b)) :=
  unitsBefore_eq_total _ b

theorem fromUTF16_eq_total (line : Text) (u : Int) : fromUTF16 line u =
    total Text.Rune.width ((runes line).take (wholeBefore Text.Rune.units (runes line) u)) :=
  bytesBefore_eq_total _ u

/-- The UTF-16 column does not decrease with the byte column. -/
theorem toUTF16_mono (line : Text) {a b : Int} (h : a ≤ b) : toUTF16 line a ≤ toUTF16 line b := by
  rw [toUTF16_eq_total, toUTF16_eq_total]
  exact total_take_mono _ _ (wholeBefore_mono Text.one_le_width h)

/-- The byte column does not decrease with the UTF-16 column. -/
theorem fromUTF16_mono (line : Text) {u v : Int} (h : u ≤ v) :
    fromUTF16 line u ≤ fromUTF16 line v := by
  rw [fromUTF16_eq_total, fromUTF16_eq_total]
  exact total_take_mono _ _ (wholeBefore_mono (fun r _ => r.units_pos) h)

end ViewLint
