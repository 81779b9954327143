import Mathlib.Order.Bounds.Basic
import ViewLint.Proofs.Text.Columns

/-!
# Byte columns and UTF-16 columns correspond

`utf16_columns_correspond`: on any line, valid UTF-8 or not, the two conversions of columns round
down to a place between two characters, and there each undoes the other. In terms of order they are
a pair of adjoints: a boundary is no further than the byte column of a UTF-16 column just in case
its own UTF-16 column is no further than that one.

A boundary of the line lies behind some of its first characters (`Text.isBoundary_iff`), and both
conversions stop behind the characters that lie wholly before a column. So rounding and order come
down to numbers of characters, and these to sizes (`le_wholeBefore_iff`).
-/

namespace ViewLint

open Text (IsBoundary runes)

/-! ### The characters of a line -/

/-- A boundary lies behind some of the characters. -/
theorem Text.isBoundary_iff {line : Text} {o : Nat} : IsBoundary line o ↔
    ∃ k ≤ (runes line).length, o = total Rune.width ((runes line).take k) := by
  unfold IsBoundary
  constructor
  · rintro ⟨k, rfl⟩
    refine ⟨min k (runes line).length, Nat.min_le_right _ _, ?_⟩
    rw [width_eq_total, ← List.take_eq_take_min]
  · rintro ⟨k, -, rfl⟩
    exact ⟨k, (width_eq_total _).symm⟩

theorem Text.IsBoundary.le_length {line : Text} {o : Nat} (h : IsBoundary line o) :
    o ≤ line.length := by
  obtain ⟨k, hk, rfl⟩ := isBoundary_iff.mp h
  have hle := total_take_mono Rune.width (runes line) hk
  rwa [List.take_length, ← width_eq_total (runes line), width_runes] at hle

/-- What stands before a boundary is decoded as it is in the line. -/
theorem Text.runes_take_total {line : Text} {k : Nat} (hk : k ≤ (runes line).length) :
    runes (line.take (total Rune.width ((runes line).take k))) = (runes line).take k := by
  have hbound : IsBoundary line (total Rune.width ((runes line).take k)) :=
    isBoundary_iff.mpr ⟨k, hk, rfl⟩
  have hcut := hbound.runes_eq
  have hwidth : total Rune.width (runes (line.take (total Rune.width ((runes line).take k)))) =
      total Rune.width ((runes line).take k) := by
    rw [← width_eq_total, width_runes, List.length_take_of_le hbound.le_length]
  -- both are first characters of the line, and as wide as each other
  have hwhole := take_wholeBefore one_le_width hcut
  rw [hwidth, wholeBefore_total one_le_width hk] at hwhole
  exact hwhole.symm

theorem utf16Length_take {line : Text} {k : Nat} (hk : k ≤ (runes line).length) :
    utf16Length (line.take (total Text.Rune.width ((runes line).take k))) =
      total Text.Rune.units ((runes line).take k) := by
  rw [utf16Length_eq_total, Text.runes_take_total hk]

/-! ### The two conversions -/

/-- A UTF-16 column leads to a place between two characters. -/
theorem isBoundary_fromUTF16 (line : Text) (u : Int) : IsBoundary line (fromUTF16 line u) :=
  Text.isBoundary_iff.mpr ⟨_, wholeBefore_le_length _ _ u, fromUTF16_eq_total line u⟩

/-- There and back, a byte column is rounded down to the characters wholly before it. -/
theorem fromUTF16_toUTF16_eq (line : Text) (b : Int) : fromUTF16 line (toUTF16 line b) =
    total Text.Rune.width ((runes line).take (wholeBefore Text.Rune.width (runes line) b)) := by
  rw [fromUTF16_eq_total, toUTF16_eq_total,
    wholeBefore_total (fun r _ => r.units_pos) (wholeBefore_le_length _ _ b)]

/-- There and back, a UTF-16 column is rounded down to the characters wholly before it. -/
theorem toUTF16_fromUTF16_eq (line : Text) (u : Int) : toUTF16 line (fromUTF16 line u) =
    total Text.Rune.units ((runes line).take (wholeBefore Text.Rune.units (runes line) u)) := by
  rw [toUTF16_eq_total, fromUTF16_eq_total,
    wholeBefore_total Text.one_le_width (wholeBefore_le_length _ _ u)]

/-- **Between two characters the conversions are adjoint.** -/
theorem le_fromUTF16_iff {line : Text} {b : Nat} (h : IsBoundary line b) (u : Int) :
    b ≤ fromUTF16 line u ↔ (toUTF16 line b : Int) ≤ max 0 u := by
  obtain ⟨k, hk, rfl⟩ := Text.isBoundary_iff.mp h
  rw [fromUTF16_eq_total, toUTF16_eq_total, wholeBefore_total Text.one_le_width hk,
    total_take_le_iff Text.one_le_width hk (wholeBefore_le_length _ _ u),
    le_wholeBefore_iff (fun r _ => r.units_pos) hk]

/-- **Byte columns and UTF-16 columns correspond exactly.** A byte column comes back from UTF-16 as
the last boundary that is not behind it, a UTF-16 column comes back from bytes as the longest first
part, up to a boundary, that is not longer. All UTF-16 columns lead to boundaries of the line, both
conversions are monotone, and at boundaries they are adjoint. -/
theorem utf16_columns_correspond (line : Text) :
    (∀ b : Int, IsGreatest {o : Nat | IsBoundary line o ∧ (o : Int) ≤ max 0 (min b line.length)}
      (fromUTF16 line (toUTF16 line b))) ∧
    (∀ u : Int, IsGreatest {n : Nat | (∃ o, IsBoundary line o ∧ utf16Length (line.take o) = n) ∧
      (n : Int) ≤ max 0 u} (toUTF16 line (fromUTF16 line u))) ∧
    (∀ u : Int, IsBoundary line (fromUTF16 line u) ∧ fromUTF16 line u ≤ line.length) ∧
    (∀ b c : Int, b ≤ c → toUTF16 line b ≤ toUTF16 line c) ∧
    (∀ u v : Int, u ≤ v → fromUTF16 line u ≤ fromUTF16 line v) ∧
    ∀ (b : Nat) (u : Int), IsBoundary line b →
      (b ≤ fromUTF16 line u ↔ (toUTF16 line b : Int) ≤ max 0 u) := by
  refine ⟨fun b => ?_, fun u => ?_,
    fun u => ⟨isBoundary_fromUTF16 line u, (isBoundary_fromUTF16 line u).le_length⟩,
    fun _ _ => toUTF16_mono line, fun _ _ => fromUTF16_mono line, fun _ u h => le_fromUTF16_iff h u⟩
  · -- the byte column comes back as the boundary its rune starts at, and no other lies between
    have hwhole := wholeBefore_le_length Text.Rune.width (runes line) b
    have hbound := isBoundary_fromUTF16 line (toUTF16 line b)
    rw [fromUTF16_toUTF16_eq] at hbound ⊢
    constructor
    · have hle := (le_wholeBefore_iff Text.one_le_width hwhole b).mp (Nat.le_refl _)
      have hlength := hbound.le_length
      exact ⟨hbound, by omega⟩
    · rintro o ⟨ho, hob⟩
      obtain ⟨k, hk, rfl⟩ := Text.isBoundary_iff.mp ho
      rw [total_take_le_iff Text.one_le_width hk hwhole,
        le_wholeBefore_iff Text.one_le_width hk]
      omega
  · -- the same for UTF-16 columns: the units of the runes before are the greatest sum not beyond
    have hwhole := wholeBefore_le_length Text.Rune.units (runes line) u
    rw [toUTF16_fromUTF16_eq]
    constructor
    · exact ⟨⟨_, Text.isBoundary_iff.mpr ⟨_, hwhole, rfl⟩, utf16Length_take hwhole⟩,
        (le_wholeBefore_iff (fun r _ => r.units_pos) hwhole u).mp (Nat.le_refl _)⟩
    · rintro n ⟨⟨o, ho, rfl⟩, hu⟩
      obtain ⟨k, hk, rfl⟩ := Text.isBoundary_iff.mp ho
      rw [utf16Length_take hk] at hu ⊢
      rw [total_take_le_iff (fun r _ => r.units_pos) hk hwhole,
        le_wholeBefore_iff (fun r _ => r.units_pos) hk]
      exact hu

/-- A character of two units and a malformed byte behind it. The boundary between them is behind the
UTF-16 column inside the character, which leads back to its start. -/
theorem utf16_columns_correspond_pair :
    let line : Text := [0x61, 0xF0, 0x9F, 0x98, 0x80, 0xFF]
    IsBoundary line 5 ∧ (5 ≤ fromUTF16 line 2 ↔ (toUTF16 line (5 : Nat) : Int) ≤ max 0 2) ∧
      toUTF16 line (5 : Nat) = 3 ∧ fromUTF16 line 2 = 1 := by
  intro line
  obtain ⟨-, -, -, -, -, hadjoint⟩ := utf16_columns_correspond line
  have hbound : IsBoundary line 5 := ⟨2, by decide⟩
  exact ⟨hbound, hadjoint 5 2 hbound, by decide, by decide⟩

end ViewLint
