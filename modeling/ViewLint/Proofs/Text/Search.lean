import Mathlib.Tactic.Common
import ViewLint.Text.Basic

/-!
# Finding a needle

`Text.FirstAt text needle start offset` says that the needle stands at the offset and at none before
it from `start` on. There is one such offset at most, and `Text.find?` finds the one from the start
of the text or says that there is none.

What a needle does not have, it does not reach over: the last part of the module cuts texts at a byte.
-/

namespace ViewLint.Text

/-- The offset is the first one, from `start` on, at which the needle stands. -/
def FirstAt (text needle : Text) (start offset : Nat) : Prop :=
  start ≤ offset ∧ needle <+: text.drop offset ∧
    ∀ o, start ≤ o → o < offset → ¬ needle <+: text.drop o

/-- Whether a needle stands at an offset depends on the bytes under it. -/
theorem prefix_drop_congr {needle x y : Text} {o : Nat}
    (h : ∀ i, o ≤ i → i < o + needle.length → y[i]? = x[i]?) :
    needle <+: y.drop o ↔ needle <+: x.drop o := by
  rw [List.prefix_iff_getElem?, List.prefix_iff_getElem?]
  refine forall_congr' fun i => forall_congr' fun hi => ?_
  rw [List.getElem?_drop, List.getElem?_drop, h (o + i) (by omega) (by omega)]

theorem FirstAt.unique {text needle : Text} {start a b : Nat} (ha : FirstAt text needle start a)
    (hb : FirstAt text needle start b) : a = b := by
  obtain ⟨hle, hat, hfirst⟩ := ha
  obtain ⟨hle', hat', hfirst'⟩ := hb
  rcases Nat.lt_trichotomy a b with h | h | h
  · exact absurd hat (hfirst' a hle h)
  · exact h
  · exact absurd hat' (hfirst b hle' h)

/-- The first place of a needle is the first one whatever follows the text. -/
theorem FirstAt.append {text needle : Text} {start offset : Nat}
    (h : FirstAt text needle start offset) (rest : Text) :
    FirstAt (text ++ rest) needle start offset := by
  obtain ⟨hle, hat, hfirst⟩ := h
  have hroom := hat.length_le
  rw [List.length_drop] at hroom
  -- at the place and before it the needle stands under the text alone
  have hsame : ∀ o ≤ offset, (needle <+: (text ++ rest).drop o ↔ needle <+: text.drop o) := by
    intro o ho
    refine prefix_drop_congr fun i hi hlt => ?_
    exact List.getElem?_append_left (by omega)
  refine ⟨hle, (hsame offset (Nat.le_refl offset)).mpr hat, fun o ho hlt => ?_⟩
  rw [hsame o (Nat.le_of_lt hlt)]
  exact hfirst o ho hlt

/-- Searching behind the first `n` bytes. -/
theorem firstAt_drop {text needle : Text} {n start offset : Nat} :
    FirstAt (text.drop n) needle start offset ↔ FirstAt text needle (n + start) (n + offset) := by
  unfold FirstAt
  rw [List.drop_drop, Nat.add_le_add_iff_left]
  refine and_congr_right fun _ => and_congr_right fun _ => ⟨?_, ?_⟩
  · intro h o ho ho'
    have hrest := h (o - n) (by omega) (by omega)
    rwa [List.drop_drop, Nat.add_sub_cancel' (by omega)] at hrest
  · intro h o ho ho'
    rw [List.drop_drop]
    exact h (n + o) (by omega) (by omega)

/-- A search that fails at the first byte goes on behind it. -/
theorem find?_cons_of_not_starts {needle rest : Text} {b : UInt8} (h : ¬ needle <+: b :: rest) :
    find? needle (b :: rest) = (find? needle rest).map (· + 1) := by
  unfold find?
  rw [cutAt, if_neg (by rwa [List.isPrefixOf_iff_prefix]), Option.map_map, Option.map_map]
  rfl

theorem find?_cons_of_starts {needle rest : Text} {b : UInt8} (h : needle <+: b :: rest) :
    find? needle (b :: rest) = some 0 := by
  unfold find?
  rw [cutAt, if_pos (by rwa [List.isPrefixOf_iff_prefix])]
  rfl

/-- **A search that succeeds has found the first occurrence.** -/
theorem firstAt_of_find? {needle text : Text} {n : Nat} (h : find? needle text = some n) :
    FirstAt text needle 0 n := by
  induction text generalizing n with
  | nil =>
    cases needle with
    | nil =>
      obtain rfl : 0 = n := Option.some.inj h
      exact ⟨Nat.le_refl 0, List.nil_prefix, fun o _ ho => absurd ho (Nat.not_lt_zero o)⟩
    | cons b needle => cases h
  | cons b rest ih =>
    -- the needle stands at the front, or is found `m` bytes into the rest
    by_cases hprefix : needle <+: b :: rest
    · rw [find?_cons_of_starts hprefix] at h
      obtain rfl := Option.some.inj h
      exact ⟨Nat.le_refl 0, hprefix, fun o _ ho => absurd ho (Nat.not_lt_zero o)⟩
    · rw [find?_cons_of_not_starts hprefix] at h
      obtain ⟨m, hm, rfl⟩ := Option.map_eq_some_iff.mp h
      obtain ⟨-, hat, hfirst⟩ := ih hm
      refine ⟨Nat.zero_le _, hat, fun o _ ho => ?_⟩
      cases o with
      | zero => exact hprefix
      | succ o => exact hfirst o (Nat.zero_le o) (Nat.lt_of_succ_lt_succ ho)

/-- **A search that fails has overlooked nothing.** -/
theorem not_prefix_of_find? {needle text : Text} (h : find? needle text = none) (o : Nat) :
    ¬ needle <+: text.drop o := by
  induction text generalizing o with
  | nil =>
    cases needle with
    | nil => cases h
    | cons b needle =>
      rw [List.drop_nil]
      exact fun hprefix => absurd (List.prefix_nil.mp hprefix) (List.cons_ne_nil b needle)
  | cons b rest ih =>
    -- the needle does not stand at the front, nor anywhere in the rest
    by_cases hprefix : needle <+: b :: rest
    · rw [find?_cons_of_starts hprefix] at h
      cases h
    · rw [find?_cons_of_not_starts hprefix, Option.map_eq_none_iff] at h
      cases o with
      | zero => exact hprefix
      | succ o => exact ih h o

/-! ### Cutting at a byte -/

/-- A byte that does not stand in the first part of a text stands in the second one. -/
theorem exists_of_append_left {front back before after : Text} {b : UInt8}
    (h : front ++ back = before ++ b :: after) (hb : b ∉ front) :
    ∃ rest, before = front ++ rest ∧ back = rest ++ b :: after := by
  rcases List.append_eq_append_iff.mp h with hsplit | ⟨rest, rfl, hrest⟩
  · exact hsplit
  · rcases List.cons_eq_append_iff.mp hrest with ⟨rfl, rfl⟩ | ⟨rest', rfl, -⟩
    · exact ⟨[], by simp, rfl⟩
    · exact absurd (by simp) hb

/-- A byte that does not stand in the second part of a text stands in the first one. -/
theorem exists_of_append_right {front back before after : Text} {b : UInt8}
    (h : front ++ back = before ++ b :: after) (hb : b ∉ back) :
    ∃ rest, front = before ++ b :: rest ∧ after = rest ++ back := by
  rcases List.append_eq_append_iff.mp h with ⟨rest, rfl, rfl⟩ | ⟨rest, rfl, hrest⟩
  · exact absurd (by simp) hb
  · rcases List.cons_eq_append_iff.mp hrest with ⟨rfl, rfl⟩ | ⟨rest', rfl, hafter⟩
    · exact absurd List.mem_cons_self hb
    · exact ⟨rest', rfl, hafter⟩

/-- A text does not reach over a byte that it does not have. -/
theorem prefix_of_not_mem {piece front back : Text} {b : UInt8}
    (h : piece <+: front ++ b :: back) (hb : b ∉ piece) : piece <+: front := by
  obtain ⟨rest, hrest⟩ := h
  obtain ⟨between, rfl, -⟩ := exists_of_append_left hrest hb
  exact List.prefix_append _ _

/-- The bytes of a piece are those of the text that it stands in. -/
theorem getElem?_of_prefix_drop {text piece : Text} {p i : Nat} (h : piece <+: text.drop p)
    (hi : i < piece.length) : text[p + i]? = piece[i]? := by
  obtain ⟨rest, hrest⟩ := h
  rw [← List.getElem?_drop, ← hrest, List.getElem?_append_left hi]

end ViewLint.Text
