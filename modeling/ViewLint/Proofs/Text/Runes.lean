import Mathlib.Tactic.Common
import ViewLint.Place

/-!
# Decoding a text piece by piece

`Text.runes` decodes a whole text from left to right. Here it is cut: the characters of a text are
the characters of its two halves, if the cut is at a **boundary**, that is, between two characters.
Two kinds of cuts are boundaries whatever stands around them: before a byte that continues no
character (`runes_append_of_not_continuation`) and after an ASCII byte (`runes_append_of_ascii`).
That is why lines can be decoded on their own.

Everything rests on two facts about one character: further bytes do not change it, unless the first
of them could continue it (`runeAt_append`), and it depends on its own bytes only (`runeAt_take`).
-/

namespace ViewLint.Text

/-! ### One character -/

theorem isContinuation_of_isBetween {lo hi c : UInt8} (hlo : 0x80 ≤ lo) (hhi : hi ≤ 0xBF)
    (h : isBetween lo hi c = true) : isContinuation c = true := by
  unfold isContinuation
  unfold isBetween at h ⊢
  rw [Bool.and_eq_true, decide_eq_true_eq, decide_eq_true_eq] at h ⊢
  exact ⟨UInt8.le_trans hlo h.1, UInt8.le_trans h.2 hhi⟩

/-- A byte below `0x80` continues no character. -/
theorem not_isContinuation_of_ascii {c : UInt8} (h : c < 0x80) : isContinuation c = false := by
  unfold isContinuation isBetween
  rw [Bool.and_eq_false_iff]
  exact Or.inl (decide_eq_false (UInt8.not_le.mpr h))

/-- What a byte can start: a character of one byte, none at all, or one with so many continuation
bytes, of which the first may be confined to a narrower range. -/
inductive Lead (b : UInt8) : Prop where
  | one (h : ∀ rest, runeAt b rest = ⟨b.toNat, 1⟩)
  | malformed (h : ∀ rest, runeAt b rest = .malformed)
  | two (h : ∀ rest, runeAt b rest = rune2 b rest)
  | three (lo hi : UInt8) (hlo : 0x80 ≤ lo) (hhi : hi ≤ 0xBF)
      (h : ∀ rest, runeAt b rest = rune3 b lo hi rest)
  | four (lo hi : UInt8) (hlo : 0x80 ≤ lo) (hhi : hi ≤ 0xBF)
      (h : ∀ rest, runeAt b rest = rune4 b lo hi rest)

theorem lead (b : UInt8) : Lead b := by
  -- one case per branch of `runeAt`, in its order
  by_cases h1 : b < 0x80
  · exact .one fun rest => by rw [runeAt, if_pos h1]
  by_cases h2 : b < 0xC2
  · exact .malformed fun rest => by rw [runeAt, if_neg h1, if_pos h2]
  by_cases h3 : b < 0xE0
  · exact .two fun rest => by rw [runeAt, if_neg h1, if_neg h2, if_pos h3]
  by_cases h4 : b = 0xE0
  · exact .three 0xA0 0xBF (by decide) (by decide) fun rest => by
      rw [runeAt, if_neg h1, if_neg h2, if_neg h3, if_pos h4]
  by_cases h5 : b = 0xED
  · exact .three 0x80 0x9F (by decide) (by decide) fun rest => by
      rw [runeAt, if_neg h1, if_neg h2, if_neg h3, if_neg h4, if_pos h5]
  by_cases h6 : b < 0xF0
  · exact .three 0x80 0xBF (by decide) (by decide) fun rest => by
      rw [runeAt, if_neg h1, if_neg h2, if_neg h3, if_neg h4, if_neg h5, if_pos h6]
  by_cases h7 : b = 0xF0
  · exact .four 0x90 0xBF (by decide) (by decide) fun rest => by
      rw [runeAt, if_neg h1, if_neg h2, if_neg h3, if_neg h4, if_neg h5, if_neg h6, if_pos h7]
  by_cases h8 : b < 0xF4
  · exact .four 0x80 0xBF (by decide) (by decide) fun rest => by
      rw [runeAt, if_neg h1, if_neg h2, if_neg h3, if_neg h4, if_neg h5, if_neg h6, if_neg h7,
        if_pos h8]
  by_cases h9 : b = 0xF4
  · exact .four 0x80 0x8F (by decide) (by decide) fun rest => by
      rw [runeAt, if_neg h1, if_neg h2, if_neg h3, if_neg h4, if_neg h5, if_neg h6, if_neg h7,
        if_neg h8, if_pos h9]
  · exact .malformed fun rest => by
      rw [runeAt, if_neg h1, if_neg h2, if_neg h3, if_neg h4, if_neg h5, if_neg h6, if_neg h7,
        if_neg h8, if_neg h9]

/-- A character has at least one byte, and no more than there are. -/
theorem width_runeAt (b : UInt8) (rest : Text) :
    1 ≤ (runeAt b rest).width ∧ (runeAt b rest).width ≤ rest.length + 1 := by
  -- the bytes after the lead are there, or the rune is malformed and one wide
  cases lead b with
  | one h => simp [h]
  | malformed h => simp [h, Rune.malformed]
  | two h =>
    rw [h]
    unfold rune2
    split
    · split <;> simp [Rune.malformed]
    · simp [Rune.malformed]
  | three lo hi hlo hhi h =>
    rw [h]
    unfold rune3
    split
    · split <;> simp [Rune.malformed]
    · simp [Rune.malformed]
  | four lo hi hlo hhi h =>
    rw [h]
    unfold rune4
    split
    · split <;> simp [Rune.malformed]
    · simp [Rune.malformed]

theorem exists_width_runeAt (b : UInt8) (rest : Text) : ∃ w, (runeAt b rest).width = w + 1 :=
  Nat.exists_eq_add_of_le' (width_runeAt b rest).1

/-- Further bytes do not change a character, unless the first of them could continue it. -/
theorem runeAt_append (b : UInt8) (rest : Text) {tail : Text}
    (h : ∀ c, tail.head? = some c → isContinuation c = false) :
    runeAt b (rest ++ tail) = runeAt b rest := by
  -- a character that the rest cuts short is malformed, and stays so
  have hbetween : ∀ {lo hi : UInt8}, 0x80 ≤ lo → hi ≤ 0xBF →
      ∀ c, tail.head? = some c → isBetween lo hi c = false := by
    intro lo hi hlo hhi c hc
    by_contra hb
    have := isContinuation_of_isBetween hlo hhi (by simpa using hb)
    rw [h c hc] at this
    exact absurd this (by simp)
  cases lead b with
  | one hb => rw [hb, hb]
  | malformed hb => rw [hb, hb]
  | two hb =>
    rw [hb, hb]
    rcases rest with _ | ⟨c, rest⟩
    · rcases tail with _ | ⟨x, tail⟩
      · rfl
      · simp [rune2, h x rfl]
    · rfl
  | three lo hi hlo hhi hb =>
    -- the first byte of `tail` would be the second or the third one of the character
    have hx := hbetween hlo hhi
    rw [hb, hb]
    rcases rest with _ | ⟨c, _ | ⟨d, rest⟩⟩
    · rcases tail with _ | ⟨x, _ | ⟨y, tail⟩⟩
      · rfl
      · rfl
      · simp [rune3, hx x rfl]
    · rcases tail with _ | ⟨x, tail⟩
      · rfl
      · simp [rune3, h x rfl]
    · rfl
  | four lo hi hlo hhi hb =>
    have hx := hbetween hlo hhi
    rw [hb, hb]
    rcases rest with _ | ⟨c, _ | ⟨d, _ | ⟨e, rest⟩⟩⟩
    · rcases tail with _ | ⟨x, _ | ⟨y, _ | ⟨z, tail⟩⟩⟩
      · rfl
      · rfl
      · rfl
      · simp [rune4, hx x rfl]
    · rcases tail with _ | ⟨x, _ | ⟨y, tail⟩⟩
      · rfl
      · rfl
      · simp [rune4, h x rfl]
    · rcases tail with _ | ⟨x, tail⟩
      · rfl
      · simp [rune4, h x rfl]
    · rfl

/-- A character depends on its own bytes only. -/
theorem runeAt_take (b : UInt8) (rest : Text) {n : Nat} (h : (runeAt b rest).width ≤ n + 1) :
    runeAt b (rest.take n) = runeAt b rest := by
  cases lead b with
  | one hb => rw [hb, hb]
  | malformed hb => rw [hb, hb]
  | two hb =>
    rw [hb] at h ⊢
    rw [hb]
    rcases rest with _ | ⟨c, rest⟩
    · simp
    · by_cases hc : isContinuation c = true
      · -- a character of two bytes: the width leaves room for the second one
        rw [rune2, if_pos hc] at h
        obtain ⟨m, rfl⟩ : ∃ m, n = m + 1 := ⟨n - 1, by simp only at h; omega⟩
        rfl
      · rcases n with _ | n <;> simp [rune2, hc]
  | three lo hi hlo hhi hb =>
    rw [hb] at h ⊢
    rw [hb]
    rcases rest with _ | ⟨c, _ | ⟨d, rest⟩⟩
    · simp
    · rcases n with _ | n <;> simp [rune3]
    · by_cases hc : (isBetween lo hi c && isContinuation d) = true
      · rw [rune3, if_pos hc] at h
        obtain ⟨m, rfl⟩ : ∃ m, n = m + 2 := ⟨n - 2, by simp only at h; omega⟩
        rfl
      · rcases n with _ | _ | n <;> simp [rune3, hc]
  | four lo hi hlo hhi hb =>
    rw [hb] at h ⊢
    rw [hb]
    rcases rest with _ | ⟨c, _ | ⟨d, _ | ⟨e, rest⟩⟩⟩
    · simp
    · rcases n with _ | n <;> simp [rune4]
    · rcases n with _ | _ | n <;> simp [rune4]
    · by_cases hc : (isBetween lo hi c && isContinuation d && isContinuation e) = true
      · rw [rune4, if_pos hc] at h
        obtain ⟨m, rfl⟩ : ∃ m, n = m + 3 := ⟨n - 3, by simp only at h; omega⟩
        rfl
      · rcases n with _ | _ | _ | n <;> simp [rune4, hc]

/-! ### The characters of a text -/

@[simp] theorem runes_nil : runes [] = [] := rfl

theorem runesFrom_eq_runes_drop (skip : Nat) (text : Text) :
    runesFrom skip text = runes (text.drop skip) := by
  induction text generalizing skip with
  | nil => simp [runes, runesFrom]
  | cons b rest ih =>
    cases skip with
    | zero => rfl
    | succ skip => exact ih skip

/-- The first character, and the characters of what follows it. -/
theorem runes_cons (b : UInt8) (rest : Text) :
    runes (b :: rest) = runeAt b rest :: runes (rest.drop ((runeAt b rest).width - 1)) := by
  rw [← runesFrom_eq_runes_drop]
  rfl

/-- Induction along the characters of a text. -/
theorem runes_induction {P : Text → Prop} (nil : P [])
    (cons : ∀ b rest, P (rest.drop ((runeAt b rest).width - 1)) → P (b :: rest)) (text : Text) :
    P text := by
  generalize hn : text.length = n
  induction n using Nat.strongRecOn generalizing text with
  | ind n ih =>
    cases text with
    | nil => exact nil
    | cons b rest =>
      refine cons b rest (ih _ ?_ _ rfl)
      rw [List.length_drop, ← hn, List.length_cons]
      omega

@[simp] theorem width_nil : width [] = 0 := rfl

@[simp] theorem width_cons (r : Rune) (rs : List Rune) : width (r :: rs) = r.width + width rs := rfl

theorem width_append (as bs : List Rune) : width (as ++ bs) = width as + width bs := by
  induction as with
  | nil => simp
  | cons r as ih => rw [List.cons_append, width_cons, ih, width_cons, Nat.add_assoc]

/-- The widths of the characters add up to the length of the text. -/
@[simp] theorem width_runes (text : Text) : width (runes text) = text.length := by
  induction text using runes_induction with
  | nil => rfl
  | cons b rest ih =>
    have hw := width_runeAt b rest
    rw [runes_cons, width_cons, ih, List.length_drop, List.length_cons]
    omega

/-- **A cut before a byte that continues no character** is a boundary. -/
theorem runes_append_of_not_continuation (text : Text) {tail : Text}
    (h : ∀ c, tail.head? = some c → isContinuation c = false) :
    runes (text ++ tail) = runes text ++ runes tail := by
  induction text using runes_induction with
  | nil => rfl
  | cons b rest ih =>
    have hw := width_runeAt b rest
    rw [List.cons_append, runes_cons, runeAt_append b rest h,
      List.drop_append_of_le_length (by omega), ih, runes_cons, List.cons_append]

/-- **A cut after an ASCII byte** is a boundary. -/
theorem runes_append_of_ascii (text : Text) {c : UInt8} (hc : c < 0x80) (tail : Text) :
    runes (text ++ [c] ++ tail) = runes (text ++ [c]) ++ runes tail := by
  have hhead : ∀ (t : Text) (x : UInt8), (c :: t).head? = some x → isContinuation x = false := by
    intro t x hx
    obtain rfl := Option.some.inj hx
    exact not_isContinuation_of_ascii hc
  -- an ASCII byte is a rune of its own, and no rune goes on into it
  have hone : ∀ t, runes (c :: t) = ⟨c.toNat, 1⟩ :: runes t := by
    intro t
    have hr : runeAt c t = ⟨c.toNat, 1⟩ := by rw [runeAt, if_pos hc]
    rw [runes_cons, hr]
    rfl
  rw [List.append_assoc, List.singleton_append, runes_append_of_not_continuation text (hhead tail),
    runes_append_of_not_continuation text (hhead []), hone, hone, List.append_assoc]
  rfl

/-! ### Boundaries -/

/-- An offset between two characters, or at one of the ends. -/
def IsBoundary (text : Text) (offset : Nat) : Prop :=
  ∃ k, offset = width ((runes text).take k)

/-- **At a boundary a text is decoded piece by piece.** -/
theorem IsBoundary.runes_eq {text : Text} {offset : Nat} (h : IsBoundary text offset) :
    runes text = runes (text.take offset) ++ runes (text.drop offset) := by
  obtain ⟨k, rfl⟩ := h
  induction text using runes_induction generalizing k with
  | nil => simp
  | cons b rest ih =>
    cases k with
    | zero => simp
    | succ k =>
      obtain ⟨w, hwidth⟩ := exists_width_runeAt b rest
      have hih := ih k
      rw [runes_cons, List.take_succ_cons, width_cons, hwidth, Nat.add_sub_cancel]
      rw [hwidth, Nat.add_sub_cancel] at hih
      generalize width ((runes (rest.drop w)).take k) = o at hih ⊢
      -- the first character is the same when only its own bytes and `o` more are kept
      have hfirst : runeAt b (rest.take (w + o)) = runeAt b rest :=
        runeAt_take b rest (by omega)
      have hshift : w + 1 + o = w + o + 1 := by omega
      rw [hshift, List.take_succ_cons, List.drop_succ_cons, runes_cons, hfirst, hwidth,
        Nat.add_sub_cancel, List.drop_take, Nat.add_sub_cancel_left, List.cons_append, hih,
        List.drop_drop]

/-- A boundary of a piece that is decoded on its own is a boundary of the text. -/
theorem IsBoundary.in_piece {front piece rest : Text} {offset : Nat} (h : IsBoundary piece offset)
    (hruns : runes (front ++ (piece ++ rest)) = runes front ++ (runes piece ++ runes rest)) :
    IsBoundary (front ++ (piece ++ rest)) (front.length + offset) := by
  obtain ⟨k, rfl⟩ := h
  refine ⟨(runes front).length + min k (runes piece).length, ?_⟩
  rw [hruns, List.take_length_add_append, List.take_append_of_le_length (Nat.min_le_right _ _),
    width_append, width_runes, ← List.take_eq_take_min]

end ViewLint.Text
