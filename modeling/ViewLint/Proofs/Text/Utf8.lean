import ViewLint.Proofs.Text.Codes

/-!
# Valid UTF-8

A text is valid if no byte of it is malformed. `isUtf8_iff` says that this is what the word means
elsewhere: the valid texts are the UTF-8 bytes of strings of Unicode characters. So valid texts can
be put together (`isUtf8_append`), and a valid text can be taken apart at its boundaries
(`IsBoundary.isUtf8`).

A character is read where its bytes stand, whatever follows them (`runes_utf8EncodeChar`), and what
is read as a character that is not malformed are the bytes of a character
(`exists_utf8EncodeChar`).
-/

namespace ViewLint.Text

open String (utf8EncodeChar)

/-! ### Reading a written character -/

theorem runeAt_one {b : UInt8} (hb : b.toNat < 0x80) (rest : Text) :
    runeAt b rest = ⟨b.toNat, 1⟩ := by
  rw [runeAt, if_pos (UInt8.lt_iff_toNat_lt.mpr hb)]

theorem runeAt_two {b c : UInt8} (hb : 0xC2 ≤ b.toNat ∧ b.toNat < 0xE0)
    (hc : isContinuation c = true) (rest : Text) :
    runeAt b (c :: rest) = ⟨b.toNat % 32 * 64 + payload c, 2⟩ := by
  have hlt : ∀ d : UInt8, b < d ↔ b.toNat < d.toNat := fun d => UInt8.lt_iff_toNat_lt
  unfold runeAt
  simp only [hlt, UInt8.reduceToNat]
  rw [if_neg (by omega), if_neg (by omega), if_pos (by omega), rune2, if_pos hc]

/-- Two bytes behind the lead byte; the first of them neither gives an overlong form nor a
surrogate. -/
theorem runeAt_three {b c d : UInt8} (hb : 0xE0 ≤ b.toNat ∧ b.toNat < 0xF0)
    (hc : isContinuation c = true) (hd : isContinuation d = true)
    (hlong : b.toNat = 0xE0 → 0xA0 ≤ c.toNat) (hscalar : b.toNat = 0xED → c.toNat ≤ 0x9F)
    (rest : Text) :
    runeAt b (c :: d :: rest) = ⟨b.toNat % 16 * 4096 + payload c * 64 + payload d, 3⟩ := by
  have hlt : ∀ d : UInt8, b < d ↔ b.toNat < d.toNat := fun d => UInt8.lt_iff_toNat_lt
  have heq : ∀ d : UInt8, b = d ↔ b.toNat = d.toNat := fun d => UInt8.toNat_inj.symm
  have hcn := isContinuation_iff.mp hc
  -- any bounds that hold the second byte lead to the same rune
  have hread : ∀ lo hi : UInt8, lo.toNat ≤ c.toNat → c.toNat ≤ hi.toNat →
      rune3 b lo hi (c :: d :: rest) =
        ⟨b.toNat % 16 * 4096 + payload c * 64 + payload d, 3⟩ := by
    intro lo hi hlo hhi
    rw [rune3, if_pos (Bool.and_eq_true_iff.mpr ⟨isBetween_iff.mpr ⟨hlo, hhi⟩, hd⟩)]
  unfold runeAt
  simp only [hlt, heq, UInt8.reduceToNat]
  rw [if_neg (by omega), if_neg (by omega), if_neg (by omega)]
  -- two leads narrow the bounds of the second byte: one against overlong runes, one against
  -- surrogates
  by_cases hE0 : b.toNat = 0xE0
  · rw [if_pos hE0]
    exact hread _ _ (hlong hE0) hcn.2
  by_cases hED : b.toNat = 0xED
  · rw [if_neg hE0, if_pos hED]
    exact hread _ _ hcn.1 (hscalar hED)
  · rw [if_neg hE0, if_neg hED, if_pos hb.2]
    exact hread _ _ hcn.1 hcn.2

/-- Three bytes behind the lead byte; the first of them neither gives an overlong form nor a code
point above U+10FFFF. -/
theorem runeAt_four {b c d e : UInt8} (hb : 0xF0 ≤ b.toNat ∧ b.toNat ≤ 0xF4)
    (hc : isContinuation c = true) (hd : isContinuation d = true) (he : isContinuation e = true)
    (hlong : b.toNat = 0xF0 → 0x90 ≤ c.toNat) (hlast : b.toNat = 0xF4 → c.toNat ≤ 0x8F)
    (rest : Text) :
    runeAt b (c :: d :: e :: rest) =
      ⟨b.toNat % 8 * 262144 + payload c * 4096 + payload d * 64 + payload e, 4⟩ := by
  have hlt : ∀ d : UInt8, b < d ↔ b.toNat < d.toNat := fun d => UInt8.lt_iff_toNat_lt
  have heq : ∀ d : UInt8, b = d ↔ b.toNat = d.toNat := fun d => UInt8.toNat_inj.symm
  have hcn := isContinuation_iff.mp hc
  -- any bounds that hold the second byte lead to the same rune
  have hread : ∀ lo hi : UInt8, lo.toNat ≤ c.toNat → c.toNat ≤ hi.toNat →
      rune4 b lo hi (c :: d :: e :: rest) =
        ⟨b.toNat % 8 * 262144 + payload c * 4096 + payload d * 64 + payload e, 4⟩ := by
    intro lo hi hlo hhi
    have hbetween : (isBetween lo hi c && isContinuation d && isContinuation e) = true := by
      rw [isBetween_iff.mpr ⟨hlo, hhi⟩, hd, he]
      rfl
    rw [rune4, if_pos hbetween]
  unfold runeAt
  simp only [hlt, heq, UInt8.reduceToNat]
  rw [if_neg (by omega), if_neg (by omega), if_neg (by omega), if_neg (by omega),
    if_neg (by omega), if_neg (by omega)]
  -- one lead narrows the bounds against overlong runes, one against what is past the last code
  by_cases hF0 : b.toNat = 0xF0
  · rw [if_pos hF0]
    exact hread _ _ (hlong hF0) hcn.2
  by_cases hF4 : b.toNat = 0xF4
  · rw [if_neg hF0, if_neg (by omega), if_pos hF4]
    exact hread _ _ hcn.1 (hlast hF4)
  · rw [if_neg hF0, if_pos (by omega)]
    exact hread _ _ hcn.1 hcn.2

/-- **A character is read where it is written**, whatever follows it. -/
theorem exists_runeAt_utf8EncodeChar (c : Char) : ∃ b tail, utf8EncodeChar c = b :: tail ∧
    ∀ rest, runeAt b (tail ++ rest) = ⟨c.val.toNat, tail.length + 1⟩ := by
  have hscalar : c.val.toNat < 0xD800 ∨ (0xDFFF < c.val.toNat ∧ c.val.toNat < 0x110000) := c.valid
  unfold utf8EncodeChar
  generalize c.val.toNat = code at hscalar ⊢
  dsimp only
  -- the widths in the order in which they are written
  by_cases h1 : code ≤ 0x7F
  · have hb : (UInt8.ofNat code).toNat = code := by rw [UInt8.toNat_ofNat']; omega
    rw [if_pos h1]
    refine ⟨_, _, rfl, fun rest => ?_⟩
    rw [runeAt_one (by omega), hb]
    rfl
  rw [if_neg h1]
  have hcontinuation : ∀ n : Nat, (UInt8.ofNat (n % 64 + 128)).toNat = n % 64 + 128 := by
    intro n
    rw [UInt8.toNat_ofNat']
    omega
  have hcont : ∀ n : Nat, isContinuation (UInt8.ofNat (n % 64 + 128)) = true := by
    intro n
    rw [isContinuation_iff, hcontinuation]
    omega
  by_cases h2 : code ≤ 0x7FF
  · have hb : (UInt8.ofNat (code / 64 % 32 + 192)).toNat = code / 64 % 32 + 192 := by
      rw [UInt8.toNat_ofNat']
      omega
    rw [if_pos h2]
    refine ⟨_, _, rfl, fun rest => ?_⟩
    rw [List.singleton_append, runeAt_two (by omega) (hcont code), payload, hb, hcontinuation]
    congr 1
    omega
  rw [if_neg h2]
  by_cases h3 : code ≤ 0xFFFF
  · have hb : (UInt8.ofNat (code / 4096 % 16 + 224)).toNat = code / 4096 % 16 + 224 := by
      rw [UInt8.toNat_ofNat']
      omega
    rw [if_pos h3]
    refine ⟨_, _, rfl, fun rest => ?_⟩
    rw [List.cons_append, List.singleton_append,
      runeAt_three (by omega) (hcont _) (hcont code) (by rw [hcontinuation]; omega)
        (by rw [hcontinuation]; omega),
      payload, payload, hb, hcontinuation, hcontinuation]
    congr 1
    omega
  · have hb : (UInt8.ofNat (code / 262144 % 8 + 240)).toNat = code / 262144 % 8 + 240 := by
      rw [UInt8.toNat_ofNat']
      omega
    rw [if_neg h3]
    refine ⟨_, _, rfl, fun rest => ?_⟩
    rw [List.cons_append, List.cons_append, List.singleton_append,
      runeAt_four (by omega) (hcont _) (hcont _) (hcont code) (by rw [hcontinuation]; omega)
        (by rw [hcontinuation]; omega),
      payload, payload, payload, hb, hcontinuation, hcontinuation, hcontinuation]
    congr 1
    omega

theorem runes_utf8EncodeChar (c : Char) (rest : Text) :
    runes (utf8EncodeChar c ++ rest) =
      ⟨c.val.toNat, (utf8EncodeChar c).length⟩ :: runes rest := by
  obtain ⟨b, tail, hbytes, hread⟩ := exists_runeAt_utf8EncodeChar c
  rw [hbytes, List.cons_append, runes_cons, hread, List.length_cons, Nat.add_sub_cancel,
    List.drop_left]

/-! ### Writing what was read -/

/-- A code point that is a character is written as this character. -/
theorem encode_toNat (c : Char) : encode c.val.toNat = utf8EncodeChar c := by
  have hscalar : c.val.toNat < 0xD800 ∨ (0xDFFF < c.val.toNat ∧ c.val.toNat < 0x110000) := c.valid
  have hmod : ∀ {m n : Nat}, m % 256 = n % 256 → m.toUInt8 = UInt8.ofNat n := by
    intro m n h
    apply UInt8.toNat_inj.mp
    rw [UInt8.toNat_ofNat', UInt8.toNat_ofNat']
    exact h
  unfold encode utf8EncodeChar
  generalize c.val.toNat = code at hscalar ⊢
  dsimp only
  rw [if_neg (by omega : ¬ ((0xD800 ≤ code ∧ code < 0xE000) ∨ 0x10FFFF < code))]
  -- the widths in the order in which they are written
  by_cases h1 : code ≤ 0x7F
  · rw [if_pos h1, if_pos (by omega)]
  rw [if_neg h1, if_neg (by omega)]
  by_cases h2 : code ≤ 0x7FF
  · rw [if_pos h2, if_pos (by omega), hmod (n := code / 64 % 32 + 192) (by omega),
      hmod (n := code % 64 + 128) (by omega)]
  rw [if_neg h2, if_neg (by omega)]
  by_cases h3 : code ≤ 0xFFFF
  · rw [if_pos h3, if_pos (by omega), hmod (n := code / 4096 % 16 + 224) (by omega),
      hmod (n := code / 64 % 64 + 128) (by omega), hmod (n := code % 64 + 128) (by omega)]
  · rw [if_neg h3, if_neg (by omega), hmod (n := code / 262144 % 8 + 240) (by omega),
      hmod (n := code / 4096 % 64 + 128) (by omega), hmod (n := code / 64 % 64 + 128) (by omega),
      hmod (n := code % 64 + 128) (by omega)]

/-- Every code point is written as a character; one that is none, as the replacement character. -/
theorem exists_char_encode (code : Nat) : ∃ c : Char, encode code = utf8EncodeChar c := by
  have hchar : ∀ {n : Nat}, n.isValidChar → (Char.ofNat n).val.toNat = n := by
    intro n hn
    unfold Char.ofNat
    rw [dif_pos hn]
    rfl
  -- a valid code is encoded as its character, any other as the replacement
  by_cases hvalid : code.isValidChar
  · refine ⟨Char.ofNat code, ?_⟩
    rw [← encode_toNat, hchar hvalid]
  · refine ⟨Char.ofNat replacement, ?_⟩
    rw [← encode_toNat, hchar (by decide)]
    unfold Nat.isValidChar at hvalid
    unfold encode
    dsimp only
    rw [if_pos (by omega : (0xD800 ≤ code ∧ code < 0xE000) ∨ 0x10FFFF < code)]
    rfl

/-- **What is read as a character that is not malformed** are the bytes of a character. -/
theorem exists_utf8EncodeChar {b : UInt8} {rest : Text} (h : runeAt b rest ≠ .malformed) :
    ∃ c : Char, (b :: rest).take (runeAt b rest).width = utf8EncodeChar c := by
  rw [← encode_runeAt h]
  exact exists_char_encode _

/-! ### Valid texts -/

theorem isMalformed_iff {r : Rune} : r.isMalformed = true ↔ r = .malformed := by
  obtain ⟨code, width⟩ := r
  unfold Rune.isMalformed Rune.malformed
  rw [Bool.and_eq_true, beq_iff_eq, beq_iff_eq, Rune.mk.injEq]

/-- A text is valid if none of its characters is malformed. -/
theorem isUtf8_iff_malformed {text : Text} : isUtf8 text = true ↔ .malformed ∉ runes text := by
  unfold isUtf8
  rw [Bool.not_eq_true', List.any_eq_false]
  refine ⟨fun h hmem => h _ hmem (isMalformed_iff.mpr rfl), fun h r hr hm => h ?_⟩
  exact isMalformed_iff.mp hm ▸ hr

/-- The replacement character that is written out takes three bytes, so it is not malformed. -/
theorem ne_malformed_utf8EncodeChar (c : Char) :
    (⟨c.val.toNat, (utf8EncodeChar c).length⟩ : Rune) ≠ .malformed := by
  intro h
  obtain ⟨hcode, hlength⟩ := Rune.mk.injEq .. ▸ h
  rw [String.length_utf8EncodeChar, Char.utf8Size_eq_one_iff, UInt32.le_iff_toNat_le, hcode] at hlength
  exact absurd hlength (by decide)

/-- **The valid texts** are the UTF-8 bytes of strings. -/
theorem isUtf8_iff {text : Text} : isUtf8 text = true ↔ ∃ s : String, ofString s = text := by
  constructor
  · intro h
    rw [isUtf8_iff_malformed] at h
    suffices ∃ cs : List Char, cs.flatMap utf8EncodeChar = text by
      obtain ⟨cs, hcs⟩ := this
      exact ⟨String.ofList cs, by rw [ofString, String.toList_ofList, hcs]⟩
    induction text using runes_induction with
    | nil => exact ⟨[], rfl⟩
    | cons b rest ih =>
      -- the first character was read from the bytes of a character, and the string starts with it
      rw [runes_cons, List.mem_cons, not_or] at h
      obtain ⟨c, hc⟩ := exists_utf8EncodeChar (Ne.symm h.1)
      obtain ⟨cs, hcs⟩ := ih h.2
      refine ⟨c :: cs, ?_⟩
      rw [List.flatMap_cons, hcs, ← hc, ← drop_firstRune]
      exact List.take_append_drop _ _
  · rintro ⟨s, rfl⟩
    rw [isUtf8_iff_malformed, ofString]
    induction s.toList with
    | nil => exact List.not_mem_nil
    | cons c cs ih =>
      rw [List.flatMap_cons, runes_utf8EncodeChar, List.mem_cons, not_or]
      exact ⟨(ne_malformed_utf8EncodeChar c).symm, ih⟩

/-- Valid texts in a row are a valid text. -/
theorem isUtf8_append {s t : Text} (hs : isUtf8 s = true) (ht : isUtf8 t = true) :
    isUtf8 (s ++ t) = true := by
  obtain ⟨s, rfl⟩ := isUtf8_iff.mp hs
  obtain ⟨t, rfl⟩ := isUtf8_iff.mp ht
  refine isUtf8_iff.mpr ⟨s ++ t, ?_⟩
  rw [ofString, String.toList_append, List.flatMap_append]
  rfl

/-- **A valid text that is cut at a boundary** gives two valid texts. -/
theorem IsBoundary.isUtf8 {text : Text} {offset : Nat} (h : IsBoundary text offset)
    (htext : isUtf8 text = true) :
    Text.isUtf8 (text.take offset) = true ∧ Text.isUtf8 (text.drop offset) = true := by
  rw [isUtf8_iff_malformed, h.runes_eq, List.mem_append, not_or] at htext
  exact ⟨isUtf8_iff_malformed.mpr htext.1, isUtf8_iff_malformed.mpr htext.2⟩

end ViewLint.Text
