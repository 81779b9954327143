import ViewLint.Proofs.Text.Runes

/-!
# The code points of a text

The code points of a text say less than its bytes, since every malformed byte reads as the replacement
character. Apart from that they say the same: a character that is not malformed was read from its own
encoding (`encode_runeAt`), so a text without replacement characters is known by its code
points (`eq_of_codes_eq`), and a text that starts with a whole character ends another text just in case
its code points do (`suffix_iff_codes_suffix`).
-/

namespace ViewLint.Text

/-- The code points of a text. -/
def codes (text : Text) : List Nat := (runes text).map Rune.code

@[simp] theorem codes_nil : codes [] = [] := rfl

theorem drop_firstRune (b : UInt8) (rest : Text) :
    (b :: rest).drop (firstRune (b :: rest)).width = rest.drop ((runeAt b rest).width - 1) := by
  obtain ⟨w, hwidth⟩ := exists_width_runeAt b rest
  change (b :: rest).drop (runeAt b rest).width = _
  rw [hwidth]
  rfl

/-- What is left of a text behind the first rune of what was left. -/
theorem drop_firstRune_of_drop {whole text : Text} {k : Nat} (h : whole.drop k = text) :
    whole.drop (k + (firstRune text).width) = text.drop (firstRune text).width := by
  rw [← List.drop_drop, h]

/-- The code point of the first character, and the code points of what follows it. -/
theorem codes_of_ne_nil {text : Text} (h : text ≠ []) :
    codes text = (firstRune text).code :: codes (text.drop (firstRune text).width) := by
  obtain ⟨b, rest, rfl⟩ := List.exists_cons_of_ne_nil h
  unfold codes
  rw [drop_firstRune, runes_cons]
  rfl

theorem codes_cons_of_ascii {c : UInt8} (hc : c < 0x80) (rest : Text) :
    codes (c :: rest) = c.toNat :: codes rest := by
  have hfirst : firstRune (c :: rest) = ⟨c.toNat, 1⟩ := by
    change runeAt c rest = _
    rw [runeAt, if_pos hc]
  rw [codes_of_ne_nil (List.cons_ne_nil c rest), hfirst]
  rfl

/-- Induction along the characters of a text, each taken from its front. -/
theorem firstRune_induction {P : Text → Prop} (nil : P [])
    (cons : ∀ text, text ≠ [] → P (text.drop (firstRune text).width) → P text) (text : Text) :
    P text := by
  induction text using runes_induction with
  | nil => exact nil
  | cons b rest ih => exact cons _ (List.cons_ne_nil b rest) (drop_firstRune b rest ▸ ih)

theorem width_firstRune {text : Text} (h : text ≠ []) :
    1 ≤ (firstRune text).width ∧ (firstRune text).width ≤ text.length := by
  obtain ⟨b, rest, rfl⟩ := List.exists_cons_of_ne_nil h
  exact width_runeAt b rest

/-- An ASCII byte stands only in its own character. -/
theorem not_mem_take_firstRune {c : UInt8} (hc : c < 0x80) {text : Text}
    (h : (firstRune text).code ≠ c.toNat) : c ∉ text.take (firstRune text).width := by
  intro hmem
  obtain ⟨front, tail, hsplit⟩ := List.append_of_mem hmem
  -- the byte is not the first, and before it a character would end
  have htext : text = front ++ c :: (tail ++ text.drop (firstRune text).width) := by
    conv_lhs => rw [← List.take_append_drop (firstRune text).width text, hsplit]
    simp
  have hlength : front.length < (firstRune text).width := by
    have := congrArg List.length hsplit
    rw [List.length_take, List.length_append, List.length_cons] at this
    omega
  generalize tail ++ text.drop (firstRune text).width = behind at htext
  subst htext
  cases front with
  | nil =>
    refine h ?_
    change (runeAt c behind).code = c.toNat
    rw [runeAt, if_pos hc]
  | cons b front =>
    have hhead : ∀ x, (c :: behind).head? = some x → isContinuation x = false := by
      intro x hx
      obtain rfl := Option.some.inj hx
      exact not_isContinuation_of_ascii hc
    have hfirst : firstRune (b :: front ++ c :: behind) = runeAt b front := runeAt_append b front hhead
    rw [hfirst, List.length_cons] at hlength
    have hwidth := (width_runeAt b front).2
    omega

/-! ### The bytes of a character -/

theorem isBetween_iff {lo hi b : UInt8} :
    isBetween lo hi b = true ↔ lo.toNat ≤ b.toNat ∧ b.toNat ≤ hi.toNat := by
  unfold isBetween
  rw [Bool.and_eq_true, decide_eq_true_eq, decide_eq_true_eq, UInt8.le_iff_toNat_le,
    UInt8.le_iff_toNat_le]

theorem isContinuation_iff {b : UInt8} :
    isContinuation b = true ↔ 0x80 ≤ b.toNat ∧ b.toNat ≤ 0xBF := isBetween_iff

theorem rune2_eq {b : UInt8} {rest : Text} (h : rune2 b rest ≠ .malformed) :
    ∃ c tail, rest = c :: tail ∧ isContinuation c = true ∧
      rune2 b rest = ⟨b.toNat % 32 * 64 + payload c, 2⟩ := by
  rcases rest with _ | ⟨c, tail⟩
  · exact absurd rfl h
  · unfold rune2 at h ⊢
    dsimp only at h ⊢
    split at h
    · rename_i hc
      exact ⟨c, tail, rfl, hc, if_pos hc⟩
    · exact absurd rfl h

theorem rune3_eq {b lo hi : UInt8} {rest : Text} (h : rune3 b lo hi rest ≠ .malformed) :
    ∃ c d tail, rest = c :: d :: tail ∧ isBetween lo hi c = true ∧ isContinuation d = true ∧
      rune3 b lo hi rest = ⟨b.toNat % 16 * 4096 + payload c * 64 + payload d, 3⟩ := by
  rcases rest with _ | ⟨c, _ | ⟨d, tail⟩⟩
  · exact absurd rfl h
  · exact absurd rfl h
  · unfold rune3 at h ⊢
    dsimp only at h ⊢
    split at h
    · rename_i hcd
      obtain ⟨hc, hd⟩ := Bool.and_eq_true_iff.mp hcd
      exact ⟨c, d, tail, rfl, hc, hd, if_pos hcd⟩
    · exact absurd rfl h

theorem rune4_eq {b lo hi : UInt8} {rest : Text} (h : rune4 b lo hi rest ≠ .malformed) :
    ∃ c d e tail, rest = c :: d :: e :: tail ∧ isBetween lo hi c = true ∧ isContinuation d = true ∧
      isContinuation e = true ∧ rune4 b lo hi rest =
        ⟨b.toNat % 8 * 262144 + payload c * 4096 + payload d * 64 + payload e, 4⟩ := by
  -- four bytes are there, or the rune is malformed
  rcases rest with _ | ⟨c, _ | ⟨d, _ | ⟨e, tail⟩⟩⟩
  · exact absurd rfl h
  · exact absurd rfl h
  · exact absurd rfl h
  · unfold rune4 at h ⊢
    dsimp only at h ⊢
    split at h
    · rename_i hcde
      obtain ⟨hcd, he⟩ := Bool.and_eq_true_iff.mp hcde
      obtain ⟨hc, hd⟩ := Bool.and_eq_true_iff.mp hcd
      exact ⟨c, d, e, tail, rfl, hc, hd, he, if_pos hcde⟩
    · exact absurd rfl h

theorem toUInt8_eq {n : Nat} {b : UInt8} (h : n = b.toNat) : n.toUInt8 = b := by
  subst h
  exact UInt8.ofNat_toNat

theorem encode_one {b : UInt8} (h : b.toNat < 0x80) : encode b.toNat = [b] := by
  have hscalar : ¬ ((0xD800 ≤ b.toNat ∧ b.toNat < 0xE000) ∨ 0x10FFFF < b.toNat) := by omega
  simp only [encode, if_neg hscalar, if_pos h]
  rw [toUInt8_eq rfl]

theorem encode_two {b c : UInt8} (hb : 0xC2 ≤ b.toNat ∧ b.toNat < 0xE0) (hc : isContinuation c = true) :
    encode (b.toNat % 32 * 64 + payload c) = [b, c] := by
  have hc := isContinuation_iff.mp hc
  unfold payload
  generalize hcode : b.toNat % 32 * 64 + c.toNat % 64 = code
  have hscalar : ¬ ((0xD800 ≤ code ∧ code < 0xE000) ∨ 0x10FFFF < code) := by omega
  have h80 : ¬ code < 0x80 := by omega
  have h800 : code < 0x800 := by omega
  simp only [encode, if_neg hscalar, if_neg h80, if_pos h800]
  rw [toUInt8_eq (b := b) (by omega), toUInt8_eq (b := c) (by omega)]

theorem encode_three {b c d : UInt8} (hb : 0xE0 ≤ b.toNat ∧ b.toNat < 0xF0)
    (hc : isContinuation c = true) (hd : isContinuation d = true)
    (hlong : b.toNat = 0xE0 → 0xA0 ≤ c.toNat) (hscalar : b.toNat = 0xED → c.toNat ≤ 0x9F) :
    encode (b.toNat % 16 * 4096 + payload c * 64 + payload d) = [b, c, d] := by
  have hc := isContinuation_iff.mp hc
  have hd := isContinuation_iff.mp hd
  unfold payload
  generalize hcode : b.toNat % 16 * 4096 + c.toNat % 64 * 64 + d.toNat % 64 = code
  -- `code` lies in the range of three bytes and is no surrogate, so `encode` takes that branch
  have hscalar : ¬ ((0xD800 ≤ code ∧ code < 0xE000) ∨ 0x10FFFF < code) := by omega
  have h80 : ¬ code < 0x80 := by omega
  have h800 : ¬ code < 0x800 := by omega
  have h10000 : code < 0x10000 := by omega
  simp only [encode, if_neg hscalar, if_neg h80, if_neg h800, if_pos h10000]
  rw [toUInt8_eq (b := b) (by omega), toUInt8_eq (b := c) (by omega), toUInt8_eq (b := d) (by omega)]

theorem encode_four {b c d e : UInt8} (hb : 0xF0 ≤ b.toNat ∧ b.toNat ≤ 0xF4)
    (hc : isContinuation c = true) (hd : isContinuation d = true) (he : isContinuation e = true)
    (hlong : b.toNat = 0xF0 → 0x90 ≤ c.toNat) (hlast : b.toNat = 0xF4 → c.toNat ≤ 0x8F) :
    encode (b.toNat % 8 * 262144 + payload c * 4096 + payload d * 64 + payload e) = [b, c, d, e] := by
  have hc := isContinuation_iff.mp hc
  have hd := isContinuation_iff.mp hd
  have he := isContinuation_iff.mp he
  unfold payload
  generalize hcode :
    b.toNat % 8 * 262144 + c.toNat % 64 * 4096 + d.toNat % 64 * 64 + e.toNat % 64 = code
  -- `code` lies in the range of four bytes
  have hscalar : ¬ ((0xD800 ≤ code ∧ code < 0xE000) ∨ 0x10FFFF < code) := by omega
  have h80 : ¬ code < 0x80 := by omega
  have h800 : ¬ code < 0x800 := by omega
  have h10000 : ¬ code < 0x10000 := by omega
  simp only [encode, if_neg hscalar, if_neg h80, if_neg h800, if_neg h10000]
  rw [toUInt8_eq (b := b) (by omega), toUInt8_eq (b := c) (by omega), toUInt8_eq (b := d) (by omega),
    toUInt8_eq (b := e) (by omega)]

theorem encode_rune2 {b : UInt8} (hb : 0xC2 ≤ b.toNat ∧ b.toNat < 0xE0) {rest : Text}
    (h : rune2 b rest ≠ .malformed) :
    encode (rune2 b rest).code = (b :: rest).take (rune2 b rest).width := by
  obtain ⟨c, tail, rfl, hc, heq⟩ := rune2_eq h
  rw [heq, encode_two hb hc]
  rfl

theorem encode_rune3 {b lo hi : UInt8} (hb : 0xE0 ≤ b.toNat ∧ b.toNat < 0xF0) (hlo : 0x80 ≤ lo)
    (hhi : hi ≤ 0xBF) (hlong : b.toNat = 0xE0 → 0xA0 ≤ lo.toNat)
    (hscalar : b.toNat = 0xED → hi.toNat ≤ 0x9F) {rest : Text}
    (h : rune3 b lo hi rest ≠ .malformed) :
    encode (rune3 b lo hi rest).code = (b :: rest).take (rune3 b lo hi rest).width := by
  obtain ⟨c, d, tail, rfl, hc, hd, heq⟩ := rune3_eq h
  have hcn := isBetween_iff.mp hc
  rw [heq, encode_three hb (isContinuation_of_isBetween hlo hhi hc) hd
    (fun hE0 => Nat.le_trans (hlong hE0) hcn.1) fun hED => Nat.le_trans hcn.2 (hscalar hED)]
  rfl

theorem encode_rune4 {b lo hi : UInt8} (hb : 0xF0 ≤ b.toNat ∧ b.toNat ≤ 0xF4) (hlo : 0x80 ≤ lo)
    (hhi : hi ≤ 0xBF) (hlong : b.toNat = 0xF0 → 0x90 ≤ lo.toNat)
    (hlast : b.toNat = 0xF4 → hi.toNat ≤ 0x8F) {rest : Text}
    (h : rune4 b lo hi rest ≠ .malformed) :
    encode (rune4 b lo hi rest).code = (b :: rest).take (rune4 b lo hi rest).width := by
  obtain ⟨c, d, e, tail, rfl, hc, hd, he, heq⟩ := rune4_eq h
  have hcn := isBetween_iff.mp hc
  rw [heq, encode_four hb (isContinuation_of_isBetween hlo hhi hc) hd he
    (fun hF0 => Nat.le_trans (hlong hF0) hcn.1) fun hF4 => Nat.le_trans hcn.2 (hlast hF4)]
  rfl

/-- **A character that is not malformed was read from its encoding.** -/
theorem encode_runeAt {b : UInt8} {rest : Text} (h : runeAt b rest ≠ .malformed) :
    encode (runeAt b rest).code = (b :: rest).take (runeAt b rest).width := by
  have hlt : ∀ c : UInt8, b < c ↔ b.toNat < c.toNat := fun c => UInt8.lt_iff_toNat_lt
  have heq : ∀ c : UInt8, b = c ↔ b.toNat = c.toNat := fun c => UInt8.toNat_inj.symm
  unfold runeAt at h ⊢
  simp only [hlt, heq, UInt8.reduceToNat] at h ⊢
  -- the leads in the order in which they are looked at
  by_cases h1 : b.toNat < 128
  · rw [if_pos h1]
    exact encode_one h1
  rw [if_neg h1] at h ⊢
  by_cases h2 : b.toNat < 194
  · rw [if_pos h2] at h
    exact absurd rfl h
  rw [if_neg h2] at h ⊢
  by_cases h3 : b.toNat < 224
  · rw [if_pos h3] at h ⊢
    exact encode_rune2 (by omega) h
  rw [if_neg h3] at h ⊢
  by_cases h4 : b.toNat = 224
  · rw [if_pos h4] at h ⊢
    exact encode_rune3 (by omega) (by decide) (by decide) (fun _ => by decide) (by omega) h
  rw [if_neg h4] at h ⊢
  by_cases h5 : b.toNat = 237
  · rw [if_pos h5] at h ⊢
    exact encode_rune3 (by omega) (by decide) (by decide) (by omega) (fun _ => by decide) h
  rw [if_neg h5] at h ⊢
  by_cases h6 : b.toNat < 240
  · rw [if_pos h6] at h ⊢
    exact encode_rune3 (by omega) (by decide) (by decide) (by omega) (by omega) h
  rw [if_neg h6] at h ⊢
  by_cases h7 : b.toNat = 240
  · rw [if_pos h7] at h ⊢
    exact encode_rune4 (by omega) (by decide) (by decide) (fun _ => by decide) (by omega) h
  rw [if_neg h7] at h ⊢
  by_cases h8 : b.toNat < 244
  · rw [if_pos h8] at h ⊢
    exact encode_rune4 (by omega) (by decide) (by decide) (by omega) (by omega) h
  rw [if_neg h8] at h ⊢
  by_cases h9 : b.toNat = 244
  · rw [if_pos h9] at h ⊢
    exact encode_rune4 (by omega) (by decide) (by decide) (by omega) (fun _ => by decide) h
  · rw [if_neg h9] at h
    exact absurd rfl h

/-- An ASCII code point was read from its byte. -/
theorem firstRune_ascii {c : UInt8} (hc : c < 0x80) {text : Text}
    (h : (firstRune text).code = c.toNat) :
    ∃ rest, text = c :: rest ∧ (firstRune text).width = 1 := by
  have hlt : c.toNat < 0x80 := hc
  cases text with
  | nil =>
    change replacement = c.toNat at h
    rw [← h] at hlt
    exact absurd hlt (by decide)
  | cons b rest =>
    change (runeAt b rest).code = c.toNat at h
    -- a malformed rune reads as `replacement`, which is not ASCII
    have hwhole : runeAt b rest ≠ .malformed := by
      intro hmalformed
      rw [hmalformed] at h
      rw [← h] at hlt
      exact absurd hlt (by decide)
    -- the rune is encoded in the bytes it was read from, so its first byte is `c`
    have hencode := encode_runeAt hwhole
    obtain ⟨w, hwidth⟩ := exists_width_runeAt b rest
    rw [h, encode_one hlt, hwidth] at hencode
    obtain ⟨rfl, htake⟩ := List.cons.inj hencode
    refine ⟨rest, rfl, ?_⟩
    change (runeAt c rest).width = 1
    rw [runeAt, if_pos hc]

theorem mem_of_mem_codes {c : UInt8} (hc : c < 0x80) {text : Text} (h : c.toNat ∈ codes text) :
    c ∈ text := by
  induction text using firstRune_induction with
  | nil => exact absurd h List.not_mem_nil
  | cons text hne ih =>
    rw [codes_of_ne_nil hne] at h
    rcases List.mem_cons.mp h with h | h
    · obtain ⟨rest, rfl, -⟩ := firstRune_ascii hc h.symm
      exact List.mem_cons_self
    · exact List.mem_of_mem_drop (ih h)

/-- A text without replacement characters is the encoding of its code points. -/
theorem flatMap_encode_codes {text : Text} (h : replacement ∉ codes text) :
    (codes text).flatMap encode = text := by
  induction text using firstRune_induction with
  | nil => rfl
  | cons text hne ih =>
    rw [codes_of_ne_nil hne, List.mem_cons, not_or] at h
    have hfirst : encode (firstRune text).code = text.take (firstRune text).width := by
      obtain ⟨b, rest, rfl⟩ := List.exists_cons_of_ne_nil hne
      exact encode_runeAt fun hmalformed => h.1 (congrArg Rune.code hmalformed).symm
    rw [codes_of_ne_nil hne, List.flatMap_cons, ih h.2, hfirst, List.take_append_drop]

/-- **A text without replacement characters is known by its code points.** -/
theorem eq_of_codes_eq {s t : Text} (hs : replacement ∉ codes s) (h : codes s = codes t) : s = t := by
  rw [← flatMap_encode_codes hs, h, flatMap_encode_codes (h ▸ hs)]

/-! ### Ends of a text -/

/-- A cut between two code points is a cut between two characters. -/
theorem exists_append_of_codes_eq {text : Text} {cs ds : List Nat} (h : codes text = cs ++ ds) :
    ∃ front tail, text = front ++ tail ∧ codes tail = ds ∧
      ∀ c : UInt8, c < 0x80 → c.toNat ∉ cs → c ∉ front := by
  induction cs generalizing text with
  | nil => exact ⟨[], text, rfl, h, fun _ _ _ => List.not_mem_nil⟩
  | cons d cs ih =>
    have hne : text ≠ [] := by
      rintro rfl
      exact absurd h.symm (List.cons_ne_nil _ _)
    rw [codes_of_ne_nil hne, List.cons_append] at h
    obtain ⟨rfl, hrest⟩ := List.cons.inj h
    obtain ⟨front, tail, heq, htail, hfront⟩ := ih hrest
    -- the first rune goes to the front, which has `c` only if that rune has
    refine ⟨text.take (firstRune text).width ++ front, tail, ?_, htail, fun c hc hmem => ?_⟩
    · rw [List.append_assoc, ← heq, List.take_append_drop]
    · rw [List.mem_cons, not_or] at hmem
      rw [List.mem_append, not_or]
      exact ⟨not_mem_take_firstRune hc (Ne.symm hmem.1), hfront c hc hmem.2⟩

theorem codes_append (front : Text) {tail : Text}
    (hhead : ∀ c, tail.head? = some c → isContinuation c = false) :
    codes (front ++ tail) = codes front ++ codes tail := by
  unfold codes
  rw [runes_append_of_not_continuation front hhead, List.map_append]

/-- **A text of whole characters, none of them the replacement character, ends another text just in
case its code points do.** -/
theorem suffix_iff_codes_suffix {s : Text} (hhead : ∀ c, s.head? = some c → isContinuation c = false)
    (hs : replacement ∉ codes s) (t : Text) : s <:+ t ↔ codes s <:+ codes t := by
  constructor
  · rintro ⟨front, rfl⟩
    rw [codes_append front hhead]
    exact List.suffix_append _ _
  · rintro ⟨before, h⟩
    obtain ⟨front, tail, rfl, htail, -⟩ := exists_append_of_codes_eq h.symm
    rw [eq_of_codes_eq hs htail.symm]
    exact List.suffix_append _ _

end ViewLint.Text
