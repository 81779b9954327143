import Mathlib.Data.List.Pairwise
import ViewLint.Proofs.Text.Runes
import ViewLint.Text.Occurrence

/-!
# Searching byte by byte

`occurrences` searches a text character by character. The patterns of the library start with a fixed
ASCII byte (`Pattern.Anchored`), and such a byte is never in the middle of a character, so that the
search may as well go byte by byte: behind a byte at which nothing matches the search goes on at the
next byte (`Anchored.searchFrom_cons`), behind a match it goes on at the end of the match
(`Anchored.searchFrom_of_some`). Proofs about searches use these two equations only.

If a pattern decides a form, that is a set of texts, then the search finds what `Scan` describes:
the matches of the form from left to right, none of which overlaps another. `Scan` leaves no choice
where at most one match starts at an offset (`Scan.unique`), and it hides no match but those that
start inside another one (`Scan.mem_or_inside`).
-/

namespace ViewLint.Text

/-! ### Patterns that start with a fixed byte -/

/-- Every match of the pattern starts with the ASCII byte `head`. -/
structure Pattern.Anchored (p : Pattern) (head : UInt8) : Prop where
  ascii : head < 0x80
  starts : ∀ {text n}, p text = some n → text.head? = some head ∧ 0 < n ∧ n ≤ text.length

/-- The occurrences in a text that starts at `offset`. -/
def searchFrom (p : Pattern) (offset : Nat) (text : Text) : List Occurrence :=
  occurrencesFrom p none offset 0 text

/-- The bytes of a character behind its first one are continuation bytes. -/
theorem isContinuation_of_lt_width {b : UInt8} {rest : Text} {i : Nat}
    (h : i + 1 < (runeAt b rest).width) : ∃ c, rest[i]? = some c ∧ isContinuation c = true := by
  -- a rune of one byte has none behind its lead, and one of more has them checked
  cases lead b with
  | one hb => simp [hb] at h
  | malformed hb => simp [hb, Rune.malformed] at h
  | two hb =>
    rw [hb] at h
    unfold rune2 at h
    split at h
    · next c rest =>
      split at h
      · next hc =>
        -- the bytes after the lead are there, or the rune would be malformed and one wide
        obtain rfl : i = 0 := by simp only at h; omega
        exact ⟨c, rfl, hc⟩
      · simp [Rune.malformed] at h
    · simp [Rune.malformed] at h
  | three lo hi hlo hhi hb =>
    rw [hb] at h
    unfold rune3 at h
    split at h
    · next c d rest =>
      split at h
      · next hc =>
        rw [Bool.and_eq_true] at hc
        obtain rfl | rfl : i = 0 ∨ i = 1 := by simp only at h; omega
        · exact ⟨c, rfl, isContinuation_of_isBetween hlo hhi hc.1⟩
        · exact ⟨d, rfl, hc.2⟩
      · simp [Rune.malformed] at h
    · simp [Rune.malformed] at h
  | four lo hi hlo hhi hb =>
    rw [hb] at h
    unfold rune4 at h
    split at h
    · next c d e rest =>
      split at h
      · next hc =>
        rw [Bool.and_eq_true, Bool.and_eq_true] at hc
        obtain rfl | rfl | rfl : i = 0 ∨ i = 1 ∨ i = 2 := by simp only at h; omega
        · exact ⟨c, rfl, isContinuation_of_isBetween hlo hhi hc.1.1⟩
        · exact ⟨d, rfl, hc.1.2⟩
        · exact ⟨e, rfl, hc.2⟩
      · simp [Rune.malformed] at h
    · simp [Rune.malformed] at h

/-- A continuation byte is read alone. -/
theorem width_runeAt_of_isContinuation {c : UInt8} (h : isContinuation c = true) (rest : Text) :
    (runeAt c rest).width = 1 := by
  unfold isContinuation isBetween at h
  rw [Bool.and_eq_true, decide_eq_true_eq, decide_eq_true_eq] at h
  have hlo : ¬ c < 0x80 := UInt8.not_lt.mpr h.1
  have hhi : c < 0xC2 := UInt8.lt_of_le_of_lt h.2 (by decide)
  rw [runeAt, if_neg hlo, if_pos hhi]
  rfl

theorem occurrencesFrom_skip (p : Pattern) {skip : Nat} {text : Text} (hskip : skip ≤ text.length)
    (offset : Nat) :
    occurrencesFrom p none offset skip text = searchFrom p (offset + skip) (text.drop skip) := by
  -- induction on the text, a byte skipped at a time
  induction text generalizing offset skip with
  | nil =>
    obtain rfl : skip = 0 := Nat.le_zero.mp hskip
    rfl
  | cons b rest ih =>
    cases skip with
    | zero => rfl
    | succ skip =>
      rw [occurrencesFrom, ih (Nat.le_of_succ_le_succ hskip), List.drop_succ_cons]
      congr 1
      omega

namespace Pattern.Anchored

variable {p : Pattern} {head : UInt8} (hp : p.Anchored head)

include hp

theorem nil : p [] = none := by
  cases h : p [] with
  | none => rfl
  | some n =>
    have hhead := (hp.starts h).1
    cases hhead

theorem cons_of_ne {b : UInt8} (hb : b ≠ head) (rest : Text) : p (b :: rest) = none := by
  cases h : p (b :: rest) with
  | none => rfl
  | some n =>
    have hhead := (hp.starts h).1
    exact absurd (Option.some.inj hhead) hb

theorem cons_of_isContinuation {c : UInt8} (hc : isContinuation c = true) (rest : Text) :
    p (c :: rest) = none := by
  refine hp.cons_of_ne ?_ rest
  rintro rfl
  rw [not_isContinuation_of_ascii hp.ascii] at hc
  cases hc

/-- A match is never empty, so that the end of the previous one does not matter. -/
theorem occurrencesFrom_last (last : Option Nat) (offset skip : Nat) (text : Text) :
    occurrencesFrom p last offset skip text = occurrencesFrom p none offset skip text := by
  -- a match is never empty, so the end of the last one is never asked for
  induction text generalizing offset skip with
  | nil => simp [occurrencesFrom, hp.nil]
  | cons b rest ih =>
    cases skip with
    | succ skip => exact ih (offset + 1) skip
    | zero =>
      rw [occurrencesFrom, occurrencesFrom]
      cases h : p (b :: rest) with
      | none => exact ih (offset + 1) _
      | some n =>
        cases n with
        | zero => exact absurd (hp.starts h).2.1 (Nat.lt_irrefl 0)
        | succ n => rfl

/-- The search passes over continuation bytes, whether it is told to or not. -/
theorem occurrencesFrom_continuation {skip : Nat} {text : Text} (offset : Nat)
    (h : ∀ i < skip, ∃ c, text[i]? = some c ∧ isContinuation c = true) :
    occurrencesFrom p none offset skip text = searchFrom p offset text := by
  induction skip generalizing offset text with
  | zero => rfl
  | succ skip ih =>
    obtain ⟨c, hget, hc⟩ := h 0 (Nat.zero_lt_succ skip)
    cases text with
    | nil => cases hget
    | cons b rest =>
      -- nothing matches at a continuation byte, and it is a character of its own
      obtain rfl := Option.some.inj hget
      have hrest : occurrencesFrom p none (offset + 1) skip rest =
          searchFrom p (offset + 1) rest :=
        ih (offset + 1) fun i hi => h (i + 1) (Nat.succ_lt_succ hi)
      unfold searchFrom
      rw [occurrencesFrom, hrest, occurrencesFrom, hp.cons_of_isContinuation hc]
      dsimp only
      rw [width_runeAt_of_isContinuation hc]
      rfl

theorem searchFrom_nil (offset : Nat) : searchFrom p offset [] = [] := by
  simp [searchFrom, occurrencesFrom, hp.nil]

/-- **Where nothing matches the search goes on at the next byte.** -/
theorem searchFrom_cons {b : UInt8} {rest : Text} (h : p (b :: rest) = none) (offset : Nat) :
    searchFrom p offset (b :: rest) = searchFrom p (offset + 1) rest := by
  conv_lhs => unfold searchFrom
  rw [occurrencesFrom, h]
  exact hp.occurrencesFrom_continuation (offset + 1) fun i hi =>
    isContinuation_of_lt_width (b := b) (by omega)

/-- **Behind a match the search goes on at its end.** -/
theorem searchFrom_of_some {text : Text} {n : Nat} (h : p text = some n) (offset : Nat) :
    searchFrom p offset text =
      ⟨offset, offset + n⟩ :: searchFrom p (offset + n) (text.drop n) := by
  obtain ⟨hhead, hpos, hle⟩ := hp.starts h
  cases text with
  | nil => cases hhead
  | cons b rest =>
    obtain ⟨n, rfl⟩ : ∃ m, n = m + 1 := ⟨n - 1, by omega⟩
    conv_lhs => unfold searchFrom
    rw [occurrencesFrom, h]
    dsimp only
    rw [hp.occurrencesFrom_last, occurrencesFrom_skip p (Nat.le_of_succ_le_succ hle),
      List.drop_succ_cons, Nat.add_assoc offset n 1, Nat.add_assoc offset 1 n, Nat.add_comm 1 n]

/-- Bytes at which no match can start are passed over. -/
theorem searchFrom_append {front : Text} (h : head ∉ front) (offset : Nat) (rest : Text) :
    searchFrom p offset (front ++ rest) = searchFrom p (offset + front.length) rest := by
  induction front generalizing offset with
  | nil => rfl
  | cons b front ih =>
    rw [List.mem_cons, not_or] at h
    rw [List.cons_append, hp.searchFrom_cons (hp.cons_of_ne (Ne.symm h.1) _), ih h.2,
      List.length_cons]
    congr 1
    omega

/-- **What a search finds lies in the text, is in order and does not overlap.** -/
theorem bounds_searchFrom (offset : Nat) (text : Text) :
    (∀ o ∈ searchFrom p offset text,
        offset ≤ o.start ∧ o.start < o.stop ∧ o.stop ≤ offset + text.length) ∧
      (searchFrom p offset text).Pairwise fun o o' => o.stop ≤ o'.start := by
  -- a match takes several bytes at once, so the induction is on the length of what is left
  generalize hlen : text.length = len
  induction len using Nat.strongRecOn generalizing offset text with
  | ind len ih =>
    cases hfound : p text with
    | some n =>
      obtain ⟨-, hpos, hle⟩ := hp.starts hfound
      have hrest : (text.drop n).length = len - n := by rw [List.length_drop, hlen]
      obtain ⟨hbounds, hpairs⟩ := ih (len - n) (by omega) (offset + n) (text.drop n) hrest
      rw [hp.searchFrom_of_some hfound]
      refine ⟨fun o ho => ?_, List.Pairwise.cons (fun o ho => (hbounds o ho).1) hpairs⟩
      rcases List.mem_cons.mp ho with rfl | ho
      · dsimp only
        omega
      · have hb := hbounds o ho
        omega
    | none =>
      cases text with
      | nil =>
        rw [hp.searchFrom_nil]
        exact ⟨fun o ho => absurd ho List.not_mem_nil, List.Pairwise.nil⟩
      | cons b rest =>
        rw [List.length_cons] at hlen
        obtain ⟨hbounds, hpairs⟩ := ih rest.length (by omega) (offset + 1) rest rfl
        rw [hp.searchFrom_cons hfound]
        refine ⟨fun o ho => ?_, hpairs⟩
        have hb := hbounds o ho
        omega

/-- The pattern matches where the search has found something. -/
theorem some_of_mem_searchFrom {offset : Nat} {text : Text} {o : Occurrence}
    (ho : o ∈ searchFrom p offset text) :
    p (text.drop (o.start - offset)) = some (o.stop - o.start) := by
  generalize hlen : text.length = len
  induction len using Nat.strongRecOn generalizing offset text with
  | ind len ih =>
    cases hfound : p text with
    | some n =>
      obtain ⟨-, hpos, hle⟩ := hp.starts hfound
      rw [hp.searchFrom_of_some hfound] at ho
      rcases List.mem_cons.mp ho with rfl | ho
      · dsimp only
        rw [Nat.sub_self, Nat.add_sub_cancel_left, List.drop_zero, hfound]
      · -- what is found later starts behind the match, so the subtraction does not stop at zero
        have hstart := ((hp.bounds_searchFrom (offset + n) (text.drop n)).1 o ho).1
        have hrest := ih (text.drop n).length (by rw [List.length_drop]; omega) ho rfl
        rw [List.drop_drop] at hrest
        rwa [show o.start - offset = n + (o.start - (offset + n)) by omega]
    | none =>
      cases text with
      | nil =>
        rw [hp.searchFrom_nil] at ho
        cases ho
      | cons b rest =>
        rw [hp.searchFrom_cons hfound] at ho
        have hstart := ((hp.bounds_searchFrom (offset + 1) rest).1 o ho).1
        rw [show o.start - offset = o.start - (offset + 1) + 1 by omega, List.drop_succ_cons]
        exact ih rest.length (by rw [← hlen]; exact Nat.lt_succ_self _) ho rfl

/-- The search passes over a match only if it starts inside another one. -/
theorem mem_searchFrom_or_inside {text : Text} {i n : Nat} (h : p (text.drop i) = some n)
    (offset : Nat) :
    ⟨offset + i, offset + i + n⟩ ∈ searchFrom p offset text ∨
      ∃ o ∈ searchFrom p offset text, o.start < offset + i ∧ offset + i < o.stop := by
  generalize hlen : text.length = len
  induction len using Nat.strongRecOn generalizing offset text i with
  | ind len ih =>
    cases hfound : p text with
    | some m =>
      obtain ⟨-, hpos, hle⟩ := hp.starts hfound
      rw [hp.searchFrom_of_some hfound]
      -- the match starts where this one does, inside it, or behind it
      rcases Nat.eq_zero_or_pos i with rfl | hi
      · rw [List.drop_zero, hfound] at h
        obtain rfl := Option.some.inj h
        exact Or.inl List.mem_cons_self
      rcases Nat.lt_or_ge i m with him | hmi
      · exact Or.inr ⟨_, List.mem_cons_self, by dsimp only; omega, by dsimp only; omega⟩
      · obtain ⟨k, rfl⟩ : ∃ k, i = m + k := ⟨i - m, by omega⟩
        rw [← List.drop_drop] at h
        have hrest := ih (text.drop m).length (by rw [List.length_drop]; omega) h (offset + m) rfl
        rw [Nat.add_assoc offset m k] at hrest
        rcases hrest with hmem | ⟨o, ho, hinside⟩
        · exact Or.inl (List.mem_cons_of_mem _ hmem)
        · exact Or.inr ⟨o, List.mem_cons_of_mem _ ho, hinside⟩
    | none =>
      cases text with
      | nil =>
        rw [List.drop_nil, hp.nil] at h
        cases h
      | cons b rest =>
        rw [List.length_cons] at hlen
        cases i with
        | zero =>
          rw [List.drop_zero, hfound] at h
          cases h
        | succ i =>
          rw [List.drop_succ_cons] at h
          rw [hp.searchFrom_cons hfound, show offset + (i + 1) = offset + 1 + i by omega]
          exact ih rest.length (by omega) h (offset + 1) rfl

/-- What a search finds twice at one byte is the same occurrence. -/
theorem eq_of_overlap {offset : Nat} {text : Text} {o o' : Occurrence}
    (ho : o ∈ searchFrom p offset text) (ho' : o' ∈ searchFrom p offset text)
    (h : o.start < o'.stop) (h' : o'.start < o.stop) : o = o' := by
  obtain ⟨-, hpairs⟩ := hp.bounds_searchFrom offset text
  have hapart : (searchFrom p offset text).Pairwise fun o o' =>
      o.stop ≤ o'.start ∨ o'.stop ≤ o.start := hpairs.imp Or.inl
  have hsymm : Std.Symm fun o o' : Occurrence => o.stop ≤ o'.start ∨ o'.stop ≤ o.start :=
    ⟨fun _ _ => Or.symm⟩
  by_contra hne
  have hor := hapart.forall ho ho' hne
  omega

end Pattern.Anchored

/-! ### Forms -/

/-- The bytes of the occurrence have the form. -/
def Occurrence.Matches (form : Text → Prop) (text : Text) (o : Occurrence) : Prop :=
  o.start ≤ o.stop ∧ o.stop ≤ text.length ∧ form (o.text text)

/-- **The matches of a form from left to right.** At each offset either a match that starts there is
taken, and the search resumes at its end, or no match starts there, and the search moves on by one
byte. -/
inductive Scan (form : Text → Prop) (text : Text) : Nat → List Occurrence → Prop
  | done {offset : Nat} : offset = text.length → Scan form text offset []
  | taken {start stop : Nat} {os : List Occurrence} :
      Occurrence.Matches form text ⟨start, stop⟩ → Scan form text stop os →
      Scan form text start (⟨start, stop⟩ :: os)
  | passed {offset : Nat} {os : List Occurrence} : offset < text.length →
      (∀ stop, ¬ Occurrence.Matches form text ⟨offset, stop⟩) →
      Scan form text (offset + 1) os → Scan form text offset os

/-- The pattern decides whether a text starts with the form, and how long it is there. -/
def Pattern.Decides (p : Pattern) (form : Text → Prop) : Prop :=
  ∀ {text n}, p text = some n ↔ ∃ front rest, text = front ++ rest ∧ form front ∧ n = front.length

namespace Pattern.Decides

variable {p : Pattern} {form : Text → Prop}

/-- A match of the form is found by the pattern. -/
theorem some_of_matches (hd : p.Decides form) {text : Text} {start stop : Nat}
    (h : Occurrence.Matches form text ⟨start, stop⟩) :
    p (text.drop start) = some (stop - start) := by
  obtain ⟨hle, hstop, hform⟩ := h
  dsimp only at hle hstop
  have hlen : ((text.drop start).take (stop - start)).length = stop - start := by
    rw [List.length_take, List.length_drop]
    omega
  exact hd.mpr ⟨_, _, (List.take_append_drop (stop - start) _).symm, hform, hlen.symm⟩

/-- At most one match starts at an offset. -/
theorem stop_unique (hd : p.Decides form) {text : Text} {start stop stop' : Nat}
    (h : Occurrence.Matches form text ⟨start, stop⟩)
    (h' : Occurrence.Matches form text ⟨start, stop'⟩) : stop = stop' := by
  have heq := Option.some.inj ((hd.some_of_matches h).symm.trans (hd.some_of_matches h'))
  have hle : start ≤ stop := h.1
  have hle' : start ≤ stop' := h'.1
  omega

/-- **A search with the pattern scans for the form.** -/
theorem scan_searchFrom (hd : p.Decides form) {head : UInt8} (hp : p.Anchored head) (text : Text)
    {offset : Nat} (ho : offset ≤ text.length) :
    Scan form text offset (searchFrom p offset (text.drop offset)) := by
  -- every step leaves fewer bytes
  generalize hleft : text.length - offset = left
  induction left using Nat.strongRecOn generalizing offset with
  | ind left ih =>
    rcases Nat.lt_or_eq_of_le ho with hlt | rfl
    · cases hfound : p (text.drop offset) with
      | some n =>
        obtain ⟨-, hpos, hlen⟩ := hp.starts hfound
        rw [List.length_drop] at hlen
        have hmatch : Occurrence.Matches form text ⟨offset, offset + n⟩ := by
          refine ⟨Nat.le_add_right _ _, (by omega : offset + n ≤ text.length), ?_⟩
          obtain ⟨front, rest, hdrop, hform, rfl⟩ := hd.mp hfound
          rwa [Occurrence.text, Nat.add_sub_cancel_left, hdrop, List.take_left]
        rw [hp.searchFrom_of_some hfound, List.drop_drop]
        exact Scan.taken hmatch (ih (text.length - (offset + n)) (by omega) (by omega) rfl)
      | none =>
        have hcons := List.drop_eq_getElem_cons hlt
        have hnone := hfound
        rw [hcons] at hnone
        rw [hcons, hp.searchFrom_cons hnone]
        refine Scan.passed hlt (fun stop hmatch => ?_)
          (ih (text.length - (offset + 1)) (by omega) hlt rfl)
        rw [hd.some_of_matches hmatch] at hfound
        cases hfound
    · rw [List.drop_length, hp.searchFrom_nil]
      exact Scan.done rfl

end Pattern.Decides

namespace Scan

variable {form : Text → Prop} {text : Text}

/-- What a scan finds are matches from its offset on. -/
theorem matches_of_mem {offset : Nat} {os : List Occurrence} (h : Scan form text offset os)
    {o : Occurrence} (ho : o ∈ os) : offset ≤ o.start ∧ o.Matches form text := by
  induction h with
  | done => cases ho
  | taken hmatch _ ih =>
    rcases List.mem_cons.mp ho with rfl | ho
    · exact ⟨Nat.le_refl _, hmatch⟩
    · obtain ⟨hle, hmatch'⟩ := ih ho
      exact ⟨Nat.le_trans hmatch.1 hle, hmatch'⟩
  | passed _ _ _ ih =>
    obtain ⟨hle, hmatch⟩ := ih ho
    exact ⟨Nat.le_of_succ_le hle, hmatch⟩

section

-- at most one match starts at an offset, and it is not empty
variable (hstop : ∀ {start stop stop'}, Occurrence.Matches form text ⟨start, stop⟩ →
    Occurrence.Matches form text ⟨start, stop'⟩ → stop = stop')
  (hne : ∀ {start stop}, Occurrence.Matches form text ⟨start, stop⟩ → start < stop)

include hstop hne

/-- **There is one scan at most.** -/
theorem unique {offset : Nat} {os os' : List Occurrence} (h : Scan form text offset os)
    (h' : Scan form text offset os') : os = os' := by
  have hend : ∀ stop, ¬ Occurrence.Matches form text ⟨text.length, stop⟩ := by
    intro stop hmatch
    have hle : stop ≤ text.length := hmatch.2.1
    have hlt := hne hmatch
    omega
  -- at each offset the second scan has to take the decision of the first one
  induction h generalizing os' with
  | done hoffset =>
    subst hoffset
    cases h' with
    | done => rfl
    | taken hmatch _ => exact absurd hmatch (hend _)
    | passed hlt _ _ => exact absurd hlt (Nat.lt_irrefl _)
  | taken hmatch _ ih =>
    cases h' with
    | done hoffset =>
      subst hoffset
      exact absurd hmatch (hend _)
    | taken hmatch' hscan' =>
      obtain rfl := hstop hmatch hmatch'
      rw [ih hscan']
    | passed _ hnone _ => exact absurd hmatch (hnone _)
  | passed hlt hnone _ ih =>
    cases h' with
    | done hoffset => exact absurd hlt (by omega)
    | taken hmatch' _ => exact absurd hmatch' (hnone _)
    | passed _ _ hscan' => exact ih hscan'

/-- **A scan hides no match** but one that starts inside a match it has taken. -/
theorem mem_or_inside {offset : Nat} {os : List Occurrence} (h : Scan form text offset os)
    {o : Occurrence} (ho : o.Matches form text) (hle : offset ≤ o.start) :
    o ∈ os ∨ ∃ o' ∈ os, o'.start < o.start ∧ o.start < o'.stop := by
  obtain ⟨start, stop⟩ := o
  induction h with
  | done hoffset =>
    have hin : stop ≤ text.length := ho.2.1
    have hlt := hne ho
    dsimp only at hle
    omega
  | @taken start' stop' os hmatch _ ih =>
    rcases Nat.lt_or_ge start stop' with hlt | hge
    · rcases Nat.lt_or_eq_of_le hle with hafter | heq
      · exact Or.inr ⟨_, List.mem_cons_self, hafter, hlt⟩
      · -- both start at the same offset
        obtain rfl : start' = start := heq
        obtain rfl := hstop hmatch ho
        exact Or.inl List.mem_cons_self
    · rcases ih hge with hmem | ⟨o', hmem, hinside⟩
      · exact Or.inl (List.mem_cons_of_mem _ hmem)
      · exact Or.inr ⟨o', List.mem_cons_of_mem _ hmem, hinside⟩
  | @passed offset os _ hnone _ ih =>
    refine ih (Nat.lt_of_le_of_ne hle ?_)
    rintro rfl
    exact hnone stop ho

end

end Scan

end ViewLint.Text
