import Mathlib.Data.List.Pairwise
import ViewLint.Text.Occurrence

/-!
# The word at a column

What a search finds are matches of its pattern (`matches_of_mem_occurrencesFrom`), in the order of their
starts (`pairwise_occurrencesFrom`). So the word at a column is a match that the column touches, and
there is one whenever the column touches anything that is found (`isSome_wordAt_iff`). For a fixed word,
with or without an `@`, this cuts the line in front of the word and behind it
(`exists_split_of_wordAt`).

Nothing is asked of the pattern but that it matches no more than there is. It need not start with a
fixed byte.
-/

namespace ViewLint

namespace Text

theorem Occurrence.touches_iff {o : Occurrence} {column : Int} :
    o.touches column = true ↔ (o.start : Int) ≤ column ∧ column ≤ o.stop := by
  unfold touches
  rw [Bool.and_eq_true, decide_eq_true_eq, decide_eq_true_eq]

/-- A pattern that matches no more than there is. -/
def Pattern.Fits (p : Pattern) : Prop := ∀ {text n}, p text = some n → n ≤ text.length

/-- **The pattern matches where something is found**, in what is left of the text there. -/
theorem matches_of_mem_occurrencesFrom {p : Pattern} (hp : p.Fits) {last : Option Nat}
    {offset skip : Nat} {text : Text} {o : Occurrence}
    (ho : o ∈ occurrencesFrom p last offset skip text) :
    offset ≤ o.start ∧ o.start ≤ o.stop ∧
      p (text.drop (o.start - offset)) = some (o.stop - o.start) := by
  induction text generalizing last offset skip with
  | nil =>
    unfold occurrencesFrom at ho
    cases hfound : p [] with
    | none =>
      rw [hfound] at ho
      cases ho
    | some n =>
      obtain rfl : n = 0 := Nat.le_zero.mp (hp hfound)
      rw [hfound] at ho
      dsimp only at ho
      split at ho
      · cases ho
      · rw [List.mem_singleton.mp ho]
        exact ⟨Nat.le_refl _, Nat.le_refl _, by simpa using hfound⟩
  | cons b rest ih =>
    -- what is found in the rest is one byte further in the whole
    have hrest : ∀ {last skip}, o ∈ occurrencesFrom p last (offset + 1) skip rest →
        offset ≤ o.start ∧ o.start ≤ o.stop ∧
          p ((b :: rest).drop (o.start - offset)) = some (o.stop - o.start) := by
      intro last skip hmem
      obtain ⟨hstart, hstop, hfound⟩ := ih hmem
      refine ⟨Nat.le_of_succ_le hstart, hstop, ?_⟩
      rwa [show o.start - offset = o.start - (offset + 1) + 1 by omega, List.drop_succ_cons]
    cases skip with
    | succ skip => exact hrest ho
    | zero =>
      rw [occurrencesFrom] at ho
      cases hfound : p (b :: rest) with
      | none =>
        rw [hfound] at ho
        exact hrest ho
      | some n =>
        -- the match at the first byte, if it is reported
        have hhead : o = ⟨offset, offset + n⟩ → offset ≤ o.start ∧ o.start ≤ o.stop ∧
            p ((b :: rest).drop (o.start - offset)) = some (o.stop - o.start) := by
          rintro rfl
          dsimp only
          rw [Nat.sub_self, List.drop_zero, Nat.add_sub_cancel_left]
          exact ⟨Nat.le_refl _, Nat.le_add_right _ _, hfound⟩
        rw [hfound] at ho
        cases n with
        | zero =>
          dsimp only at ho
          split at ho
          · exact hrest ho
          · rcases List.mem_cons.mp ho with heq | ho
            · exact hhead heq
            · exact hrest ho
        | succ n =>
          rcases List.mem_cons.mp ho with heq | ho
          · exact hhead heq
          · exact hrest ho

/-- **What is found comes in the order of its starts.** -/
theorem pairwise_occurrencesFrom {p : Pattern} (hp : p.Fits) (last : Option Nat)
    (offset skip : Nat) (text : Text) :
    (occurrencesFrom p last offset skip text).Pairwise fun o o' => o.start ≤ o'.start := by
  induction text generalizing last offset skip with
  | nil =>
    unfold occurrencesFrom
    split
    · exact List.Pairwise.nil
    · split
      · exact List.Pairwise.nil
      · exact List.pairwise_singleton _ _
  | cons b rest ih =>
    -- an occurrence at `offset` starts before those of the rest
    have hcons : ∀ last skip stop, (Occurrence.mk offset stop ::
        occurrencesFrom p last (offset + 1) skip rest).Pairwise fun o o' => o.start ≤ o'.start := by
      intro last skip stop
      refine List.Pairwise.cons (fun o ho => ?_) (ih last (offset + 1) skip)
      exact Nat.le_of_succ_le (matches_of_mem_occurrencesFrom hp ho).1
    -- the byte is skipped, or a match is looked for at it
    cases skip with
    | succ skip => exact ih last (offset + 1) skip
    | zero =>
      rw [occurrencesFrom]
      split
      · exact ih _ _ _
      · dsimp only
        split
        · exact ih _ _ _
        · exact hcons _ _ _
      · exact hcons _ _ _

theorem of_wordAt {line : Text} {column : Int} {p : Pattern} {o : Occurrence}
    (h : wordAt line column p = some o) :
    o ∈ occurrences p line ∧ o.touches column = true := by
  unfold wordAt at h
  have htouch := List.find?_some (p := fun o : Occurrence => o.touches column) h
  exact ⟨(List.takeWhile_prefix _).subset (List.mem_of_find?_eq_some h), htouch⟩

/-- **There is a word at a column just in case an occurrence touches it.** -/
theorem isSome_wordAt_iff {p : Pattern} (hp : p.Fits) (line : Text) (column : Int) :
    (wordAt line column p).isSome = true ↔ ∃ o ∈ occurrences p line, o.touches column = true := by
  constructor
  · intro h
    obtain ⟨o, ho⟩ := Option.isSome_iff_exists.mp h
    obtain ⟨hmem, htouch⟩ := of_wordAt ho
    exact ⟨o, hmem, htouch⟩
  · rintro ⟨o, hmem, htouch⟩
    have hpairs := pairwise_occurrencesFrom hp none 0 0 line
    change (occurrences p line).Pairwise _ at hpairs
    obtain ⟨front, back, hsplit⟩ := List.append_of_mem hmem
    rw [hsplit] at hpairs
    -- what is found before it does not start beyond the column either
    have hreached : ∀ o' ∈ front, decide ((o'.start : Int) ≤ column) = true := by
      intro o' ho'
      have hle := (List.pairwise_append.mp hpairs).2.2 o' ho' o List.mem_cons_self
      have hstart := (Occurrence.touches_iff.mp htouch).1
      rw [decide_eq_true_eq]
      omega
    have hkept : o ∈ (occurrences p line).takeWhile fun o => decide ((o.start : Int) ≤ column) := by
      rw [hsplit, List.takeWhile_append_of_pos hreached,
        List.takeWhile_cons_of_pos (p := fun o : Occurrence => decide ((o.start : Int) ≤ column))
          (decide_eq_true (Occurrence.touches_iff.mp htouch).1)]
      exact List.mem_append_right _ List.mem_cons_self
    exact List.find?_isSome.mpr ⟨o, hkept, htouch⟩

theorem atWord_eq_some {label text : Text} {n : Nat} (h : atWord label text = some n) :
    ∃ word rest, (word = label ∨ word = byte '@' :: label) ∧ text = word ++ rest ∧
      n = word.length := by
  unfold atWord at h
  split at h
  · next hprefix =>
    obtain ⟨rest, rfl⟩ := List.isPrefixOf_iff_prefix.mp hprefix
    exact ⟨_, rest, Or.inr rfl, rfl, (Option.some.inj h).symm⟩
  · split at h
    · next hprefix =>
      obtain ⟨rest, rfl⟩ := List.isPrefixOf_iff_prefix.mp hprefix
      exact ⟨_, rest, Or.inl rfl, rfl, (Option.some.inj h).symm⟩
    · cases h

theorem fits_atWord (label : Text) : (atWord label).Fits := by
  intro text n h
  obtain ⟨word, rest, -, rfl, rfl⟩ := atWord_eq_some h
  exact (List.prefix_append word rest).length_le

/-- The line around the word at a column. -/
theorem exists_split_of_wordAt {label line : Text} (hlabel : label ≠ []) {column : Int}
    {o : Occurrence} (h : wordAt line column (atWord label) = some o) :
    ∃ before word after, line = before ++ (word ++ after) ∧
      word ≠ [] ∧ (word = label ∨ word = byte '@' :: label) ∧
      o = ⟨before.length, before.length + word.length⟩ ∧
      (before.length : Int) ≤ column ∧ column ≤ before.length + word.length := by
  obtain ⟨hmem, htouch⟩ := of_wordAt h
  obtain ⟨hle, hge⟩ := Occurrence.touches_iff.mp htouch
  obtain ⟨-, hordered, hfound⟩ := matches_of_mem_occurrencesFrom (fits_atWord label) hmem
  rw [Nat.sub_zero] at hfound
  obtain ⟨word, after, hword, hdrop, hlength⟩ := atWord_eq_some hfound
  have hne : word ≠ [] := by
    rcases hword with rfl | rfl
    · exact hlabel
    · exact List.cons_ne_nil _ _
  -- there is a word behind the start, so the start is in the line
  have hin : o.start ≤ line.length := by
    by_contra hout
    rw [List.drop_eq_nil_of_le (by omega)] at hdrop
    exact hne (List.append_eq_nil_iff.mp hdrop.symm).1
  have hstart : (line.take o.start).length = o.start := List.length_take_of_le hin
  have hstop : o.stop = o.start + word.length := by omega
  refine ⟨line.take o.start, word, after, ?_, hne, hword, ?_, ?_, ?_⟩
  · rw [← hdrop, List.take_append_drop]
  · rw [hstart, ← hstop]
  · rwa [hstart]
  · rw [hstart]
    omega

end Text

end ViewLint
