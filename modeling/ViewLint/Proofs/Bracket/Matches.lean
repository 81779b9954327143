import ViewLint.Proofs.Bracket

/-!
# Partners as elements

`Bracket.Pairs` speaks of indices. A list that is sorted in another way has other indices but may
have the same partners, and `Bracket.Matches` says of two elements that they are partners, by a cut
of the list. Whether a list is balanced and who matches whom depends only on the elements that open
or close (`balanced_filter`, `matches_filter`), so it is the same for two lists that agree on these.
-/

namespace ViewLint.Bracket

variable {α : Type} {b : Bracket α}

/-- The closer `y` belongs to the opener `x`: what stands between the two is balanced. -/
def Matches (b : Bracket α) (l : List α) (x y : α) : Prop :=
  ∃ front inner back, l = front ++ x :: (inner ++ y :: back) ∧ b.opens x = true ∧
    b.closes y = true ∧ b.Balanced inner

/-! ### Building balanced lists -/

theorem openers_append (b : Bracket α) (l l' : List α) :
    b.openers (l ++ l') = b.openers l + b.openers l' := List.countP_append

theorem closers_append (b : Bracket α) (l l' : List α) :
    b.closers (l ++ l') = b.closers l + b.closers l' := List.countP_append

theorem not_opens_of_closes {y : α} (h : b.closes y = true) : b.opens y = false := by
  cases ho : b.opens y with
  | false => rfl
  | true =>
    rw [b.disjoint y ho] at h
    cases h

theorem balanced_nil (b : Bracket α) : b.Balanced [] := ⟨b.neverBelow_nil, rfl⟩

namespace Balanced

variable {l l' : List α} {x y : α}

theorem append (h : b.Balanced l) (h' : b.Balanced l') : b.Balanced (l ++ l') := by
  refine ⟨?_, by rw [openers_append, closers_append, h.2, h'.2]⟩
  rintro p ⟨r, hr⟩
  rcases List.append_eq_append_iff.mp hr with ⟨s, rfl, -⟩ | ⟨s, rfl, hs⟩
  · exact h.1 p (List.prefix_append p s)
  · -- the whole first list and a prefix of the second one
    have hle := h'.1 s ⟨r, hs.symm⟩
    have htotal := h.2
    rw [openers_append, closers_append]
    omega

/-- A pair around a balanced list. -/
theorem wrap (h : b.Balanced l) (hx : b.opens x = true) (hy : b.closes y = true) :
    b.Balanced (x :: l ++ [y]) := by
  have hx' : b.closes x = false := b.disjoint x hx
  have hy' : b.opens y = false := not_opens_of_closes hy
  have htotal := h.2
  -- behind the opener every prefix has one opener more than the list itself
  have hfront : ∀ p, b.openers (x :: p) = b.openers p + 1 ∧ b.closers (x :: p) = b.closers p := by
    intro p
    unfold openers closers
    rw [List.countP_cons_of_pos hx, List.countP_cons_of_neg (by simp [hx'])]
    exact ⟨rfl, rfl⟩
  refine ⟨fun p hp => ?_, ?_⟩
  · rcases List.prefix_concat_iff.mp hp with rfl | hp
    · rw [openers_concat, closers_concat, (hfront l).1, (hfront l).2, hy, hy']
      simp [htotal]
    · rcases List.prefix_cons_iff.mp hp with rfl | ⟨q, rfl, hq⟩
      · exact Nat.zero_le _
      · rw [(hfront q).1, (hfront q).2]
        exact Nat.le_succ_of_le (h.1 q hq)
  · rw [openers_concat, closers_concat, (hfront l).1, (hfront l).2, hy, hy']
    simp [htotal]

/-- An element that neither opens nor closes. -/
theorem singleton (ho : b.opens x = false) (hc : b.closes x = false) : b.Balanced [x] := by
  have hnone : b.openers [x] = 0 ∧ b.closers [x] = 0 := by
    simp [openers, closers, ho, hc]
  refine ⟨fun p hp => ?_, by rw [hnone.1, hnone.2]⟩
  have hle : b.closers p ≤ b.closers [x] := hp.sublist.countP_le
  omega

/-- A balanced list ends where its closer comes: it is cut off in one way only. -/
theorem cut_unique {back back' : List α} {y' : α} (h : b.Balanced l) (h' : b.Balanced l')
    (hy : b.closes y = true) (hy' : b.closes y' = true)
    (heq : l ++ y :: back = l' ++ y' :: back') : l = l' ∧ y = y' := by
  -- a longer list would have the closer of the shorter one in it, and no opener for it
  have hshort : ∀ {l l' s : List α} {y : α}, b.Balanced l → b.Balanced l' → b.closes y = true →
      l' ≠ l ++ y :: s := by
    rintro l l' s y h h' hy rfl
    have hle := h'.1 (l ++ [y]) ⟨s, by simp⟩
    rw [openers_concat, closers_concat, hy, not_opens_of_closes hy, h.2] at hle
    exact Nat.not_succ_le_self _ hle
  rcases List.append_eq_append_iff.mp heq with ⟨s, hl, hs⟩ | ⟨s, hl, hs⟩
  · cases s with
    | nil => exact ⟨by simpa using hl.symm, (List.cons.inj hs).1⟩
    | cons z s =>
      obtain ⟨rfl, -⟩ := List.cons.inj hs
      exact absurd hl (hshort h h' hy)
  · cases s with
    | nil => exact ⟨by simpa using hl, (List.cons.inj hs).1.symm⟩
    | cons z s =>
      obtain ⟨rfl, -⟩ := List.cons.inj hs
      exact absurd hl (hshort h' h hy')

end Balanced

/-! ### Only openers and closers count -/

section Filter

variable {q : α → Bool} (ho : ∀ a, b.opens a = true → q a = true)
  (hc : ∀ a, b.closes a = true → q a = true)

include ho hc

theorem counts_filter (l : List α) :
    b.openers (l.filter q) = b.openers l ∧ b.closers (l.filter q) = b.closers l := by
  have hcount : ∀ p : α → Bool, (∀ a, p a = true → q a = true) →
      (l.filter q).countP p = l.countP p := by
    intro p hp
    rw [List.countP_filter]
    refine List.countP_congr fun a _ => ?_
    rw [Bool.and_eq_true]
    exact ⟨fun h => h.1, fun h => ⟨h, hp a h⟩⟩
  exact ⟨hcount b.opens ho, hcount b.closes hc⟩

theorem balanced_filter (l : List α) : b.Balanced (l.filter q) ↔ b.Balanced l := by
  unfold Balanced
  rw [(counts_filter ho hc l).1, (counts_filter ho hc l).2]
  refine and_congr_left fun _ => ⟨fun h p hp => ?_, fun h p hp => ?_⟩
  · have hle := h (p.filter q) (List.prefix_filter_iff.mpr ⟨p, hp, rfl⟩)
    rwa [(counts_filter ho hc p).1, (counts_filter ho hc p).2] at hle
  · obtain ⟨p', hp', rfl⟩ := List.prefix_filter_iff.mp hp
    rw [(counts_filter ho hc p').1, (counts_filter ho hc p').2]
    exact h p' hp'

theorem matches_filter (l : List α) (x y : α) : b.Matches (l.filter q) x y ↔ b.Matches l x y := by
  constructor
  · rintro ⟨front, inner, back, hl, hx, hy, hinner⟩
    obtain ⟨front', rest, rfl, -, hrest⟩ := List.filter_eq_append_iff.mp hl
    obtain ⟨skip, rest', rfl, -, -, hrest'⟩ := List.filter_eq_cons_iff.mp hrest
    obtain ⟨inner', tail, rfl, hinner', htail⟩ := List.filter_eq_append_iff.mp hrest'
    obtain ⟨skip', back', rfl, hskip', -, -⟩ := List.filter_eq_cons_iff.mp htail
    refine ⟨front' ++ skip, inner' ++ skip', back', by simp, hx, hy, ?_⟩
    -- what the filter leaves out between the two does not count
    have hnone : skip'.filter q = [] := List.filter_eq_nil_iff.mpr hskip'
    rw [← balanced_filter ho hc, List.filter_append, hinner', hnone, List.append_nil]
    exact hinner
  · rintro ⟨front, inner, back, rfl, hx, hy, hinner⟩
    refine ⟨front.filter q, inner.filter q, back.filter q, ?_, hx, hy,
      (balanced_filter ho hc inner).mpr hinner⟩
    rw [List.filter_append, List.filter_cons_of_pos (ho x hx), List.filter_append,
      List.filter_cons_of_pos (hc y hy)]

end Filter

/-! ### Elements and indices -/

/-- Where two partners cut a list. -/
theorem Pairs.cut {l : List α} {i j : Nat} (h : b.Pairs l i j) :
    ∃ x y, l = l.take i ++ x :: ((l.take j).drop (i + 1) ++ y :: l.drop (j + 1)) ∧
      l[i]? = some x ∧ l[j]? = some y ∧ b.opens x = true ∧ b.closes y = true ∧
      b.Balanced ((l.take j).drop (i + 1)) := by
  obtain ⟨hij, ⟨x, hx, ho⟩, ⟨y, hy, hc⟩, hinner⟩ := h
  refine ⟨x, y, ?_, hx, hy, ho, hc, hinner⟩
  obtain ⟨hi, rfl⟩ := List.getElem?_eq_some_iff.mp hx
  obtain ⟨hj, rfl⟩ := List.getElem?_eq_some_iff.mp hy
  have htail : (l.take j).drop (i + 1) ++ l.drop j = l.drop (i + 1) := by
    rw [← List.drop_append_of_le_length (by rw [List.length_take]; omega), List.take_append_drop]
  rw [← List.drop_eq_getElem_cons hj, htail, ← List.drop_eq_getElem_cons hi,
    List.take_append_drop]

theorem matches_iff_pairs (l : List α) (x y : α) :
    b.Matches l x y ↔ ∃ i j, b.Pairs l i j ∧ l[i]? = some x ∧ l[j]? = some y := by
  constructor
  · -- the two indices are the lengths of what stands in front
    rintro ⟨front, inner, back, rfl, hx, hy, hinner⟩
    have hgetx : (front ++ x :: (inner ++ y :: back))[front.length]? = some x := by simp
    have hgety : (front ++ x :: (inner ++ y :: back))[front.length + 1 + inner.length]? =
        some y := by
      rw [List.getElem?_append_right (by omega)]
      simp [Nat.add_assoc, Nat.add_comm 1]
    have hbetween : ((front ++ x :: (inner ++ y :: back)).take (front.length + 1 + inner.length)).drop
        (front.length + 1) = inner := by
      rw [List.append_cons, ← List.append_assoc, List.take_left' (by simp; omega),
        List.drop_left' (by simp)]
    exact ⟨front.length, front.length + 1 + inner.length,
      ⟨by omega, ⟨x, hgetx, hx⟩, ⟨y, hgety, hy⟩, hbetween.symm ▸ hinner⟩, hgetx, hgety⟩
  · rintro ⟨i, j, hpairs, hx, hy⟩
    -- the list is cut at the two indices
    obtain ⟨x', y', hcut, hx', hy', ho, hc, hinner⟩ := hpairs.cut
    obtain rfl := Option.some.inj (hx.symm.trans hx')
    obtain rfl := Option.some.inj (hy.symm.trans hy')
    exact ⟨_, _, _, hcut, ho, hc, hinner⟩

/-- Partners in a part of a list are partners in the list. -/
theorem Pairs.of_take_drop {l : List α} {i j k m : Nat}
    (h : b.Pairs ((l.take j).drop i) k m) : b.Pairs l (i + k) (i + m) ∧ i + m < j := by
  obtain ⟨hkm, ⟨x, hx, ho⟩, ⟨y, hy, hc⟩, hinner⟩ := h
  have hmj : i + m < j := by
    have hlen := (List.getElem?_eq_some_iff.mp hy).1
    rw [List.length_drop, List.length_take] at hlen
    omega
  rw [List.getElem?_drop, List.getElem?_take_of_lt (by omega)] at hx hy
  refine ⟨⟨by omega, ⟨x, hx, ho⟩, ⟨y, hy, hc⟩, ?_⟩, hmj⟩
  have hpart : (((l.take j).drop i).take m).drop (k + 1) = (l.take (i + m)).drop (i + k + 1) := by
    rw [List.take_drop, List.take_take, List.drop_drop, Nat.min_eq_left (by omega), Nat.add_assoc]
  rwa [hpart] at hinner

/-- An opener has one partner at most. -/
theorem Pairs.unique {l : List α} {k m m' : Nat} (h : b.Pairs l k m) (h' : b.Pairs l k m') :
    m = m' := by
  -- at the later partner the opener would still be pending
  have hle : ∀ {m m'}, b.Pairs l k m → b.Pairs l k m' → ¬ m < m' := by
    intro m m' h h' hlt
    obtain ⟨⟨y, hy, -⟩, hhead⟩ := (b.pairs_iff_head?_pending l k m').mp h'
    obtain ⟨hkm, ⟨x, hx, hox⟩, -, -⟩ := h'
    have hlen := (List.getElem?_eq_some_iff.mp hy).1
    exact (b.mem_pending_take_iff hx hox hkm hlen.le).mp (List.mem_of_mem_head? hhead) ⟨m, hlt, h⟩
  have hm := hle h h'
  have hm' := hle h' h
  omega

/-- In a balanced list every opener has a partner. -/
theorem Balanced.exists_pairs {l : List α} (h : b.Balanced l) {k : Nat} {x : α}
    (hx : l[k]? = some x) (ho : b.opens x = true) : ∃ m, b.Pairs l k m := by
  have hk : k < l.length := (List.getElem?_eq_some_iff.mp hx).1
  have hpending : k ∉ b.pending (l.take l.length) := by
    rw [List.take_length, ((b.balanced_iff_pending l).mp h).2]
    exact List.not_mem_nil
  rw [b.mem_pending_take_iff hx ho hk (Nat.le_refl _), not_not] at hpending
  obtain ⟨m, -, hm⟩ := hpending
  exact ⟨m, hm⟩

end ViewLint.Bracket
