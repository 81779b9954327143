import Mathlib.Data.List.Induction
import Mathlib.Data.List.Infix
import Mathlib.Tactic.Common

/-!
# Brackets and their last-in-first-out matching

A bracket says of the elements of a list which ones open and which ones close. Two readings of the
same list are tied together here.

* The **declarative** reading counts: a list is `Balanced` if no prefix has more closers than
  openers and the totals agree, and `Pairs l i j` says that the closer at `j` belongs to the opener
  at `i` because what stands between them is balanced.
* The **operational** reading keeps the indices of the openers that still wait for their closer, the
  most recent first (`pending`): an opener is pushed, a closer pops.

`getElem?_pending` is the bridge: an opener is at depth `d` of the stack exactly if the list after
it never drops below it and has `d` openers more than closers. Everything else follows from it:
what a closer pops is its partner (`pairs_iff_head?_pending`), an opener leaves the stack exactly
when its partner has come (`mem_pending_take_iff`), and the closers that find the stack empty are
the ones that break the prefix condition (`neverBelow_iff_pending_ne_nil`).
-/

namespace ViewLint

/-- Which elements of a list open and which ones close. None does both. -/
structure Bracket (α : Type) where
  opens : α → Bool
  closes : α → Bool
  disjoint : ∀ a, opens a = true → closes a = false

namespace Bracket

variable {α : Type} (b : Bracket α)

/-- The number of openers in a list. -/
def openers (l : List α) : Nat := l.countP b.opens

/-- The number of closers in a list. -/
def closers (l : List α) : Nat := l.countP b.closes

/-- Every prefix has at least as many openers as closers. -/
def NeverBelow (l : List α) : Prop := ∀ p, p <+: l → b.closers p ≤ b.openers p

/-- Every prefix has at least as many openers as closers, and the totals are equal. -/
def Balanced (l : List α) : Prop := b.NeverBelow l ∧ b.openers l = b.closers l

/-- **The last-in-first-out partner.** The closer at `j` belongs to the opener at `i` if what stands
between the two is balanced. -/
def Pairs (l : List α) (i j : Nat) : Prop :=
  i < j ∧ (∃ x, l[i]? = some x ∧ b.opens x = true) ∧ (∃ y, l[j]? = some y ∧ b.closes y = true) ∧
    b.Balanced ((l.take j).drop (i + 1))

/-- The stack of open indices after one more element, which has index `i`. -/
def push (stack : List Nat) (i : Nat) (a : α) : List Nat :=
  if b.opens a then i :: stack else if b.closes a then stack.tail else stack

/-- The stack of a list that is read from its last element back. -/
def pendingRev : List α → List Nat
  | [] => []
  | a :: l => b.push (pendingRev l) l.length a

/-- The indices of the openers that wait for their closer, the most recent first. -/
def pending (l : List α) : List Nat := b.pendingRev l.reverse

/-! ### Counting -/

@[simp] theorem openers_nil : b.openers [] = 0 := rfl

@[simp] theorem closers_nil : b.closers [] = 0 := rfl

theorem openers_concat (l : List α) (a : α) :
    b.openers (l ++ [a]) = b.openers l + if b.opens a then 1 else 0 := by
  unfold openers
  rw [List.countP_append, List.countP_singleton]

theorem closers_concat (l : List α) (a : α) :
    b.closers (l ++ [a]) = b.closers l + if b.closes a then 1 else 0 := by
  unfold closers
  rw [List.countP_append, List.countP_singleton]

theorem neverBelow_nil : b.NeverBelow [] := by
  intro p hp
  rw [List.prefix_nil.mp hp]
  exact Nat.le_refl 0

/-- One more element keeps the prefix condition if the totals keep it. -/
theorem neverBelow_concat (l : List α) (a : α) :
    b.NeverBelow (l ++ [a]) ↔ b.NeverBelow l ∧ b.closers (l ++ [a]) ≤ b.openers (l ++ [a]) := by
  constructor
  · intro h
    exact ⟨fun p hp => h p (hp.trans (List.prefix_append l [a])), h _ List.prefix_rfl⟩
  · rintro ⟨hl, ha⟩ p hp
    rcases List.prefix_concat_iff.mp hp with rfl | hp
    · exact ha
    · exact hl p hp

theorem NeverBelow.le {l : List α} (h : b.NeverBelow l) : b.closers l ≤ b.openers l :=
  h l List.prefix_rfl

/-! ### The stack of open indices -/

@[simp] theorem pending_nil : b.pending [] = [] := rfl

@[simp] theorem pending_concat (l : List α) (a : α) :
    b.pending (l ++ [a]) = b.push (b.pending l) l.length a := by
  unfold pending
  rw [List.reverse_append, List.reverse_singleton, List.singleton_append, pendingRev,
    List.length_reverse]

theorem push_of_opens {a : α} (h : b.opens a = true) (stack : List Nat) (i : Nat) :
    b.push stack i a = i :: stack := if_pos h

theorem push_of_closes {a : α} (h : b.closes a = true) (stack : List Nat) (i : Nat) :
    b.push stack i a = stack.tail := by
  have ho : ¬ b.opens a = true := fun ho => by rw [b.disjoint a ho] at h; exact absurd h (by simp)
  rw [push, if_neg ho, if_pos h]

theorem push_of_neither {a : α} (ho : ¬ b.opens a = true) (hc : ¬ b.closes a = true)
    (stack : List Nat) (i : Nat) : b.push stack i a = stack := by
  rw [push, if_neg ho, if_neg hc]

/-- The stack holds indices of the list. -/
theorem lt_length_of_getElem?_pending {l : List α} {d i : Nat} (h : (b.pending l)[d]? = some i) :
    i < l.length := by
  -- what is pending after an event was pending before, or is the event itself
  induction l using List.reverseRecOn generalizing d with
  | nil => simp at h
  | append_singleton l a ih =>
    rw [pending_concat] at h
    rw [List.length_append, List.length_singleton]
    by_cases ho : b.opens a = true
    · rw [push_of_opens b ho] at h
      cases d with
      | zero =>
        rw [List.getElem?_cons_zero] at h
        have := Option.some.inj h
        omega
      | succ d => exact Nat.lt_succ_of_lt (ih h)
    · by_cases hc : b.closes a = true
      -- a closer takes the last one away, so the others move up by one
      · rw [push_of_closes b hc, List.getElem?_tail] at h
        exact Nat.lt_succ_of_lt (ih h)
      · rw [push_of_neither b ho hc] at h
        exact Nat.lt_succ_of_lt (ih h)

/-- The element that has just been read stands on the stack only if it opens, and then on top. -/
theorem getElem?_pending_concat_length (l : List α) (a : α) (d : Nat) :
    (b.pending (l ++ [a]))[d]? = some l.length ↔ b.opens a = true ∧ d = 0 := by
  -- what was pending before has a number below that of the event
  have hold : ∀ d : Nat, (b.pending l)[d]? ≠ some l.length := fun d h =>
    absurd (b.lt_length_of_getElem?_pending h) (Nat.lt_irrefl _)
  rw [pending_concat]
  by_cases ho : b.opens a = true
  · rw [push_of_opens b ho]
    cases d with
    | zero => simp [ho]
    | succ d => simp [hold d]
  · by_cases hc : b.closes a = true
    · rw [push_of_closes b hc, List.getElem?_tail]
      simp [hold (d + 1), ho]
    · rw [push_of_neither b ho hc]
      simp [hold d, ho]

/-- **The stack, declaratively.** An opener stands at depth `d` of the stack exactly if the list
after it never drops below it and leaves `d` openers open. -/
theorem getElem?_pending (l : List α) (d i : Nat) :
    (b.pending l)[d]? = some i ↔ (∃ x, l[i]? = some x ∧ b.opens x = true) ∧
      b.NeverBelow (l.drop (i + 1)) ∧
      b.openers (l.drop (i + 1)) = b.closers (l.drop (i + 1)) + d := by
  induction l using List.reverseRecOn generalizing d with
  | nil => simp
  | append_singleton l a ih =>
    rcases Nat.lt_trichotomy i l.length with hi | rfl | hi
    · -- an opener that was read before: the list after it grows by the new element
      have hget : (l ++ [a])[i]? = l[i]? := List.getElem?_append_left hi
      have hdrop : (l ++ [a]).drop (i + 1) = l.drop (i + 1) ++ [a] :=
        List.drop_append_of_le_length hi
      rw [pending_concat, hget, hdrop, neverBelow_concat, openers_concat, closers_concat]
      by_cases ho : b.opens a = true
      · have hc : b.closes a = false := b.disjoint a ho
        rw [push_of_opens b ho, if_pos ho, if_neg (by simp [hc])]
        cases d with
        | zero =>
          -- the new opener is on top, so that an older one is not
          rw [List.getElem?_cons_zero]
          constructor
          · intro h
            exact absurd (Option.some.inj h) (by omega)
          · rintro ⟨-, ⟨hb, -⟩, h⟩
            have := hb.le
            omega
        | succ d =>
          rw [List.getElem?_cons_succ, ih d]
          constructor
          · rintro ⟨hx, hb, h⟩
            exact ⟨hx, ⟨hb, by omega⟩, by omega⟩
          · rintro ⟨hx, ⟨hb, -⟩, h⟩
            exact ⟨hx, hb, by omega⟩
      · by_cases hc : b.closes a = true
        · rw [push_of_closes b hc, if_neg ho, if_pos hc, List.getElem?_tail, ih (d + 1)]
          constructor
          · rintro ⟨hx, hb, h⟩
            exact ⟨hx, ⟨hb, by omega⟩, by omega⟩
          · rintro ⟨hx, ⟨hb, -⟩, h⟩
            exact ⟨hx, hb, by omega⟩
        · rw [push_of_neither b ho hc, if_neg ho, if_neg hc, ih d]
          constructor
          · rintro ⟨hx, hb, h⟩
            exact ⟨hx, ⟨hb, hb.le⟩, h⟩
          · rintro ⟨hx, ⟨hb, -⟩, h⟩
            exact ⟨hx, hb, h⟩
    · -- the new element itself: nothing stands behind it yet
      have hdrop : (l ++ [a]).drop (l.length + 1) = [] := by simp
      rw [getElem?_pending_concat_length, List.getElem?_concat_length, hdrop]
      constructor
      · rintro ⟨ho, rfl⟩
        exact ⟨⟨a, rfl, ho⟩, b.neverBelow_nil, rfl⟩
      · rintro ⟨⟨x, hx, ho⟩, -, h⟩
        obtain rfl := Option.some.inj hx
        exact ⟨ho, by simpa using h.symm⟩
    · -- an index behind the list: on neither side
      have hlen : (l ++ [a]).length ≤ i := by
        rw [List.length_append, List.length_singleton]
        exact hi
      constructor
      · intro h
        exact absurd (b.lt_length_of_getElem?_pending h) (by omega)
      · rintro ⟨⟨x, hx, -⟩, -⟩
        rw [List.getElem?_eq_none hlen] at hx
        exact absurd hx (by simp)

/-- The stack is strictly decreasing from the top. -/
theorem pairwise_pending (l : List α) : (b.pending l).Pairwise (· > ·) := by
  induction l using List.reverseRecOn with
  | nil => exact List.Pairwise.nil
  | append_singleton l a ih =>
    rw [pending_concat]
    -- a new opener has the greatest index of all
    by_cases ho : b.opens a = true
    · rw [push_of_opens b ho]
      refine List.Pairwise.cons (fun i hi => ?_) ih
      obtain ⟨d, hd⟩ := List.mem_iff_getElem?.mp hi
      exact b.lt_length_of_getElem?_pending hd
    -- taking the first one away, or nothing, keeps the order
    · by_cases hc : b.closes a = true
      · rw [push_of_closes b hc]
        exact ih.tail
      · rw [push_of_neither b ho hc]
        exact ih

theorem nodup_pending (l : List α) : (b.pending l).Nodup :=
  (b.pairwise_pending l).imp fun h => (Nat.ne_of_lt h).symm

/-! ### What the stack says about counts and partners -/

/-- A prefix and the element behind it. -/
theorem take_succ_of_getElem? {l : List α} {j : Nat} {x : α} (h : l[j]? = some x) :
    l.take (j + 1) = l.take j ++ [x] := by
  rw [List.take_add_one, h]
  rfl

/-- As long as no closer found it empty, the stack is as deep as openers exceed closers. -/
theorem length_pending {l : List α} (h : b.NeverBelow l) :
    (b.pending l).length + b.closers l = b.openers l := by
  induction l using List.reverseRecOn with
  | nil => rfl
  | append_singleton l a ih =>
    obtain ⟨hl, ha⟩ := (b.neverBelow_concat l a).mp h
    have hlen := ih hl
    -- the closer is counted on the left, and below nothing it would have nothing to take away
    rw [openers_concat, closers_concat] at ha
    rw [pending_concat, openers_concat, closers_concat]
    by_cases ho : b.opens a = true
    · rw [push_of_opens b ho, if_pos ho, b.disjoint a ho, List.length_cons]
      simp only [Bool.false_eq_true, if_false]
      omega
    · by_cases hc : b.closes a = true
      · rw [if_neg ho, if_pos hc] at ha
        rw [push_of_closes b hc, if_neg ho, if_pos hc, List.length_tail]
        omega
      · rw [push_of_neither b ho hc, if_neg ho, if_neg hc]
        exact hlen

/-- The prefix condition holds exactly if no closer finds the stack empty. -/
theorem neverBelow_iff_pending_ne_nil (l : List α) :
    b.NeverBelow l ↔ ∀ p a, p ++ [a] <+: l → b.closes a = true → b.pending p ≠ [] := by
  induction l using List.reverseRecOn with
  | nil => simp [neverBelow_nil]
  | append_singleton l a ih =>
    rw [neverBelow_concat, ih]
    constructor
    · rintro ⟨hl, ha⟩ p x hp hx
      rcases List.prefix_concat_iff.mp hp with heq | hp
      · -- with an empty stack the totals are equal, and the closer would exceed them
        obtain ⟨rfl, rfl⟩ : p = l ∧ x = a := by simpa using heq
        intro hnil
        have hlen := b.length_pending (ih.mpr hl)
        have ho : ¬ b.opens x = true := fun ho => by simp [b.disjoint x ho] at hx
        rw [openers_concat, closers_concat, if_neg ho, if_pos hx] at ha
        rw [hnil, List.length_nil] at hlen
        omega
      · exact hl p x hp hx
    · intro h
      have hl : ∀ p x, p ++ [x] <+: l → b.closes x = true → b.pending p ≠ [] :=
        fun p x hp => h p x (hp.trans (List.prefix_append l [a]))
      refine ⟨hl, ?_⟩
      have hlen := b.length_pending (ih.mpr hl)
      rw [openers_concat, closers_concat]
      by_cases hc : b.closes a = true
      · have hpos := List.length_pos_of_ne_nil (h l a List.prefix_rfl hc)
        rw [if_pos hc]
        omega
      · rw [if_neg hc]
        omega

/-- A list is balanced exactly if no closer finds the stack empty and the stack is empty at the
end. -/
theorem balanced_iff_pending (l : List α) :
    b.Balanced l ↔ b.NeverBelow l ∧ b.pending l = [] := by
  constructor
  · rintro ⟨hb, ht⟩
    have hlen := b.length_pending hb
    exact ⟨hb, List.eq_nil_of_length_eq_zero (by omega)⟩
  · rintro ⟨hb, hnil⟩
    have hlen := b.length_pending hb
    rw [hnil, List.length_nil] at hlen
    exact ⟨hb, by omega⟩

/-- **What a closer pops is its partner.** -/
theorem pairs_iff_head?_pending (l : List α) (i j : Nat) :
    b.Pairs l i j ↔ (∃ y, l[j]? = some y ∧ b.closes y = true) ∧
      (b.pending (l.take j)).head? = some i := by
  -- the innermost pending opener is one behind which everything is balanced
  rw [List.head?_eq_getElem?, getElem?_pending, Nat.add_zero]
  constructor
  · rintro ⟨hij, ⟨x, hx, ho⟩, hy, hb⟩
    exact ⟨hy, ⟨x, by rw [List.getElem?_take_of_lt hij]; exact hx, ho⟩, hb⟩
  · rintro ⟨hy, ⟨x, hx, ho⟩, hb⟩
    -- the opener stands among the events that are taken, so before the closer
    have hij : i < j := by
      by_contra hle
      rw [List.getElem?_take_eq_none (Nat.le_of_not_lt hle)] at hx
      exact absurd hx (by simp)
    rw [List.getElem?_take_of_lt hij] at hx
    exact ⟨hij, ⟨x, hx, ho⟩, hy, hb⟩

/-- **An opener waits until its partner has come.** -/
theorem mem_pending_take_iff {l : List α} {k : Nat} {x : α} (hx : l[k]? = some x)
    (ho : b.opens x = true) {j : Nat} (hkj : k < j) (hj : j ≤ l.length) :
    k ∈ b.pending (l.take j) ↔ ¬ ∃ m, m < j ∧ b.Pairs l k m := by
  induction j, hkj using Nat.le_induction with
  | base =>
    have hk : k < l.length := hj
    -- right behind the opener its index is on top of the stack
    rw [take_succ_of_getElem? hx, pending_concat, push_of_opens b ho, List.length_take_of_le hk.le]
    refine iff_of_true List.mem_cons_self ?_
    rintro ⟨m, hm, hkm, -⟩
    omega
  | succ j hkj ih =>
    have hjl : j < l.length := hj
    obtain ⟨y, hy⟩ : ∃ y, l[j]? = some y := ⟨_, List.getElem?_eq_getElem hjl⟩
    have hsplit : (∃ m, m < j + 1 ∧ b.Pairs l k m) ↔
        (∃ m, m < j ∧ b.Pairs l k m) ∨ b.Pairs l k j := by
      constructor
      · rintro ⟨m, hm, hp⟩
        rcases Nat.lt_succ_iff_lt_or_eq.mp hm with hm | rfl
        · exact Or.inl ⟨m, hm, hp⟩
        · exact Or.inr hp
      · rintro (⟨m, hm, hp⟩ | hp)
        · exact ⟨m, by omega, hp⟩
        · exact ⟨j, by omega, hp⟩
    rw [hsplit, not_or, ← ih hjl.le, pairs_iff_head?_pending, take_succ_of_getElem? hy,
      pending_concat, List.length_take_of_le hjl.le]
    have hkj' : k ≠ j := by omega
    by_cases hoy : b.opens y = true
    · rw [push_of_opens b hoy]
      simp [hkj', hy, b.disjoint y hoy]
    · by_cases hcy : b.closes y = true
      · -- a closer takes `k` off the stack exactly if `k` is on top
        rw [push_of_closes b hcy]
        have hnd := b.nodup_pending (l.take j)
        cases hst : b.pending (l.take j) with
        | nil => simp
        | cons top rest =>
          rw [hst] at hnd
          have htop : top ∉ rest := (List.nodup_cons.mp hnd).1
          simp only [List.tail_cons, List.mem_cons, List.head?_cons, hy, Option.some.injEq,
            exists_eq_left', hcy, true_and]
          constructor
          · intro hk
            exact ⟨Or.inr hk, fun heq => htop (heq ▸ hk)⟩
          · rintro ⟨rfl | hk, hne⟩
            · exact absurd rfl hne
            · exact hk
      · rw [push_of_neither b hoy hcy]
        simp [hy, hcy]

end Bracket

end ViewLint
