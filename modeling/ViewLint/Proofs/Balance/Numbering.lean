import ViewLint.Proofs.Balance.Fences

/-!
# The numbering of the stacks

A fence tells the components opened inside a block from those opened before it by comparing numbers
with the mark of the block. Components leave their stack from the top and from the middle, and each
of the three stacks of blocks holds marks into what that stack once was. What makes the comparison
safe is an order that every event keeps (`Pass.Numbered`):

* the numbers of the open components fall from the most recent to the oldest, and they are among
  those given out so far;
* the marks of the open blocks of a family do not rise from the innermost to the outermost, and none
  is ahead of the count.

Three things follow for the moves of the pass. A fence cuts the stack in two and takes the upper part
(`Pass.CutsAt`), closing an outer block leaves no more open than closing an inner one would have left
(`Pass.CutsAt.suffix`), and a closing tag takes out one entry and no other (`Pass.TakesOne`).
`Pass.stacks_stay_numbered` says all this of every run.
-/

namespace ViewLint

namespace Pass

/-! ### The invariant -/

/-- **The stacks are numbered.** Stacks are read from the most recent entry to the oldest. -/
structure Numbered (p : Pass) : Prop where
  /-- A component has a greater number than every component opened before it. -/
  numbers : p.tags.Pairwise fun later earlier => earlier.number < later.number
  /-- Numbers count from one, and end with the number of components opened so far. -/
  counted : ∀ t ∈ p.tags, 1 ≤ t.number ∧ t.number ≤ p.opened
  /-- A block has a mark at least as great as every block of its family around it. -/
  marks : ∀ f, (p.blocks.get f).Pairwise fun inner outer => outer.mark ≤ inner.mark
  /-- Marks count from zero, and go up to the number of components opened so far. -/
  marked : ∀ f, ∀ b ∈ p.blocks.get f, b.mark ≤ p.opened

theorem numbered_start : Numbered {} where
  numbers := List.Pairwise.nil
  counted := by simp
  marks f := by cases f <;> exact List.Pairwise.nil
  marked f := by cases f <;> simp [OpenBlocks.get]

/-- Only an opening tag adds to the stack of components. -/
theorem apply_tags_sublist (c : Checkup) (p : Pass) {e : Event} (he : e.kind ≠ .openTag) :
    (apply c p e).tags.Sublist p.tags := by
  rw [apply_tags]
  cases hk : e.kind with
  | openTag => exact absurd hk he
  -- the component that is closed leaves the stack
  | closeTag => exact List.eraseP_sublist
  | closer f =>
    -- what a fence takes leaves the stack
    dsimp only
    split
    · exact List.Sublist.refl _
    · exact List.filter_sublist
  | _ => exact List.Sublist.refl _

/-- Only an opener of the family adds to its stack. -/
theorem apply_blocks_get_sublist (c : Checkup) (p : Pass) {e : Event} {f : Family}
    (he : e.kind ≠ .opener f) : ((apply c p e).blocks.get f).Sublist (p.blocks.get f) := by
  rw [apply_blocks_get, if_neg he]
  split
  · exact List.tail_sublist _
  · exact List.Sublist.refl _

theorem le_apply_opened (c : Checkup) (p : Pass) (e : Event) : p.opened ≤ (apply c p e).opened := by
  rw [apply_opened]
  exact Nat.le_add_right _ _

namespace Numbered

variable {p : Pass}

/-- The stack of components, one event later: a new component has a number that nothing had. -/
theorem tags_apply (h : Numbered p) (c : Checkup) (e : Event) :
    ((apply c p e).tags.Pairwise fun later earlier => earlier.number < later.number) ∧
      ∀ t ∈ (apply c p e).tags, 1 ≤ t.number ∧ t.number ≤ (apply c p e).opened := by
  -- a new component has the greatest number of all
  by_cases he : e.kind = .openTag
  · rw [apply_tags, apply_opened, he, if_pos rfl]
    refine ⟨List.Pairwise.cons (fun t ht => Nat.lt_succ_of_le (h.counted t ht).2) h.numbers, ?_⟩
    intro t ht
    rcases List.mem_cons.mp ht with rfl | ht
    · exact ⟨Nat.le_add_left _ _, Nat.le_refl _⟩
    · obtain ⟨hone, hle⟩ := h.counted t ht
      exact ⟨hone, Nat.le_succ_of_le hle⟩
  -- without an opening the stack only shrinks, and the count of openings does not fall
  · have hsub := apply_tags_sublist c p he
    refine ⟨h.numbers.sublist hsub, fun t ht => ?_⟩
    obtain ⟨hone, hle⟩ := h.counted t (hsub.subset ht)
    exact ⟨hone, hle.trans (le_apply_opened c p e)⟩

/-- The stack of a family, one event later: a new block has the count for its mark. -/
theorem blocks_apply (h : Numbered p) (c : Checkup) (e : Event) (f : Family) :
    (((apply c p e).blocks.get f).Pairwise fun inner outer => outer.mark ≤ inner.mark) ∧
      ∀ b ∈ (apply c p e).blocks.get f, b.mark ≤ (apply c p e).opened := by
  have hle := le_apply_opened c p e
  by_cases he : e.kind = .opener f
  -- the mark of a new block is the present count, which bounds the marks before it
  · rw [apply_blocks_get, if_pos he]
    refine ⟨List.Pairwise.cons (h.marked f) (h.marks f), fun b hb => ?_⟩
    rcases List.mem_cons.mp hb with rfl | hb
    · exact hle
    · exact (h.marked f b hb).trans hle
  -- otherwise the stack of the family only shrinks
  · have hsub := apply_blocks_get_sublist c p he
    exact ⟨(h.marks f).sublist hsub, fun b hb => (h.marked f b (hsub.subset hb)).trans hle⟩

/-- **Every event keeps the numbering.** -/
theorem apply (h : Numbered p) (c : Checkup) (e : Event) : Numbered (p.apply c e) where
  numbers := (h.tags_apply c e).1
  counted := (h.tags_apply c e).2
  marks f := (h.blocks_apply c e f).1
  marked f := (h.blocks_apply c e f).2

/-- Every list of events keeps the numbering. -/
theorem run (h : Numbered p) (c : Checkup) (E : List Event) : Numbered (Pass.run c p E) := by
  induction E using List.reverseRecOn with
  | nil => exact h
  | append_singleton E e ih =>
    rw [run_concat]
    exact ih.apply c e

end Numbered

/-- Every state that the pass reaches is numbered. -/
theorem run_numbered (c : Checkup) (E : List Event) : Numbered (run c {} E) := numbered_start.run c E

/-! ### Cutting the stack of components -/

/-- From `p` to `q` the stack of components has been cut at a mark. -/
structure CutsAt (c : Checkup) (mark : Nat) (p q : Pass) : Prop where
  /-- The upper part is gone, all of it opened after the mark, and is reported, oldest first. -/
  upper : ∃ taken, p.tags = taken ++ q.tags ∧ (∀ t ∈ taken, mark < t.number) ∧
    q.found = p.found ++ taken.reverse.map c.unclosedTag
  /-- The lower part stays, all of it opened before the mark. -/
  lower : ∀ t ∈ q.tags, t.number ≤ mark

/-- A fence leaves the components whose numbers are up to the mark. -/
theorem mem_fence_tags_iff {c : Checkup} {p : Pass} {mark : Nat} {t : OpenComponent} :
    t ∈ (p.fence c mark).tags ↔ t ∈ p.tags ∧ t.number ≤ mark := by
  rw [fence, List.mem_filter, decide_eq_true_eq]

/-- The mark decides what a cut leaves. -/
theorem CutsAt.tags_eq {c : Checkup} {mark : Nat} {p q : Pass} (h : CutsAt c mark p q) :
    q.tags = (p.fence c mark).tags := by
  obtain ⟨taken, hparts, htaken, -⟩ := h.upper
  have hgone : taken.filter (·.number ≤ mark) = [] :=
    List.filter_eq_nil_iff.mpr fun t ht => by simpa using htaken t ht
  have hkept : q.tags.filter (·.number ≤ mark) = q.tags :=
    List.filter_eq_self.mpr fun t ht => decide_eq_true (h.lower t ht)
  change q.tags = p.tags.filter (·.number ≤ mark)
  rw [hparts, List.filter_append, hgone, hkept, List.nil_append]

/-- A fence at a mark takes everything that a fence at a greater mark takes. -/
theorem fence_fence_tags (c : Checkup) (p : Pass) {m n : Nat} (h : m ≤ n) :
    ((p.fence c n).fence c m).tags = (p.fence c m).tags := by
  change (p.tags.filter (·.number ≤ n)).filter (·.number ≤ m) = p.tags.filter (·.number ≤ m)
  rw [List.filter_filter]
  refine List.filter_congr fun t _ => ?_
  rw [Bool.eq_iff_iff, Bool.and_eq_true, decide_eq_true_eq, decide_eq_true_eq]
  exact and_iff_left_of_imp fun ht => ht.trans h

namespace Numbered

variable {p : Pass}

/-- **A fence cuts the stack.** -/
theorem cutsAt_fence (h : Numbered p) (c : Checkup) (mark : Nat) :
    CutsAt c mark p (p.fence c mark) where
  upper := by
    -- older components have smaller numbers, so those up to the mark lie at the bottom
    have hparts := filter_not_append_filter (p := fun t => decide (t.number ≤ mark))
      (fun {a b} hab ha => decide_eq_true (hab.le.trans (of_decide_eq_true ha))) h.numbers
    have htaken : p.tags.filter (fun t => !decide (t.number ≤ mark)) =
        p.tags.filter (mark < ·.number) := by
      refine List.filter_congr fun t _ => ?_
      rw [← decide_not, decide_eq_decide, Nat.not_le]
    rw [htaken] at hparts
    exact ⟨_, hparts.symm, fun t ht => of_decide_eq_true (List.mem_filter.mp ht).2,
      p.report_found _⟩
  lower t ht := (mem_fence_tags_iff.mp ht).2

/-- A closer that finds a block cuts the stack at the mark of the block. -/
theorem cutsAt_closer (h : Numbered p) (c : Checkup) {e : Event} {f : Family} {top : OpenBlock}
    {rest : List OpenBlock} (he : e.kind = .closer f) (htop : p.blocks.get f = top :: rest) :
    CutsAt c top.mark p (p.apply c e) := by
  -- closing the block is taking it from its stack, fencing, and noting the pair
  have hclose : p.apply c e =
      { { p with blocks := p.blocks.set f rest }.fence c top.mark with
        matched := ⟨top.name, top.range, e.range⟩ :: p.matched } := by
    rw [Pass.apply, he]
    dsimp only
    rw [closeBlock, htop]
    rfl
  obtain ⟨hupper, hlower⟩ := h.cutsAt_fence c top.mark
  rw [hclose]
  exact ⟨hupper, hlower⟩

/-- What a fence leaves is numbered. -/
theorem fence (h : Numbered p) (c : Checkup) (mark : Nat) : Numbered (p.fence c mark) where
  numbers := h.numbers.sublist List.filter_sublist
  counted t ht := h.counted t (mem_fence_tags_iff.mp ht).1
  marks := h.marks
  marked := h.marked

end Numbered

/-- **The greater mark keeps more.** What a cut leaves is the lower part of what a cut at a greater
mark leaves. -/
theorem CutsAt.suffix {c : Checkup} {m n : Nat} {p q r : Pass} (hq : CutsAt c m p q)
    (hr : CutsAt c n p r) (h : Numbered p) (hmn : m ≤ n) : q.tags <:+ r.tags := by
  -- after the cut at the greater mark, the other one cuts the stack once more
  obtain ⟨taken, hparts, -⟩ := ((h.fence c n).cutsAt_fence c m).upper
  rw [fence_fence_tags c p hmn, ← hq.tags_eq, ← hr.tags_eq] at hparts
  exact ⟨taken, hparts.symm⟩

/-! ### Taking one component out of the stack -/

/-- From `p` to `q` one component of the name has left the stack, and nothing else has changed. -/
def TakesOne (n : Text) (p q : Pass) : Prop :=
  ∃ above t below, p.tags = above ++ t :: below ∧ q = { p with tags := above ++ below } ∧
    t.name = n ∧ (∀ u ∈ above, u.name ≠ n) ∧ ∀ u ∈ above ++ below, u.number ≠ t.number

/-- A closing tag that finds an open component of its name takes one. -/
theorem Numbered.takesOne {p : Pass} (h : Numbered p) (c : Checkup) {e : Event}
    (he : e.kind = .closeTag) (hopen : ∃ t ∈ p.tags, t.name = e.name) :
    TakesOne e.name p (p.apply c e) := by
  obtain ⟨t, ht, hname⟩ := hopen
  obtain ⟨t, above, below, habove, hfound, hsplit, herase⟩ :=
    List.exists_of_eraseP (p := fun t : OpenComponent => t.name == e.name) ht (beq_iff_eq.mpr hname)
  have happly : p.apply c e = { p with tags := p.tags.eraseP (·.name == e.name) } := by
    rw [Pass.apply, he]
    exact if_pos (List.any_eq_true.mpr ⟨t, by rw [hsplit]; simp, hfound⟩)
  refine ⟨above, t, below, hsplit, by rw [happly, herase], beq_iff_eq.mp hfound,
    fun u hu hn => habove u hu (beq_iff_eq.mpr hn), fun u hu => ?_⟩
  -- the numbers above are greater, and those below are smaller
  have hnumbers := h.numbers
  rw [hsplit] at hnumbers
  obtain ⟨-, hbelow, hacross⟩ := List.pairwise_append.mp hnumbers
  rcases List.mem_append.mp hu with hu | hu
  · exact (hacross u hu t List.mem_cons_self).ne'
  · exact ((List.pairwise_cons.mp hbelow).1 u hu).ne

/-- A closing tag that finds no open component of its name is reported and changes nothing else. -/
theorem apply_closeTag_of_forall_ne (c : Checkup) {p : Pass} {e : Event} (he : e.kind = .closeTag)
    (hnone : ∀ t ∈ p.tags, t.name ≠ e.name) :
    p.apply c e = p.report [⟨e.range, .unmatchedTag e.name⟩] := by
  rw [Pass.apply, he]
  refine if_neg fun hany => ?_
  obtain ⟨t, ht, hname⟩ := List.any_eq_true.mp hany
  exact hnone t ht (beq_iff_eq.mp hname)

/-! ### The main result -/

/-- **The stacks stay numbered.** In every state that the pass reaches from its start:

* the stacks are numbered;
* a fence, at whatever mark, cuts the stack of components in two, and so does the closer of a block
  at the mark of the block;
* of two open blocks of a family, a cut at the mark of the outer one keeps no component that a cut at
  the mark of the inner one would take, whether now or at any later time;
* a closing tag takes out exactly one component of its name, and the others keep their order, unless
  no component of its name is open; then it is reported and nothing else changes. -/
theorem stacks_stay_numbered (c : Checkup) (E : List Event) :
    Numbered (run c {} E) ∧
    (∀ mark, CutsAt c mark (run c {} E) ((run c {} E).fence c mark)) ∧
    (∀ f e top rest, e.kind = .closer f → (run c {} E).blocks.get f = top :: rest →
      CutsAt c top.mark (run c {} E) (run c {} (E ++ [e]))) ∧
    (∀ f, ((run c {} E).blocks.get f).Pairwise fun inner outer => ∀ later q r,
      CutsAt c outer.mark (run c {} (E ++ later)) q → CutsAt c inner.mark (run c {} (E ++ later)) r →
        q.tags <:+ r.tags) ∧
    (∀ e, e.kind = .closeTag →
      TakesOne e.name (run c {} E) (run c {} (E ++ [e])) ∨
      (∀ t ∈ (run c {} E).tags, t.name ≠ e.name) ∧
        run c {} (E ++ [e]) = (run c {} E).report [⟨e.range, .unmatchedTag e.name⟩]) := by
  -- every state of a run is numbered, so what is said of one numbered state holds along the run
  have h := run_numbered c E
  refine ⟨h, h.cutsAt_fence c, fun f e top rest he htop => ?_, fun f => ?_, fun e he => ?_⟩
  · rw [run_concat]
    exact h.cutsAt_closer c he htop
  -- an outer block has a smaller mark, and so its cut goes deeper
  · exact (h.marks f).imp fun hle later q r hq hr =>
      hq.suffix hr (run_numbered c (E ++ later)) hle
  · rw [run_concat]
    by_cases hopen : ∃ t ∈ (run c {} E).tags, t.name = e.name
    · -- the innermost component with the name is taken
      exact Or.inl (h.takesOne c he hopen)
    · have hnone : ∀ t ∈ (run c {} E).tags, t.name ≠ e.name := fun t ht hn => hopen ⟨t, ht, hn⟩
      -- there is nothing to close, and the tag is unmatched
      exact Or.inr ⟨hnone, apply_closeTag_of_forall_ne c he hnone⟩

/-- The component that is closed was opened first and lies at the bottom of the stack, below the two
inside the blocks. Its number is gone, and the marks still tell the others apart. -/
example :
    let event (kind : Event.Kind) (name : String) : Event :=
      ⟨kind, Text.ofString name, .onLine 0 0 1⟩
    let p := run ⟨⟨[]⟩, 20⟩ {} [event .openTag "a", event (.opener .conditional) "if",
      event .openTag "b", event (.opener .loop) "foreach", event .openTag "c", event .closeTag "a"]
    p.opened = 3 ∧ p.tags.map (·.number) = [3, 2] ∧
      (p.blocks.get .conditional).map (·.mark) = [1] ∧ (p.blocks.get .loop).map (·.mark) = [2] := by
  decide

end Pass

end ViewLint
