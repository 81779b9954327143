import ViewLint.Balance
import ViewLint.Proofs.Bracket

/-!
# The stacks of the balance pass

What the pass keeps about the events read so far, said without the pass. For a directive family the
answer does not depend on anything else: after every list of events its stack holds the openers that
are pending in the sense of `Bracket.pending`, each with the number of component tags opened before
it (`Pass.run_blocks`). The two counters are counts of events (`Pass.run_extendsSeen`,
`Pass.run_opened`).

The stack of component tags is another matter, because fences take tags off it; what a fence may
take is decided by comparing the number of a tag with the mark of a block, which is comparing their
places in the list (`tagsOpened_take_le_iff`).
-/

namespace ViewLint

/-! ### The brackets of a template -/

/-- The openers and closers of a directive family. -/
def Bracket.family (f : Family) : Bracket Event where
  opens e := e.kind = .opener f
  closes e := e.kind = .closer f
  disjoint e h := by
    rw [of_decide_eq_true h]
    rfl

/-- The opening and closing tags of a component name. -/
def Bracket.component (n : Text) : Bracket Event where
  opens e := e.kind = .openTag ∧ e.name = n
  closes e := e.kind = .closeTag ∧ e.name = n
  disjoint e h := by
    rw [(of_decide_eq_true h).1]
    rfl

namespace Event

/-- The number of extends markers in a list of events. -/
def extendsCount (E : List Event) : Nat := E.countP (·.kind = .extendsMarker)

/-- The number of component tags that a list of events opens. -/
def tagsOpened (E : List Event) : Nat := E.countP (·.kind = .openTag)

/-- The stack entry of the block that the event at `i` opens. -/
def blockAt (E : List Event) (i : Nat) : Option OpenBlock :=
  E[i]?.map fun e => ⟨e.name, e.range, tagsOpened (E.take i)⟩

/-- The stack entry of the component that the event at `k` opens. -/
def componentAt (E : List Event) (k : Nat) : Option OpenComponent :=
  E[k]?.map fun e => ⟨e.name, e.range, tagsOpened (E.take (k + 1))⟩

theorem tagsOpened_concat (E : List Event) (e : Event) :
    tagsOpened (E ++ [e]) = tagsOpened E + if e.kind = .openTag then 1 else 0 := by
  unfold tagsOpened
  rw [List.countP_append, List.countP_singleton]
  simp

theorem extendsCount_concat (E : List Event) (e : Event) :
    extendsCount (E ++ [e]) = extendsCount E + if e.kind = .extendsMarker then 1 else 0 := by
  unfold extendsCount
  rw [List.countP_append, List.countP_singleton]
  simp

/-- Further events leave an entry as it is. -/
theorem blockAt_concat {E : List Event} {i : Nat} (h : i < E.length) (e : Event) :
    blockAt (E ++ [e]) i = blockAt E i := by
  unfold blockAt
  rw [List.getElem?_append_left h, List.take_append_of_le_length h.le]

@[simp] theorem blockAt_concat_length (E : List Event) (e : Event) :
    blockAt (E ++ [e]) E.length = some ⟨e.name, e.range, tagsOpened E⟩ := by
  unfold blockAt
  rw [List.getElem?_concat_length, List.take_left]
  rfl

/-- Further events leave an entry as it is. -/
theorem componentAt_concat {E : List Event} {k : Nat} (h : k < E.length) (e : Event) :
    componentAt (E ++ [e]) k = componentAt E k := by
  unfold componentAt
  rw [List.getElem?_append_left h, List.take_append_of_le_length h]

theorem componentAt_concat_length (E : List Event) {e : Event} (he : e.kind = .openTag) :
    componentAt (E ++ [e]) E.length = some ⟨e.name, e.range, tagsOpened E + 1⟩ := by
  unfold componentAt
  rw [List.getElem?_concat_length, List.take_of_length_le (by simp), tagsOpened_concat, if_pos he]
  rfl

/-- **Numbers and marks compare as places do.** The tag opened at `k` was counted before index `i`
exactly if it stands before it. -/
theorem tagsOpened_take_le_iff {E : List Event} {k : Nat} {x : Event} (hx : E[k]? = some x)
    (ho : x.kind = .openTag) (i : Nat) :
    tagsOpened (E.take (k + 1)) ≤ tagsOpened (E.take i) ↔ k < i := by
  constructor
  · intro h
    by_contra hki
    have hmono : tagsOpened (E.take i) ≤ tagsOpened (E.take k) :=
      (List.take_prefix_take_left (by omega)).sublist.countP_le
    rw [Bracket.take_succ_of_getElem? hx, tagsOpened_concat, if_pos ho] at h
    omega
  · intro h
    exact (List.take_prefix_take_left h).sublist.countP_le

end Event

open Event (extendsCount tagsOpened blockAt componentAt)

/-- Appending an event keeps the entries of all pending indices. -/
theorem Bracket.map_pending_concat {β : Type} (b : Bracket Event) (entry : List Event → Nat → β)
    (hentry : ∀ {E : List Event} {i : Nat}, i < E.length → ∀ e, entry (E ++ [e]) i = entry E i)
    (E : List Event) (e : Event) :
    (b.pending E).map (entry (E ++ [e])) = (b.pending E).map (entry E) := by
  refine List.map_congr_left fun i hi => hentry ?_ e
  obtain ⟨d, hd⟩ := List.mem_iff_getElem?.mp hi
  exact b.lt_length_of_getElem?_pending hd

namespace Pass

/-! ### One event at a time -/

@[simp] theorem report_blocks (p : Pass) (found : List Diagnostic) :
    (p.report found).blocks = p.blocks := rfl

@[simp] theorem report_tags (p : Pass) (found : List Diagnostic) :
    (p.report found).tags = p.tags := rfl

@[simp] theorem report_opened (p : Pass) (found : List Diagnostic) :
    (p.report found).opened = p.opened := rfl

@[simp] theorem report_extendsSeen (p : Pass) (found : List Diagnostic) :
    (p.report found).extendsSeen = p.extendsSeen := rfl

@[simp] theorem report_reported (p : Pass) (found : List Diagnostic) :
    (p.report found).reported = found.reverse ++ p.reported := rfl

@[simp] theorem report_matched (p : Pass) (found : List Diagnostic) :
    (p.report found).matched = p.matched := rfl

theorem run_concat (c : Checkup) (p : Pass) (E : List Event) (e : Event) :
    run c p (E ++ [e]) = apply c (run c p E) e := by
  unfold run
  rw [List.foldl_append, List.foldl_cons, List.foldl_nil]

/-- A closer takes the top off the stack of its own family and leaves the others alone, whether the
stack is empty or not. -/
theorem closeBlock_blocks_get (c : Checkup) (p : Pass) (f : Family) (e : Event) (g : Family) :
    (p.closeBlock c f e).blocks.get g =
      if g = f then (p.blocks.get g).tail else p.blocks.get g := by
  unfold closeBlock
  split
  · next h =>
    -- without an open block the stack of the family is empty, and so is its tail
    by_cases hg : g = f
    · subst hg
      simp [h]
    · simp [hg]
  · next top rest h =>
    -- only the stack of the family loses its top
    by_cases hg : g = f
    · subst hg
      simp [fence, h]
    · simp [fence, hg]

theorem closeBlock_opened (c : Checkup) (p : Pass) (f : Family) (e : Event) :
    (p.closeBlock c f e).opened = p.opened := by
  unfold closeBlock
  split <;> rfl

theorem closeBlock_extendsSeen (c : Checkup) (p : Pass) (f : Family) (e : Event) :
    (p.closeBlock c f e).extendsSeen = p.extendsSeen := by
  unfold closeBlock
  split <;> rfl

/-- An event moves the stack of a family as its bracket moves the pending indices. -/
theorem apply_blocks_get (c : Checkup) (p : Pass) (e : Event) (f : Family) :
    (apply c p e).blocks.get f =
      if e.kind = .opener f then ⟨e.name, e.range, p.opened⟩ :: p.blocks.get f
      else if e.kind = .closer f then (p.blocks.get f).tail else p.blocks.get f := by
  unfold apply
  -- the kinds are taken in the order of the source; only openers and closers touch a stack
  split
  next h => rw [h]; dsimp only; split <;> simp
  next h => rw [h]; simp
  next g h =>
    rw [h]
    by_cases hg : f = g
    · subst hg
      simp
    · simp [hg, Ne.symm hg]
  next h => rw [h]; split <;> simp
  next g h =>
    rw [h, closeBlock_blocks_get]
    by_cases hg : f = g
    · subst hg
      simp
    · simp [hg, Ne.symm hg]
  next h => rw [h]; simp
  next h => rw [h]; unfold closeTag; split <;> simp
  next h => rw [h]; simp

theorem apply_opened (c : Checkup) (p : Pass) (e : Event) :
    (apply c p e).opened = p.opened + if e.kind = .openTag then 1 else 0 := by
  unfold apply
  split
  next h => rw [h]; dsimp only; split <;> rfl
  next h => rw [h]; rfl
  next h => rw [h]; rfl
  next h => rw [h]; split <;> rfl
  next h => rw [h, closeBlock_opened]; rfl
  next h => rw [h]; rfl
  next h => rw [h]; unfold closeTag; split <;> rfl
  next h => rw [h]; rfl

theorem apply_extendsSeen (c : Checkup) (p : Pass) (e : Event) :
    (apply c p e).extendsSeen = p.extendsSeen + if e.kind = .extendsMarker then 1 else 0 := by
  unfold apply
  split
  next h => rw [h]; dsimp only; split <;> rfl
  next h => rw [h]; rfl
  next h => rw [h]; rfl
  next h => rw [h]; split <;> rfl
  next h => rw [h, closeBlock_extendsSeen]; rfl
  next h => rw [h]; rfl
  next h => rw [h]; unfold closeTag; split <;> rfl
  next h => rw [h]; rfl

/-! ### Whole runs -/

theorem run_extendsSeen (c : Checkup) (E : List Event) :
    (run c {} E).extendsSeen = extendsCount E := by
  induction E using List.reverseRecOn with
  | nil => rfl
  | append_singleton E e ih => rw [run_concat, apply_extendsSeen, Event.extendsCount_concat, ih]

theorem run_opened (c : Checkup) (E : List Event) : (run c {} E).opened = tagsOpened E := by
  induction E using List.reverseRecOn with
  | nil => rfl
  | append_singleton E e ih => rw [run_concat, apply_opened, Event.tagsOpened_concat, ih]

/-- **The stack of a family holds its pending openers**, whatever other events stand between. -/
theorem run_blocks (c : Checkup) (E : List Event) (f : Family) :
    ((run c {} E).blocks.get f).map some = ((Bracket.family f).pending E).map (blockAt E) := by
  induction E using List.reverseRecOn with
  | nil => cases f <;> rfl
  | append_singleton E e ih =>
    have hkeep := (Bracket.family f).map_pending_concat blockAt Event.blockAt_concat E e
    rw [run_concat, apply_blocks_get, Bracket.pending_concat, run_opened]
    -- an opener pushes its own block
    by_cases ho : e.kind = .opener f
    · rw [if_pos ho, Bracket.push_of_opens _ (decide_eq_true ho), List.map_cons, List.map_cons, ih,
        hkeep, Event.blockAt_concat_length]
    -- a closer pops, whether there is something to pop or not
    · by_cases hc : e.kind = .closer f
      · rw [if_neg ho, if_pos hc, Bracket.push_of_closes _ (decide_eq_true hc), List.map_tail, ih,
          List.map_tail, hkeep]
      -- every other event leaves the stack and what is pending
      · rw [if_neg ho, if_neg hc, ih,
          Bracket.push_of_neither _ (by simpa [Bracket.family] using ho)
            (by simpa [Bracket.family] using hc), hkeep]

end Pass

end ViewLint
