import ViewLint.Proofs.Balance.Stacks

/-!
# The open components

Which component tags are open after a list of events, said by their indices. A tag is open from its
place on until a closing tag of its name takes it, or until a block that was opened before it is
closed (`Event.openComponents`). There are no marks and no numbers in this, and which closer closes
which block is a matter of brackets.

`Pass.run_tags` says that the stack of the pass holds the entries of the open components, in their
order: to compare numbers with the mark of a block is to compare places (`Event.filter_number_le`,
`Event.filter_lt_number`). What a closer and the end of the document report follows
(`Pass.run_closer`, `Pass.balance_found`).
-/

namespace ViewLint

/-! ### Reading a list from first to last -/

/-- Folds a list that is given from its last element back; a step sees what comes before it. -/
def foldFrontRev {α β : Type} (step : List α → α → β → β) (start : β) : List α → β
  | [] => start
  | a :: l => step l.reverse a (foldFrontRev step start l)

/-- Folds a list from its first element on; a step sees what comes before it. -/
def foldFront {α β : Type} (step : List α → α → β → β) (start : β) (l : List α) : β :=
  foldFrontRev step start l.reverse

@[simp] theorem foldFront_nil {α β : Type} (step : List α → α → β → β) (start : β) :
    foldFront step start [] = start := rfl

theorem foldFront_concat {α β : Type} (step : List α → α → β → β) (start : β) (l : List α) (a : α) :
    foldFront step start (l ++ [a]) = step l a (foldFront step start l) := by
  unfold foldFront
  rw [List.reverse_append, List.reverse_singleton, List.singleton_append, foldFrontRev,
    List.reverse_reverse]

/-- The families, in the order in which open blocks are reported. -/
def Family.all : List Family := [.conditional, .loop, .sections]

namespace Event

/-- Has the event at an index this name? -/
def named (E : List Event) (n : Text) (k : Nat) : Bool := E[k]?.any (·.name == n)

/-- What is open after the event `e`, if `stack` is open after the events `E` before it. -/
def nextOpen (E : List Event) (e : Event) (stack : List Nat) : List Nat :=
  match e.kind with
  | .openTag => E.length :: stack
  | .closeTag => stack.eraseP (named E e.name)
  | .closer f =>
    match ((Bracket.family f).pending E).head? with
    | some i => stack.filter (· < i)
    | none => stack
  | _ => stack

/-- **The open components** of a list of events: the indices of their tags, most recent first. -/
def openComponents : List Event → List Nat := foldFront nextOpen []

@[simp] theorem openComponents_nil : openComponents [] = [] := rfl

theorem openComponents_concat (E : List Event) (e : Event) :
    openComponents (E ++ [e]) = nextOpen E e (openComponents E) := foldFront_concat _ _ E e

/-- Only an opening tag adds to what is open. -/
theorem nextOpen_sublist (E : List Event) {e : Event} (he : e.kind ≠ .openTag) (stack : List Nat) :
    (nextOpen E e stack).Sublist stack := by
  unfold nextOpen
  cases hk : e.kind with
  | openTag => exact absurd hk he
  -- the component that is closed goes
  | closeTag => exact List.eraseP_sublist
  | closer f =>
    dsimp only
    split
    -- a fence only takes components away
    · exact List.filter_sublist
    · exact List.Sublist.refl _
  | _ => exact List.Sublist.refl _

/-- What is open is an opening tag. -/
theorem openTag_of_mem_openComponents {E : List Event} {k : Nat} (h : k ∈ openComponents E) :
    ∃ x, E[k]? = some x ∧ x.kind = .openTag := by
  induction E using List.reverseRecOn with
  | nil => cases h
  | append_singleton E e ih =>
    -- what was opened before was opened by an event that is still there
    have hold : k ∈ openComponents E → ∃ x, (E ++ [e])[k]? = some x ∧ x.kind = .openTag := by
      intro hk
      obtain ⟨x, hx, ho⟩ := ih hk
      refine ⟨x, ?_, ho⟩
      rw [List.getElem?_append_left (List.getElem?_eq_some_iff.mp hx).1, hx]
    rw [openComponents_concat] at h
    by_cases he : e.kind = .openTag
    -- the new event opens a component of its own
    · unfold nextOpen at h
      rw [he] at h
      rcases List.mem_cons.mp h with rfl | h
      · exact ⟨e, List.getElem?_concat_length, he⟩
      · exact hold h
    · -- every other event leaves the stack as it is, or takes from it
      exact hold ((nextOpen_sublist E he _).subset h)

theorem lt_length_of_mem_openComponents {E : List Event} {k : Nat} (h : k ∈ openComponents E) :
    k < E.length := by
  obtain ⟨x, hx, -⟩ := openTag_of_mem_openComponents h
  exact (List.getElem?_eq_some_iff.mp hx).1

/-- The most recent tag comes first. -/
theorem pairwise_openComponents (E : List Event) : (openComponents E).Pairwise (· > ·) := by
  induction E using List.reverseRecOn with
  | nil => exact List.Pairwise.nil
  | append_singleton E e ih =>
    rw [openComponents_concat]
    by_cases he : e.kind = .openTag
    · unfold nextOpen
      rw [he]
      exact List.Pairwise.cons (fun k hk => lt_length_of_mem_openComponents hk) ih
    · exact ih.sublist (nextOpen_sublist E he _)

theorem nodup_openComponents (E : List Event) : (openComponents E).Nodup :=
  (pairwise_openComponents E).imp fun h => (Nat.ne_of_lt h).symm

end Event

open Event (openComponents componentAt blockAt tagsOpened named nextOpen)

/-! ### The stack of the pass -/

namespace Pass

@[simp] theorem report_found (p : Pass) (ds : List Diagnostic) :
    (p.report ds).found = p.found ++ ds := by
  unfold found report
  rw [List.reverse_append, List.reverse_reverse]

@[simp] theorem report_pairs (p : Pass) (ds : List Diagnostic) :
    (p.report ds).pairs = p.pairs := rfl

/-- **What an event does to the stack of tags.** -/
theorem apply_tags (c : Checkup) (p : Pass) (e : Event) :
    (apply c p e).tags =
      match e.kind with
      | .openTag => ⟨e.name, e.range, p.opened + 1⟩ :: p.tags
      | .closeTag => p.tags.eraseP (·.name == e.name)
      | .closer f => match p.blocks.get f with
        | [] => p.tags
        | top :: _ => p.tags.filter (·.number ≤ top.mark)
      | _ => p.tags := by
  unfold apply
  cases e.kind with
  | extendsMarker =>
    dsimp only
    split <;> rfl
  | elseBranch =>
    dsimp only
    split <;> rfl
  | closer f =>
    dsimp only
    unfold closeBlock
    cases p.blocks.get f <;> rfl
  | closeTag =>
    dsimp only
    unfold closeTag
    split
    · rfl
    · next h =>
      -- without a tag of the name there is nothing to erase
      refine (List.eraseP_of_forall_not fun t ht hn => h ?_).symm
      exact List.any_eq_true.mpr ⟨t, ht, hn⟩
  | doubleAt => rfl
  | opener f => rfl
  | openTag => rfl
  | selfClosedTag => rfl

/-- The stack of a family holds the entries of its pending openers. -/
theorem run_blocks_get (c : Checkup) (E : List Event) (f : Family) :
    (run c {} E).blocks.get f = ((Bracket.family f).pending E).filterMap (blockAt E) := by
  have h := congrArg (List.filterMap id) (run_blocks c E f)
  rwa [List.filterMap_map, List.filterMap_map, Function.id_comp, Function.id_comp,
    List.filterMap_some] at h

end Pass

namespace Event

/-- The entry of an open component. -/
theorem componentAt_of_mem_openComponents {E : List Event} {k : Nat} (hk : k ∈ openComponents E) :
    ∃ x, E[k]? = some x ∧ x.kind = .openTag ∧
      componentAt E k = some ⟨x.name, x.range, tagsOpened (E.take (k + 1))⟩ := by
  obtain ⟨x, hx, ho⟩ := openTag_of_mem_openComponents hk
  refine ⟨x, hx, ho, ?_⟩
  unfold componentAt
  rw [hx]
  rfl

/-- The entry of a pending opener. -/
theorem blockAt_of_head?_pending {E : List Event} {f : Family} {i : Nat}
    (hi : ((Bracket.family f).pending E).head? = some i) :
    ∃ x, E[i]? = some x ∧ x.kind = .opener f ∧
      blockAt E i = some ⟨x.name, x.range, tagsOpened (E.take i)⟩ := by
  rw [List.head?_eq_getElem?, Bracket.getElem?_pending] at hi
  obtain ⟨⟨x, hx, ho⟩, -⟩ := hi
  refine ⟨x, hx, of_decide_eq_true ho, ?_⟩
  unfold blockAt
  rw [hx]
  rfl

/-- The opener of a block and an open component stand at different places. -/
theorem ne_of_mem_openComponents {E : List Event} {f : Family} {i k : Nat}
    (hi : ((Bracket.family f).pending E).head? = some i) (hk : k ∈ openComponents E) : k ≠ i := by
  rintro rfl
  obtain ⟨x, hx, ho⟩ := openTag_of_mem_openComponents hk
  obtain ⟨y, hy, hyo, -⟩ := blockAt_of_head?_pending hi
  obtain rfl := Option.some.inj (hx.symm.trans hy)
  rw [hyo] at ho
  cases ho

/-- Comparing numbers with the mark of a block is comparing places: the tags that a fence keeps. -/
theorem filter_number_le {E : List Event} {i : Nat} :
    ((openComponents E).filterMap (componentAt E)).filter (·.number ≤ tagsOpened (E.take i)) =
      ((openComponents E).filter (· < i)).filterMap (componentAt E) := by
  rw [List.filter_filterMap, List.filterMap_filter]
  refine List.filterMap_congr fun k hk => ?_
  obtain ⟨x, hx, ho, hat⟩ := componentAt_of_mem_openComponents hk
  have hiff := tagsOpened_take_le_iff hx ho i
  rw [hat]
  by_cases hki : k < i
  · simp [hki, hiff.mpr hki]
  · simp [hki, Nat.lt_of_not_le (mt hiff.mp hki)]

/-- The tags that a fence takes. -/
theorem filter_lt_number {E : List Event} {f : Family} {i : Nat}
    (hi : ((Bracket.family f).pending E).head? = some i) :
    ((openComponents E).filterMap (componentAt E)).filter (tagsOpened (E.take i) < ·.number) =
      ((openComponents E).filter (i < ·)).filterMap (componentAt E) := by
  -- the two lists are the same component by component, because a number says how many were opened
  -- before
  rw [List.filter_filterMap, List.filterMap_filter]
  refine List.filterMap_congr fun k hk => ?_
  obtain ⟨x, hx, ho, hat⟩ := componentAt_of_mem_openComponents hk
  have hiff := tagsOpened_take_le_iff hx ho i
  have hne := ne_of_mem_openComponents hi hk
  rw [hat]
  by_cases hki : i < k
  · simp [hki, Nat.lt_of_not_le (mt hiff.mp (Nat.lt_asymm hki))]
  · simp [hki, hiff.mpr (Nat.lt_of_le_of_ne (Nat.le_of_not_lt hki) hne)]

/-- Erasing by the name of an entry is erasing by the name of its event. -/
theorem eraseP_name (E : List Event) (n : Text) :
    ((openComponents E).filterMap (componentAt E)).eraseP (·.name == n) =
      ((openComponents E).eraseP (named E n)).filterMap (componentAt E) := by
  rw [List.eraseP_filterMap]
  congr 2
  funext k
  unfold componentAt named
  cases E[k]? <;> rfl

/-- One more event leaves the entries of the open components as they are. -/
theorem filterMap_componentAt_concat {E : List Event} (e : Event) {stack : List Nat}
    (h : stack ⊆ openComponents E) :
    stack.filterMap (componentAt (E ++ [e])) = stack.filterMap (componentAt E) :=
  List.filterMap_congr fun _ hk => componentAt_concat (lt_length_of_mem_openComponents (h hk)) e

end Event

namespace Pass

/-- **The stack of the pass holds the open components.** -/
theorem run_tags (c : Checkup) (E : List Event) :
    (run c {} E).tags = (openComponents E).filterMap (componentAt E) := by
  induction E using List.reverseRecOn with
  | nil => rfl
  | append_singleton E e ih =>
    rw [run_concat, apply_tags, ih, Event.openComponents_concat]
    by_cases he : e.kind = .openTag
    · rw [he]
      unfold nextOpen
      rw [he, List.filterMap_cons_some (Event.componentAt_concat_length E he), run_opened,
        Event.filterMap_componentAt_concat e (List.Subset.refl _)]
    · rw [Event.filterMap_componentAt_concat e (Event.nextOpen_sublist E he _).subset]
      unfold nextOpen
      cases hk : e.kind with
      | openTag => exact absurd hk he
      | closeTag => exact Event.eraseP_name E e.name
      | closer f =>
        dsimp only
        rw [run_blocks_get]
        cases hp : (Bracket.family f).pending E with
        | nil => rfl
        | cons i is =>
          -- the mark of the top block is the number of tags opened before it
          obtain ⟨y, -, -, hat⟩ := Event.blockAt_of_head?_pending (E := E) (f := f) (i := i)
            (by rw [hp]; rfl)
          rw [List.filterMap_cons_some hat]
          exact Event.filter_number_le
      | _ => rfl

/-- What is reported for the component opened at `k` if it is closed out. -/
def unclosedAt (c : Checkup) (E : List Event) (k : Nat) : Option Diagnostic :=
  (componentAt E k).map c.unclosedTag

/-- **What the closer of a block does.** The components opened inside the block are reported, oldest
first, and the block is recorded. -/
theorem run_closer (c : Checkup) {E : List Event} {e : Event} {f : Family} {i : Nat} {x : Event}
    (he : e.kind = .closer f) (hi : ((Bracket.family f).pending E).head? = some i)
    (hx : E[i]? = some x) :
    (run c {} (E ++ [e])).found = (run c {} E).found ++
        ((openComponents E).filter (i < ·)).reverse.filterMap (unclosedAt c E) ∧
      (run c {} (E ++ [e])).pairs = (run c {} E).pairs ++ [⟨x.name, x.range, e.range⟩] := by
  -- the pending opener that is closed is the first one
  obtain ⟨is, hp⟩ : ∃ is, (Bracket.family f).pending E = i :: is := by
    cases hp : (Bracket.family f).pending E with
    | nil =>
      rw [hp] at hi
      cases hi
    | cons j js =>
      rw [hp] at hi
      exact ⟨js, by rw [Option.some.inj hi]⟩
  obtain ⟨y, hy, -, hat⟩ := Event.blockAt_of_head?_pending hi
  obtain rfl := Option.some.inj (hx.symm.trans hy)
  -- the top of the stack is the block of this opener, with the count of openings before it as its
  -- mark
  have htop : (run c {} E).blocks.get f =
      ⟨x.name, x.range, tagsOpened (E.take i)⟩ :: is.filterMap (blockAt E) := by
    rw [run_blocks_get, hp, List.filterMap_cons_some hat]
  have hclose : run c {} (E ++ [e]) = (run c {} E).closeBlock c f e := by
    rw [run_concat, apply, he]
  -- above the mark are the components that were opened behind the opener
  have htaken : ((run c {} E).tags.filter (tagsOpened (E.take i) < ·.number)).reverse.map
      c.unclosedTag = ((openComponents E).filter (i < ·)).reverse.filterMap (unclosedAt c E) := by
    rw [run_tags, Event.filter_lt_number hi, ← List.filterMap_reverse, List.map_filterMap]
    rfl
  rw [hclose, closeBlock, htop, ← htaken]
  unfold found pairs fence
  simp

/-- **What the end of the document adds.** The blocks of each family and then the components that
are still open are reported, each from the oldest to the most recent. -/
theorem balance_found (c : Checkup) (E : List Event) :
    (balance c E).found = (run c {} E).found ++
      Family.all.flatMap (fun f => ((run c {} E).blocks.get f).reverse.map c.unclosedDirective) ++
      (openComponents E).reverse.filterMap (unclosedAt c E) := by
  have htags : (run c {} E).tags.reverse.map c.unclosedTag =
      (openComponents E).reverse.filterMap (unclosedAt c E) := by
    rw [run_tags, ← List.filterMap_reverse, List.map_filterMap]
    rfl
  rw [← htags]
  unfold balance finish found
  simp [Family.all]

end Pass

end ViewLint
