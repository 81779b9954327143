import ViewLint.Proofs.Balance.Stacks

/-!
# When the balance pass has nothing to report

`Event.Clean` says of a list of events that its directives and component tags are in order, by
counting openers and closers and by matching them last in, first out; it does not mention the pass.
`balance_found_eq_nil_iff_clean` proves that the pass reports nothing exactly on clean lists.

The proof reads both sides event by event. `Event.Quiet E e` is the condition under which the event
`e` is handled without a report after the events `E`, in terms of the indices that are pending after
`E`. As long as every event has been quiet, fences have taken nothing, so the stack of component
tags still holds, for every name, exactly the pending tags of that name (`Pass.TracksTags`). This is
the invariant: a quiet event preserves it (`Pass.tracksTags_apply`), and under it an event is
handled without a report exactly if it is quiet (`Pass.apply_reported_eq_nil_iff`). What is left is
to read quietness of all events as cleanness, which is the theory of brackets.
-/

namespace ViewLint

open Event (extendsCount tagsOpened blockAt componentAt)

namespace Event

/-- **A clean list of events.** -/
structure Clean (E : List Event) : Prop where
  /-- At most one extends marker. -/
  extends_le : extendsCount E ≤ 1
  /-- No run of `@`. -/
  no_doubleAt : ∀ e ∈ E, e.kind ≠ .doubleAt
  /-- No prefix has more closers of a family than openers, and the totals are equal. -/
  families : ∀ f, (Bracket.family f).Balanced E
  /-- An else branch stands inside a conditional block. -/
  else_inside : ∀ p e, p ++ [e] <+: E → e.kind = .elseBranch →
    (Bracket.family .conditional).closers p < (Bracket.family .conditional).openers p
  /-- No prefix has more closing tags of a name than opening ones, and the totals are equal. -/
  components : ∀ n, (Bracket.component n).Balanced E
  /-- A component opened inside a block is closed inside it. -/
  fenced : ∀ f i j, (Bracket.family f).Pairs E i j →
    ∀ k e, i < k → k < j → E[k]? = some e → e.kind = .openTag →
      ∃ m, m < j ∧ (Bracket.component e.name).Pairs E k m

/-- The event `e` is in order after the events `E`. -/
def Quiet (E : List Event) (e : Event) : Prop :=
  match e.kind with
  | .extendsMarker => extendsCount E = 0
  | .doubleAt => False
  | .opener _ | .openTag | .selfClosedTag => True
  | .elseBranch => (Bracket.family .conditional).pending E ≠ []
  | .closer f => ∃ i, ((Bracket.family f).pending E).head? = some i ∧
      ∀ n k, k ∈ (Bracket.component n).pending E → k < i
  | .closeTag => (Bracket.component e.name).pending E ≠ []

/-- A pending tag is the opening tag of its component. -/
theorem openTag_of_mem_pending {E : List Event} {n : Text} {k : Nat}
    (h : k ∈ (Bracket.component n).pending E) :
    ∃ x, E[k]? = some x ∧ x.kind = .openTag ∧ x.name = n := by
  obtain ⟨d, hd⟩ := List.mem_iff_getElem?.mp h
  obtain ⟨⟨x, hx, ho⟩, -⟩ := ((Bracket.component n).getElem?_pending E d k).mp hd
  exact ⟨x, hx, of_decide_eq_true ho⟩

end Event

namespace Pass

/-! ### The invariant -/

/-- The stack of component tags holds, for every name, the pending tags of that name. -/
def TracksTags (p : Pass) (E : List Event) : Prop :=
  ∀ n, (p.tags.filter (·.name == n)).map some =
    ((Bracket.component n).pending E).map (componentAt E)

/-- The open tags are the pending ones. -/
theorem TracksTags.mem_iff {p : Pass} {E : List Event} (h : p.TracksTags E) (t : OpenComponent) :
    t ∈ p.tags ↔ ∃ k, k ∈ (Bracket.component t.name).pending E ∧ componentAt E k = some t := by
  have hmem : t ∈ p.tags ↔ some t ∈ (p.tags.filter (·.name == t.name)).map some := by simp
  rw [hmem, h t.name, List.mem_map]

/-- A name has an open tag exactly if it has a pending one. -/
theorem TracksTags.any_name_iff {p : Pass} {E : List Event} (h : p.TracksTags E) (n : Text) :
    p.tags.any (·.name == n) = true ↔ (Bracket.component n).pending E ≠ [] := by
  have hmap := congrArg List.length (h n)
  rw [List.length_map, List.length_map] at hmap
  rw [← List.length_pos_iff, ← hmap, List.length_filter_pos_iff, List.any_eq_true]

/-- **What a fence would take.** No open tag is numbered above the mark of index `i` exactly if
every pending tag stands before `i`. -/
theorem TracksTags.forall_number_le_iff {p : Pass} {E : List Event} (h : p.TracksTags E) (i : Nat) :
    (∀ t ∈ p.tags, t.number ≤ tagsOpened (E.take i)) ↔
      ∀ n k, k ∈ (Bracket.component n).pending E → k < i := by
  constructor
  · intro hle n k hk
    -- the component that was opened at `k` has as its number the count of openings up to there
    obtain ⟨x, hx, ho, rfl⟩ := Event.openTag_of_mem_pending hk
    have hat : componentAt E k = some ⟨x.name, x.range, tagsOpened (E.take (k + 1))⟩ := by
      unfold componentAt
      rw [hx]
      rfl
    exact (Event.tagsOpened_take_le_iff hx ho i).mp (hle _ ((h.mem_iff _).mpr ⟨k, hk, hat⟩))
  · intro hlt t ht
    -- every open component was opened by some event, whose number says where it stands
    obtain ⟨k, hk, hat⟩ := (h.mem_iff t).mp ht
    obtain ⟨x, hx, ho, -⟩ := Event.openTag_of_mem_pending hk
    unfold componentAt at hat
    rw [hx] at hat
    obtain rfl := Option.some.inj hat
    exact (Event.tagsOpened_take_le_iff hx ho i).mpr (hlt _ k hk)

/-! ### Fences and stacks -/

/-- A fence reports nothing exactly if it takes no tag. -/
theorem fence_reported_eq_nil_iff (c : Checkup) (p : Pass) (mark : Nat) :
    (p.fence c mark).reported = [] ↔ p.reported = [] ∧ ∀ t ∈ p.tags, t.number ≤ mark := by
  unfold fence
  simp only [report_reported, List.append_eq_nil_iff, List.reverse_eq_nil_iff, List.map_eq_nil_iff,
    List.filter_eq_nil_iff, decide_eq_true_eq, Nat.not_lt]
  exact and_comm

/-- A fence that takes no tag leaves the stack as it is. -/
theorem fence_tags_of_forall_le (c : Checkup) {p : Pass} {mark : Nat}
    (h : ∀ t ∈ p.tags, t.number ≤ mark) : (p.fence c mark).tags = p.tags := by
  unfold fence
  exact List.filter_eq_self.mpr fun t ht => decide_eq_true (h t ht)

/-- A family has no open block exactly if it has no pending opener. -/
theorem run_blocks_eq_nil_iff (c : Checkup) (E : List Event) (f : Family) :
    (run c {} E).blocks.get f = [] ↔ (Bracket.family f).pending E = [] := by
  rw [← List.map_eq_nil_iff (f := some), run_blocks, List.map_eq_nil_iff]

/-- The most recent open block of a family is the most recent pending opener, and its mark is the
number of tags opened before it. -/
theorem run_blocks_eq_cons {c : Checkup} {E : List Event} {f : Family} {top : OpenBlock}
    {rest : List OpenBlock} (h : (run c {} E).blocks.get f = top :: rest) :
    ∃ i, ((Bracket.family f).pending E).head? = some i ∧ top.mark = tagsOpened (E.take i) := by
  have hmap := run_blocks c E f
  rw [h, List.map_cons] at hmap
  -- the top of the stack belongs to the innermost pending opener
  cases hp : (Bracket.family f).pending E with
  | nil =>
    rw [hp] at hmap
    exact absurd hmap (by simp)
  | cons i is =>
    rw [hp, List.map_cons] at hmap
    have hat : blockAt E i = some top := (List.cons.inj hmap).1.symm
    obtain ⟨x, -, rfl⟩ := Option.map_eq_some_iff.mp hat
    exact ⟨i, rfl, rfl⟩

/-! ### One event -/

/-- A closer is handled without a report exactly if it has an open block and every pending tag
stands before that block. -/
theorem closeBlock_reported_eq_nil_iff (c : Checkup) {E : List Event} (e : Event) (f : Family)
    (hr : (run c {} E).reported = []) (ht : (run c {} E).TracksTags E) :
    ((run c {} E).closeBlock c f e).reported = [] ↔
      ∃ i, ((Bracket.family f).pending E).head? = some i ∧
        ∀ n k, k ∈ (Bracket.component n).pending E → k < i := by
  unfold closeBlock
  split
  · next h =>
    -- without an open block the closer is unmatched
    rw [(run_blocks_eq_nil_iff c E f).mp h]
    simp
  · next top rest h =>
    -- the fence takes the components above the mark of the block, that is those behind its opener
    obtain ⟨i, hi, hmark⟩ := run_blocks_eq_cons h
    dsimp only
    rw [fence_reported_eq_nil_iff, hi, hmark]
    simp only [hr, true_and, Option.some.injEq, exists_eq_left']
    exact ht.forall_number_le_iff i

/-- Under the invariant, an event is handled without a report exactly if it is quiet. -/
theorem apply_reported_eq_nil_iff (c : Checkup) {E : List Event} (e : Event)
    (hr : (run c {} E).reported = []) (ht : (run c {} E).TracksTags E) :
    (apply c (run c {} E) e).reported = [] ↔ Event.Quiet E e := by
  unfold apply Event.Quiet
  -- which events are found fault with depends on one field of the state each, and what that field
  -- says of the events before is known
  cases e.kind with
  | extendsMarker =>
    dsimp only
    rw [run_extendsSeen]
    by_cases h : extendsCount E = 0
    · simp [h, hr]
    · simp [h]
  | doubleAt => simp
  | opener f => simp [hr]
  | elseBranch =>
    dsimp only
    rw [Ne, ← run_blocks_eq_nil_iff c]
    -- the stack of conditionals is empty just in case none is pending
    by_cases h : (run c {} E).blocks.get .conditional = []
    · simp [h]
    · simp [h, hr]
  | closer f => exact closeBlock_reported_eq_nil_iff c e f hr ht
  | openTag => simp [hr]
  | closeTag =>
    dsimp only
    rw [← ht.any_name_iff]
    unfold closeTag
    -- a component with the name is open just in case one is pending
    by_cases h : (run c {} E).tags.any (·.name == e.name) = true
    · simp [h, hr]
    · simp [h]
  | selfClosedTag => simp [hr]

/-- Erasing the most recent tag of a name takes the top off that name's tags. -/
theorem filter_eraseP_name (tags : List OpenComponent) (n m : Text) :
    (tags.eraseP (·.name == n)).filter (·.name == m) =
      if m = n then (tags.filter (·.name == m)).tail else tags.filter (·.name == m) := by
  induction tags with
  | nil => simp
  | cons t tags ih =>
    by_cases ht : t.name = n
    · subst ht
      -- the first component with the name is the one that goes, so of this name the tail is left
      rw [List.eraseP_cons_of_pos (by simp)]
      by_cases hm : m = t.name
      · simp [hm]
      · simp [hm, Ne.symm hm]
    -- the first component stays, and only what is behind it is searched
    · rw [List.eraseP_cons_of_neg (by simpa using ht), List.filter_cons, List.filter_cons, ih]
      by_cases hm : m = n
      · subst hm
        simp [ht]
      · simp [hm]

/-- An event that is neither an opening nor a closing tag leaves the pending tags alone. -/
theorem map_pending_component_concat {E : List Event} {e : Event} (ho : e.kind ≠ .openTag)
    (hc : e.kind ≠ .closeTag) (n : Text) :
    ((Bracket.component n).pending (E ++ [e])).map (componentAt (E ++ [e])) =
      ((Bracket.component n).pending E).map (componentAt E) := by
  rw [Bracket.pending_concat, Bracket.push_of_neither _ (by simp [Bracket.component, ho])
    (by simp [Bracket.component, hc]),
    Bracket.map_pending_concat _ componentAt Event.componentAt_concat]

/-- A quiet closer leaves the component tags alone: its fence takes none. -/
theorem closeBlock_tags_of_quiet (c : Checkup) {E : List Event} {e : Event} {f : Family}
    (ht : (run c {} E).TracksTags E)
    (hq : ∃ i, ((Bracket.family f).pending E).head? = some i ∧
      ∀ n k, k ∈ (Bracket.component n).pending E → k < i) :
    ((run c {} E).closeBlock c f e).tags = (run c {} E).tags := by
  obtain ⟨i, hi, hlt⟩ := hq
  unfold closeBlock
  split
  · -- without an open block nothing is fenced
    rfl
  · next top rest h =>
    obtain ⟨i', hi', hmark⟩ := run_blocks_eq_cons h
    -- the mark of the block is behind the openers of all open components, so the fence takes none
    obtain rfl : i = i' := Option.some.inj (hi.symm.trans hi')
    refine fence_tags_of_forall_le c ?_
    rw [hmark]
    exact (ht.forall_number_le_iff i).mpr hlt

/-- **The invariant is preserved** by a quiet event. -/
theorem tracksTags_apply (c : Checkup) {E : List Event} {e : Event}
    (ht : (run c {} E).TracksTags E) (hq : Event.Quiet E e) :
    (apply c (run c {} E) e).TracksTags (E ++ [e]) := by
  intro n
  unfold apply
  unfold Event.Quiet at hq
  cases hk : e.kind with
  | extendsMarker =>
    rw [map_pending_component_concat (by simp [hk]) (by simp [hk]), ← ht n]
    dsimp only
    split <;> rfl
  | doubleAt =>
    rw [map_pending_component_concat (by simp [hk]) (by simp [hk]), ← ht n]
    rfl
  | opener f =>
    rw [map_pending_component_concat (by simp [hk]) (by simp [hk]), ← ht n]
  | elseBranch =>
    rw [map_pending_component_concat (by simp [hk]) (by simp [hk]), ← ht n]
    dsimp only
    split <;> rfl
  | closer f =>
    -- the fence of a quiet closer finds no tag to take
    rw [hk] at hq
    rw [map_pending_component_concat (by simp [hk]) (by simp [hk]), ← ht n]
    dsimp only
    rw [closeBlock_tags_of_quiet c ht hq]
  | openTag =>
    -- the new tag is on top of its own name's tags, and in no other name's
    have hkeep := (Bracket.component n).map_pending_concat componentAt Event.componentAt_concat E e
    rw [Bracket.pending_concat, run_opened]
    by_cases hn : e.name = n
    · rw [Bracket.push_of_opens _ (by simp [Bracket.component, hk, hn]), List.map_cons, hkeep,
        Event.componentAt_concat_length E hk, ← ht n]
      simp [hn]
    · rw [Bracket.push_of_neither _ (by simp [Bracket.component, hn])
        (by simp [Bracket.component, hn]), hkeep, ← ht n]
      simp [hn]
  | closeTag =>
    -- a quiet closing tag finds an open tag of its name, and erases the most recent one
    rw [hk] at hq
    have hkeep := (Bracket.component n).map_pending_concat componentAt Event.componentAt_concat E e
    have hany := (ht.any_name_iff e.name).mpr hq
    dsimp only
    rw [closeTag, if_pos hany, Bracket.pending_concat]
    dsimp only
    rw [filter_eraseP_name]
    by_cases hn : n = e.name
    · rw [if_pos hn, Bracket.push_of_closes _ (by simp [Bracket.component, hk, hn]), List.map_tail,
        List.map_tail, hkeep, ht n]
    · rw [if_neg hn, Bracket.push_of_neither _ (by simp [Bracket.component, Ne.symm hn])
        (by simp [Bracket.component, Ne.symm hn]), hkeep, ht n]
  | selfClosedTag =>
    rw [map_pending_component_concat (by simp [hk]) (by simp [hk]), ← ht n]

/-! ### Whole runs -/

/-- What has been reported stays reported. -/
theorem reported_suffix_apply (c : Checkup) (p : Pass) (e : Event) :
    p.reported <:+ (apply c p e).reported := by
  -- a report only adds to what was found
  have hreport : ∀ (q : Pass) (found : List Diagnostic), q.reported <:+ (q.report found).reported :=
    fun q found => List.suffix_append found.reverse q.reported
  unfold apply
  -- no transition does anything to the findings but report
  cases e.kind with
  | extendsMarker =>
    dsimp only
    split
    · exact List.suffix_rfl
    · exact hreport _ _
  | doubleAt => exact hreport _ _
  | opener f => exact List.suffix_rfl
  | elseBranch =>
    dsimp only
    split
    · exact hreport _ _
    · exact List.suffix_rfl
  | closer f =>
    dsimp only
    unfold closeBlock
    split
    · exact hreport _ _
    · exact hreport _ _
  | openTag => exact List.suffix_rfl
  | closeTag =>
    dsimp only
    unfold closeTag
    split
    · exact List.suffix_rfl
    · exact hreport _ _
  | selfClosedTag => exact List.suffix_rfl

/-- **A run reports nothing exactly if every event of it is quiet**, and then the invariant holds at
its end. -/
theorem run_reported_eq_nil_iff (c : Checkup) (E : List Event) :
    ((run c {} E).reported = [] ↔ ∀ p e, p ++ [e] <+: E → Event.Quiet p e) ∧
      ((run c {} E).reported = [] → (run c {} E).TracksTags E) := by
  induction E using List.reverseRecOn with
  | nil =>
    refine ⟨iff_of_true rfl ?_, fun _ n => rfl⟩
    intro p e hp
    exact absurd (List.prefix_nil.mp hp) (by simp)
  | append_singleton E e ih =>
    obtain ⟨ihq, iht⟩ := ih
    rw [run_concat]
    -- a report is never taken back, so that none now means none before
    have hold : (apply c (run c {} E) e).reported = [] → (run c {} E).reported = [] := by
      intro h
      have hs := reported_suffix_apply c (run c {} E) e
      rw [h] at hs
      exact List.suffix_nil.mp hs
    refine ⟨⟨?_, ?_⟩, ?_⟩
    · intro h p x hp
      have hr := hold h
      rcases List.prefix_concat_iff.mp hp with heq | hp
      · obtain ⟨rfl, rfl⟩ : p = E ∧ x = e := by simpa using heq
        exact (apply_reported_eq_nil_iff c x hr (iht hr)).mp h
      · exact ihq.mp hr p x hp
    · intro hq
      have hr := ihq.mpr fun p x hp => hq p x (hp.trans (List.prefix_append E [e]))
      exact (apply_reported_eq_nil_iff c e hr (iht hr)).mpr (hq E e List.prefix_rfl)
    · intro h
      have hr := hold h
      exact tracksTags_apply c (iht hr) ((apply_reported_eq_nil_iff c e hr (iht hr)).mp h)

/-- The end of the document reports nothing exactly if nothing was reported and nothing is open. -/
theorem finish_found_eq_nil_iff (c : Checkup) (p : Pass) :
    (p.finish c).found = [] ↔
      p.reported = [] ∧ (∀ f, p.blocks.get f = []) ∧ p.tags = [] := by
  unfold finish found
  simp only [report_reported, List.reverse_append, List.reverse_reverse, List.append_eq_nil_iff,
    List.reverse_eq_nil_iff, List.map_eq_nil_iff]
  constructor
  · rintro ⟨hr, ⟨⟨hc, hl⟩, hs⟩, ht⟩
    refine ⟨hr, fun f => ?_, ht⟩
    -- the three stacks are reported one after the other, so all of them are empty
    cases f with
    | conditional => exact hc
    | loop => exact hl
    | sections => exact hs
  · rintro ⟨hr, hb, ht⟩
    exact ⟨hr, ⟨⟨hb .conditional, hb .loop⟩, hb .sections⟩, ht⟩

/-- Under the invariant, no tag is open exactly if none is pending. -/
theorem TracksTags.tags_eq_nil_iff {p : Pass} {E : List Event} (h : p.TracksTags E) :
    p.tags = [] ↔ ∀ n, (Bracket.component n).pending E = [] := by
  -- in either direction, an open component is one that is pending for its own name
  constructor
  · intro hnil n
    have hmap := h n
    rw [hnil] at hmap
    exact List.map_eq_nil_iff.mp hmap.symm
  · intro hall
    refine List.eq_nil_iff_forall_not_mem.mpr fun t ht => ?_
    obtain ⟨k, hk, -⟩ := (h.mem_iff t).mp ht
    rw [hall t.name] at hk
    exact absurd hk (by simp)

end Pass

/-! ### Quiet lists are clean lists -/

namespace Event

/-- The prefix that ends with the element at `j`. -/
theorem prefix_take_concat {E : List Event} {j : Nat} {e : Event} (h : E[j]? = some e) :
    E.take j ++ [e] <+: E := by
  rw [← Bracket.take_succ_of_getElem? h]
  exact List.take_prefix (j + 1) E

/-- If no extends marker comes after another one, there is at most one. -/
theorem extendsCount_le_one {E : List Event}
    (h : ∀ p e, p ++ [e] <+: E → e.kind = .extendsMarker → extendsCount p = 0) :
    extendsCount E ≤ 1 := by
  induction E using List.reverseRecOn with
  | nil => exact Nat.zero_le 1
  | append_singleton E e ih =>
    rw [extendsCount_concat]
    by_cases he : e.kind = .extendsMarker
    · rw [if_pos he, h E e List.prefix_rfl he]
    · rw [if_neg he]
      exact ih fun p x hp => h p x (hp.trans (List.prefix_append E [e]))

/-- In a clean list every pending tag stands before the block that a closer closes. -/
theorem Clean.pending_lt {E : List Event} (h : Clean E) {f : Family} {i j : Nat}
    (hij : (Bracket.family f).Pairs E i j) {n : Text} {k : Nat}
    (hk : k ∈ (Bracket.component n).pending (E.take j)) : k < i := by
  have hfence := h.fenced f i j hij
  obtain ⟨-, ⟨x, hx, hxo⟩, ⟨y, hy, -⟩, -⟩ := hij
  obtain ⟨z, hz, hzo, rfl⟩ := openTag_of_mem_pending hk
  have hjl : j < E.length := (List.getElem?_eq_some_iff.mp hy).1
  have hkj : k < j := by
    by_contra hle
    rw [List.getElem?_take_eq_none (Nat.le_of_not_lt hle)] at hz
    exact absurd hz (by simp)
  rw [List.getElem?_take_of_lt hkj] at hz
  by_contra hki
  -- the tag at `k` is not the opener at `i`, so it stands inside the block
  have hne : k ≠ i := by
    rintro rfl
    obtain rfl := Option.some.inj (hz.symm.trans hx)
    rw [of_decide_eq_true hxo] at hzo
    exact absurd hzo (by simp)
  have hclosed := hfence k z (by omega) hkj hz hzo
  have hopen : (Bracket.component z.name).opens z = true := by simp [Bracket.component, hzo]
  exact ((Bracket.component z.name).mem_pending_take_iff hz hopen hkj hjl.le).mp hk hclosed

/-- Every event of a clean list is quiet. -/
theorem Clean.quiet {E : List Event} (h : Clean E) {p : List Event} {e : Event}
    (hp : p ++ [e] <+: E) : Quiet p e := by
  have hpE : p <+: E := (List.prefix_append p [e]).trans hp
  have htake : E.take p.length = p := List.prefix_iff_eq_take.mp hpE |>.symm
  have hget : E[p.length]? = some e := by
    obtain ⟨rest, rfl⟩ := hp
    simp
  unfold Quiet
  cases hk : e.kind with
  | extendsMarker =>
    have hle : extendsCount (p ++ [e]) ≤ 1 := (hp.sublist.countP_le).trans h.extends_le
    rw [extendsCount_concat, if_pos hk] at hle
    change extendsCount p = 0
    omega
  | doubleAt => exact h.no_doubleAt e (hp.subset (by simp)) hk
  | opener f => trivial
  | elseBranch =>
    have hlt := h.else_inside p e hp hk
    have hlen := (Bracket.family .conditional).length_pending fun q hq =>
      (h.families .conditional).1 q (hq.trans hpE)
    exact List.ne_nil_of_length_pos (by omega)
  | closer f =>
    have hc : (Bracket.family f).closes e = true := decide_eq_true hk
    have hne := ((Bracket.family f).neverBelow_iff_pending_ne_nil E).mp (h.families f).1 p e hp hc
    obtain ⟨i, is, hst⟩ := List.exists_cons_of_ne_nil hne
    have hhead : ((Bracket.family f).pending p).head? = some i := by rw [hst]; rfl
    -- what the closer pops is its partner, to which the fence condition applies
    have hpairs : (Bracket.family f).Pairs E i p.length := by
      rw [Bracket.pairs_iff_head?_pending, htake]
      exact ⟨⟨e, hget, hc⟩, hhead⟩
    refine ⟨i, hhead, fun n k hkn => h.pending_lt hpairs (n := n) ?_⟩
    rwa [htake]
  | openTag => trivial
  | closeTag =>
    have hc : (Bracket.component e.name).closes e = true := by simp [Bracket.component, hk]
    exact ((Bracket.component e.name).neverBelow_iff_pending_ne_nil E).mp
      (h.components e.name).1 p e hp hc
  | selfClosedTag => trivial

/-- A list of quiet events that leaves nothing pending is clean. -/
theorem clean_of_quiet {E : List Event} (hq : ∀ p e, p ++ [e] <+: E → Quiet p e)
    (hf : ∀ f, (Bracket.family f).pending E = [])
    (hn : ∀ n, (Bracket.component n).pending E = []) : Clean E := by
  -- what quietness says about an event of a given kind
  have hkind : ∀ {p e k}, p ++ [e] <+: E → e.kind = k → Quiet p { e with kind := k } := by
    rintro p e k hp rfl
    exact hq p e hp
  -- a quiet closer finds its family's stack non-empty
  have hfam : ∀ f, (Bracket.family f).NeverBelow E := by
    intro f
    rw [Bracket.neverBelow_iff_pending_ne_nil]
    intro p e hp hc hnil
    obtain ⟨i, hi, -⟩ := hkind hp (of_decide_eq_true hc)
    rw [hnil] at hi
    exact absurd hi (by simp)
  refine ⟨?_, ?_, ?_, ?_, ?_, ?_⟩
  · exact extendsCount_le_one fun p e hp he => hkind hp he
  · intro e he hk
    obtain ⟨s, t, rfl⟩ := List.append_of_mem he
    exact hkind (p := s) (e := e) ⟨t, by simp⟩ hk
  · exact fun f => ((Bracket.family f).balanced_iff_pending E).mpr ⟨hfam f, hf f⟩
  · intro p e hp he
    have hne : (Bracket.family .conditional).pending p ≠ [] := hkind hp he
    have hlen := (Bracket.family .conditional).length_pending fun q hq' =>
      hfam .conditional q (hq'.trans ((List.prefix_append p [e]).trans hp))
    have hpos := List.length_pos_of_ne_nil hne
    omega
  · intro n
    refine ((Bracket.component n).balanced_iff_pending E).mpr ⟨?_, hn n⟩
    rw [Bracket.neverBelow_iff_pending_ne_nil]
    intro p e hp hc
    obtain ⟨hk, rfl⟩ := of_decide_eq_true hc
    exact hkind hp hk
  · -- a tag opened inside a block is not pending when the block is closed, so it has been closed
    intro f i j hij k e hik hkj hk hke
    obtain ⟨⟨y, hy, hyc⟩, hhead⟩ := ((Bracket.family f).pairs_iff_head?_pending E i j).mp hij
    obtain ⟨i', hi', hlt⟩ := hkind (prefix_take_concat hy) (of_decide_eq_true hyc)
    obtain rfl : i = i' := Option.some.inj (hhead.symm.trans hi')
    have hjl : j < E.length := (List.getElem?_eq_some_iff.mp hy).1
    have hopen : (Bracket.component e.name).opens e = true := by simp [Bracket.component, hke]
    by_contra hno
    have hmem := ((Bracket.component e.name).mem_pending_take_iff hk hopen hkj hjl.le).mpr hno
    exact absurd (hlt e.name k hmem) (by omega)

end Event

/-! ### The main result -/

/-- Self-closed tags do not change the state of the pass. -/
theorem Pass.run_filter_selfClosed (c : Checkup) (p : Pass) (E : List Event) :
    run c p (E.filter (·.kind ≠ .selfClosedTag)) = run c p E := by
  induction E generalizing p with
  | nil => rfl
  | cons e E ih =>
    -- a self-closed tag does nothing, and any other event is kept by the filter
    by_cases he : e.kind = .selfClosedTag
    · have hskip : apply c p e = p := by
        unfold apply
        rw [he]
      rw [List.filter_cons_of_neg (by simp [he]), ih]
      change run c p E = run c (apply c p e) E
      rw [hskip]
    · rw [List.filter_cons_of_pos (by simp [he])]
      exact ih (apply c p e)

/-- **The balance pass is sound and complete.** It reports nothing exactly on the clean lists of
events, and self-closed tags never matter. -/
theorem balance_found_eq_nil_iff_clean (c : Checkup) (E : List Event) :
    ((balance c E).found = [] ↔ Event.Clean E) ∧
      balance c (E.filter (·.kind ≠ .selfClosedTag)) = balance c E := by
  obtain ⟨hquiet, htracks⟩ := Pass.run_reported_eq_nil_iff c E
  refine ⟨?_, congrArg (Pass.finish c) (Pass.run_filter_selfClosed c {} E)⟩
  unfold balance
  rw [Pass.finish_found_eq_nil_iff]
  constructor
  -- a quiet run leaves the stacks as the brackets count them, so at the end they are empty just
  -- in case all brackets are balanced
  · rintro ⟨hr, hb, ht⟩
    exact Event.clean_of_quiet (hquiet.mp hr)
      (fun f => (Pass.run_blocks_eq_nil_iff c E f).mp (hb f))
      ((htracks hr).tags_eq_nil_iff.mp ht)
  · intro h
    have hr := hquiet.mpr fun p e hp => h.quiet hp
    refine ⟨hr, fun f => ?_, ?_⟩
    · rw [Pass.run_blocks_eq_nil_iff]
      exact (((Bracket.family f).balanced_iff_pending E).mp (h.families f)).2
    · rw [(htracks hr).tags_eq_nil_iff]
      exact fun n => (((Bracket.component n).balanced_iff_pending E).mp (h.components n)).2

end ViewLint
