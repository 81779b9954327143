import ViewLint.Proofs.Balance.OpenComponents

/-!
# Block fences

A component opened inside a directive block has to be closed inside it. When a block is closed, the
pass closes out the components that were opened after the block and are still open; it finds them by
comparing their numbers with the mark of the block.

Here the lifetime of a component tag is said by places. `Event.Consumes E k m`: the closing tag at
`m` takes the tag at `k` out of what is open. `Event.Fences E k j`: the closer at `j` closes a block
that was opened before the tag at `k`. A tag is open until one of the two happens
(`Event.mem_openComponents_take_iff`), so marks and numbers do what they are there for whatever the
other events are: blocks of different families may cross, and closing tags may take tags out of the
middle of the stack. `Pass.fence_discipline` puts this together with what the pass reports.
-/

namespace ViewLint

/-! ### Finding, erasing and cutting in an ordered list -/

/-- Erasing by a predicate erases what is found by it. -/
theorem eraseP_of_find? {α : Type} [DecidableEq α] {l : List α} {p : α → Bool} {a : α}
    (h : l.find? p = some a) : l.eraseP p = l.erase a := by
  obtain ⟨ha, front, back, rfl, hfront⟩ := List.find?_eq_some_iff_append.mp h
  have hp : ∀ b ∈ front, ¬ p b = true := fun b hb => by simpa using hfront b hb
  have hne : a ∉ front := fun hmem => hp a hmem ha
  rw [List.eraseP_append_right _ hp, List.eraseP_cons_of_pos ha, List.erase_append_right _ hne,
    List.erase_cons_head]

/-- What is found in a descending list is the greatest element with the property. -/
theorem find?_eq_some_iff_greatest {l : List Nat} (h : l.Pairwise (· > ·)) (p : Nat → Bool)
    (a : Nat) :
    l.find? p = some a ↔ a ∈ l ∧ p a = true ∧ ∀ b ∈ l, p b = true → b ≤ a := by
  -- the list is decreasing, so the first element with the property is the greatest
  induction l with
  | nil => simp
  | cons c l ih =>
    obtain ⟨hc, hl⟩ := List.pairwise_cons.mp h
    by_cases hp : p c = true
    · rw [List.find?_cons_of_pos hp]
      constructor
      · rintro ⟨⟩
        refine ⟨List.mem_cons_self, hp, fun b hb _ => ?_⟩
        rcases List.mem_cons.mp hb with rfl | hb
        · exact Nat.le_refl b
        · exact Nat.le_of_lt (hc b hb)
      · rintro ⟨ha, -, hmax⟩
        -- if it were not the first element, this one would be greater
        rcases List.mem_cons.mp ha with rfl | ha
        · rfl
        · exact absurd (hmax c List.mem_cons_self hp) (Nat.not_le_of_lt (hc a ha))
    · rw [List.find?_cons_of_neg hp, ih hl, List.mem_cons]
      constructor
      · rintro ⟨ha, hpa, hmax⟩
        refine ⟨Or.inr ha, hpa, fun b hb hpb => ?_⟩
        rcases List.mem_cons.mp hb with rfl | hb
        · exact absurd hpb hp
        · exact hmax b hb hpb
      -- the first element does not have the property, so it bounds nothing
      · rintro ⟨rfl | ha, hpa, hmax⟩
        · exact absurd hpa hp
        · exact ⟨ha, hpa, fun b hb hpb => hmax b (List.mem_cons_of_mem c hb) hpb⟩

/-- If a property passes from an element to all that come after it, the elements that have it come
last. -/
theorem filter_not_append_filter {α : Type} {r : α → α → Prop} {p : α → Bool}
    (hp : ∀ {a b}, r a b → p a = true → p b = true) {l : List α} (h : l.Pairwise r) :
    l.filter (fun a => !p a) ++ l.filter p = l := by
  -- once the property holds it holds for the rest of the list
  induction l with
  | nil => rfl
  | cons a l ih =>
    obtain ⟨ha, hl⟩ := List.pairwise_cons.mp h
    by_cases hpa : p a = true
    · have hall : ∀ b ∈ a :: l, p b = true := by
        intro b hb
        rcases List.mem_cons.mp hb with rfl | hb
        · exact hpa
        · exact hp (ha b hb) hpa
      rw [List.filter_eq_self.mpr hall, List.filter_eq_nil_iff.mpr fun b hb => by simp [hall b hb],
        List.nil_append]
    · rw [List.filter_cons_of_pos (by simpa using hpa), List.filter_cons_of_neg hpa, List.cons_append,
        ih hl]

/-- What is below a bound comes last in a descending list. -/
theorem filter_lt_suffix {l : List Nat} (h : l.Pairwise (· > ·)) (i : Nat) :
    l.filter (· < i) <:+ l := by
  refine ⟨_, filter_not_append_filter (fun {a b} hab ha => ?_) h⟩
  exact decide_eq_true (Nat.lt_trans hab (of_decide_eq_true ha))

namespace Event

/-- The closing tag at `m` consumes the component opened at `k`: it is open before it and not
after it. -/
def Consumes (E : List Event) (k m : Nat) : Prop :=
  (∃ y, E[m]? = some y ∧ y.kind = .closeTag) ∧
    k ∈ openComponents (E.take m) ∧ k ∉ openComponents (E.take (m + 1))

/-- The closer at `j` fences the component opened at `k`: the block that it closes was opened before
the component. -/
def Fences (E : List Event) (k j : Nat) : Prop :=
  ∃ f i, (Bracket.family f).Pairs E i j ∧ i < k ∧ k < j

/-! ### One event later -/

theorem openComponents_take_succ {E : List Event} {j : Nat} {e : Event} (he : E[j]? = some e) :
    openComponents (E.take (j + 1)) = nextOpen (E.take j) e (openComponents (E.take j)) := by
  rw [Bracket.take_succ_of_getElem? he, openComponents_concat]

/-- A closer that has its opener leaves what was opened before it. -/
theorem openComponents_take_of_pairs {E : List Event} {f : Family} {i j : Nat}
    (h : (Bracket.family f).Pairs E i j) :
    openComponents (E.take (j + 1)) = (openComponents (E.take j)).filter (· < i) := by
  obtain ⟨⟨y, hy, hc⟩, hhead⟩ := ((Bracket.family f).pairs_iff_head?_pending E i j).mp h
  rw [openComponents_take_succ hy, nextOpen, of_decide_eq_true hc]
  dsimp only
  rw [hhead]

theorem lt_of_mem_openComponents_take {E : List Event} {j k : Nat}
    (h : k ∈ openComponents (E.take j)) : k < j :=
  Nat.lt_of_lt_of_le (lt_length_of_mem_openComponents h) (List.length_take_le j E)

theorem named_take {E : List Event} {j k : Nat} (n : Text) (h : k < j) :
    named (E.take j) n k = named E n k := by
  unfold named
  rw [List.getElem?_take_of_lt h]

theorem componentAt_take {E : List Event} {j k : Nat} (h : k < j) :
    componentAt (E.take j) k = componentAt E k := by
  unfold componentAt
  rw [List.getElem?_take_of_lt h, List.take_take, Nat.min_eq_left h]

/-- What a closing tag consumes is what a search from the top finds. -/
theorem consumes_iff_find? {E : List Event} {m : Nat} {y : Event} (hy : E[m]? = some y)
    (hc : y.kind = .closeTag) (k : Nat) :
    Consumes E k m ↔ (openComponents (E.take m)).find? (named (E.take m) y.name) = some k := by
  have hnext : openComponents (E.take (m + 1)) =
      (openComponents (E.take m)).eraseP (named (E.take m) y.name) := by
    rw [openComponents_take_succ hy, nextOpen, hc]
  unfold Consumes
  rw [hnext]
  constructor
  · rintro ⟨-, hk, hgone⟩
    -- something is erased, and that is what is found
    cases hf : (openComponents (E.take m)).find? (named (E.take m) y.name) with
    | none =>
      rw [List.eraseP_of_forall_not (List.find?_eq_none.mp hf)] at hgone
      exact absurd hk hgone
    | some k' =>
      rw [eraseP_of_find? hf] at hgone
      by_contra hne
      exact hgone ((List.mem_erase_of_ne fun h => hne (congrArg some h.symm)).mpr hk)
  · intro hf
    rw [eraseP_of_find? hf]
    exact ⟨⟨y, hy, hc⟩, List.mem_of_find?_eq_some hf,
      (nodup_openComponents _).not_mem_erase⟩

/-- **A closing tag consumes the most recent open component of its name.** -/
theorem consumes_iff {E : List Event} {m : Nat} {y : Event} (hy : E[m]? = some y)
    (hc : y.kind = .closeTag) (k : Nat) :
    Consumes E k m ↔ k ∈ openComponents (E.take m) ∧ named E y.name k = true ∧
      ∀ k' ∈ openComponents (E.take m), named E y.name k' = true → k' ≤ k := by
  have hcongr : (openComponents (E.take m)).find? (named (E.take m) y.name) =
      (openComponents (E.take m)).find? (named E y.name) := by
    rw [← List.head?_filter, ← List.head?_filter, List.filter_congr fun k hk =>
      named_take y.name (lt_of_mem_openComponents_take hk)]
  rw [consumes_iff_find? hy hc, hcongr, find?_eq_some_iff_greatest (pairwise_openComponents _)]

/-- A closing tag consumes an opening tag of its name that stands before it. -/
theorem Consumes.tags {E : List Event} {k m : Nat} (h : Consumes E k m) :
    k < m ∧ ∃ x y, E[k]? = some x ∧ x.kind = .openTag ∧ E[m]? = some y ∧ y.kind = .closeTag ∧
      x.name = y.name := by
  obtain ⟨y, hy, hc⟩ := h.1
  obtain ⟨hk, hname, -⟩ := (consumes_iff hy hc k).mp h
  have hlt := lt_of_mem_openComponents_take hk
  obtain ⟨x, hx, ho⟩ := openTag_of_mem_openComponents hk
  rw [List.getElem?_take_of_lt hlt] at hx
  rw [named, hx] at hname
  exact ⟨hlt, x, y, hx, ho, hy, hc, eq_of_beq hname⟩

/-- **What ends the life of a component.** An event other than its own tag leaves it open unless it
consumes or fences it. -/
theorem mem_openComponents_take_succ_iff {E : List Event} {j k : Nat} (hkj : k ≠ j) :
    k ∈ openComponents (E.take (j + 1)) ↔
      k ∈ openComponents (E.take j) ∧ ¬ Consumes E k j ∧ ¬ Fences E k j := by
  cases he : E[j]? with
  | none =>
    -- behind the list nothing happens any more
    have hlen := List.getElem?_eq_none_iff.mp he
    have htake : E.take (j + 1) = E.take j := by
      rw [List.take_of_length_le (Nat.le_succ_of_le hlen), List.take_of_length_le hlen]
    rw [htake]
    refine ⟨fun hk => ⟨hk, ?_, ?_⟩, fun hk => hk.1⟩
    · rintro ⟨⟨y, hy, -⟩, -⟩
      rw [he] at hy
      cases hy
    · rintro ⟨f, i, ⟨-, -, ⟨y, hy, -⟩, -⟩, -⟩
      rw [he] at hy
      cases hy
  | some e =>
    have hnext := openComponents_take_succ he
    have hlen : (E.take j).length = j :=
      List.length_take_of_le (List.getElem?_eq_some_iff.mp he).1.le
    constructor
    · intro h
      refine ⟨?_, fun hcons => hcons.2.2 h, ?_⟩
      · rw [hnext] at h
        by_cases ho : e.kind = .openTag
        · rw [nextOpen, ho] at h
          rcases List.mem_cons.mp h with rfl | h
          · exact absurd hlen hkj
          · exact h
        · exact (nextOpen_sublist _ ho _).subset h
      · rintro ⟨f, i, hpairs, hik, -⟩
        rw [openComponents_take_of_pairs hpairs, List.mem_filter] at h
        exact absurd (of_decide_eq_true h.2) (Nat.lt_asymm hik)
    · rintro ⟨hk, hcons, hfence⟩
      unfold nextOpen at hnext
      cases hkind : e.kind with
      | openTag =>
        rw [hnext, hkind]
        exact List.mem_cons_of_mem _ hk
      | closeTag =>
        by_contra hgone
        exact hcons ⟨⟨e, he, hkind⟩, hk, hgone⟩
      | closer f =>
        rw [hnext, hkind]
        dsimp only
        cases hhead : ((Bracket.family f).pending (E.take j)).head? with
        | none => exact hk
        | some i =>
          have hpairs : (Bracket.family f).Pairs E i j :=
            ((Bracket.family f).pairs_iff_head?_pending E i j).mpr
              ⟨⟨e, he, decide_eq_true hkind⟩, hhead⟩
          have hne := ne_of_mem_openComponents hhead hk
          have hle : ¬ i < k := fun hik =>
            hfence ⟨f, i, hpairs, hik, lt_of_mem_openComponents_take hk⟩
          exact List.mem_filter.mpr ⟨hk, decide_eq_true (by omega)⟩
      | _ =>
        rw [hnext, hkind]
        exact hk

/-- **The lifetime of a component tag.** It is open after its own place as long as nothing has
consumed or fenced it. -/
theorem mem_openComponents_take_iff {E : List Event} {k : Nat} {x : Event} (hx : E[k]? = some x)
    (ho : x.kind = .openTag) (j : Nat) :
    k ∈ openComponents (E.take j) ↔ k < j ∧ ∀ m < j, ¬ Consumes E k m ∧ ¬ Fences E k m := by
  induction j with
  | zero => simp
  | succ j ih =>
    rw [Nat.forall_lt_succ_right]
    by_cases hkj : k = j
    · -- right behind its place the tag is open, and nothing could have taken it before
      subst hkj
      have hlen : (E.take k).length = k :=
        List.length_take_of_le (List.getElem?_eq_some_iff.mp hx).1.le
      have hearly : ∀ m ≤ k, ¬ Consumes E k m ∧ ¬ Fences E k m := by
        refine fun m hm => ⟨?_, ?_⟩
        · rintro ⟨-, hmem, -⟩
          exact absurd (lt_of_mem_openComponents_take hmem) (Nat.not_lt_of_le hm)
        · rintro ⟨f, i, -, -, hlt⟩
          exact absurd hlt (Nat.not_lt_of_le hm)
      refine iff_of_true ?_
        ⟨Nat.lt_succ_self k, fun m hm => hearly m hm.le, hearly k (Nat.le_refl k)⟩
      rw [openComponents_take_succ hx, nextOpen, ho, hlen]
      exact List.mem_cons_self
    · rw [mem_openComponents_take_succ_iff hkj, ih, and_assoc]
      refine and_congr_left fun _ => ?_
      omega

/-- The components that the closer at `j` takes when it closes the block opened at `i`. -/
def fenced (E : List Event) (i j : Nat) : List Nat := (openComponents (E.take j)).filter (i < ·)

theorem mem_fenced_iff {E : List Event} {i j k : Nat} :
    k ∈ fenced E i j ↔ k ∈ openComponents (E.take j) ∧ i < k := by
  unfold fenced
  rw [List.mem_filter, decide_eq_true_eq]

end Event

open Event (openComponents componentAt named Consumes Fences fenced)

namespace Pass

/-- **The closing of a block** opened at `i` by the closer at `j`. -/
structure ClosesBlock (c : Checkup) (E : List Event) (i j : Nat) : Prop where
  /-- The components that stop being open are those that were opened inside the block. -/
  taken : ∀ k ∈ openComponents (E.take j), k ∉ openComponents (E.take (j + 1)) ↔ i < k ∧ k < j
  /-- They are all reported at this moment, oldest first, and nothing else is. -/
  found : (run c {} (E.take (j + 1))).found =
    (run c {} (E.take j)).found ++ (fenced E i j).reverse.filterMap (unclosedAt c E)
  /-- The components opened before the block stay, all of them and in their order. -/
  kept : openComponents (E.take (j + 1)) = (openComponents (E.take j)).filter (· < i)
  /-- They keep their places, counted from the bottom of the stack. -/
  places : (run c {} (E.take (j + 1))).tags <:+ (run c {} (E.take j)).tags
  /-- The block is recorded. -/
  recorded : ∃ x y, E[i]? = some x ∧ E[j]? = some y ∧
    (run c {} (E.take (j + 1))).pairs = (run c {} (E.take j)).pairs ++ [⟨x.name, x.range, y.range⟩]
  /-- No later closing tag consumes a component from inside the block. -/
  final : ∀ k m, i < k → k < j → j < m → ¬ Consumes E k m

/-- The stack of the pass in the middle of a list. -/
theorem run_tags_take (c : Checkup) (E : List Event) (j : Nat) :
    (run c {} (E.take j)).tags = (openComponents (E.take j)).filterMap (componentAt E) := by
  rw [run_tags]
  exact List.filterMap_congr fun k hk =>
    Event.componentAt_take (Event.lt_of_mem_openComponents_take hk)

theorem closesBlock (c : Checkup) {E : List Event} {f : Family} {i j : Nat}
    (h : (Bracket.family f).Pairs E i j) : ClosesBlock c E i j := by
  have hkept := Event.openComponents_take_of_pairs h
  obtain ⟨⟨y, hy, hc⟩, hhead⟩ := ((Bracket.family f).pairs_iff_head?_pending E i j).mp h
  obtain ⟨x, hx, -⟩ := h.2.1
  obtain ⟨hfound, hpairs⟩ := run_closer c (of_decide_eq_true hc) hhead
    ((List.getElem?_take_of_lt h.1).trans hx)
  rw [← Bracket.take_succ_of_getElem? hy] at hfound hpairs
  refine ⟨fun k hk => ?_, ?_, hkept, ?_, ⟨x, y, hx, hy, hpairs⟩, fun k m hik hkj hjm hcons => ?_⟩
  · have hne := Event.ne_of_mem_openComponents hhead hk
    have hlt := Event.lt_of_mem_openComponents_take hk
    rw [hkept, List.mem_filter, decide_eq_true_eq]
    constructor
    · intro hgone
      have hle : ¬ k < i := fun hki => hgone ⟨hk, hki⟩
      omega
    · rintro ⟨hik, -⟩ ⟨-, hki⟩
      omega
  · rw [hfound]
    refine congrArg _ (List.filterMap_congr fun k hk => ?_)
    have hk' := (Event.mem_fenced_iff.mp (List.mem_reverse.mp hk)).1
    exact congrArg _ (Event.componentAt_take (Event.lt_of_mem_openComponents_take hk'))
  · obtain ⟨front, hfront⟩ := filter_lt_suffix (Event.pairwise_openComponents (E.take j)) i
    rw [run_tags_take, run_tags_take, hkept]
    refine ⟨front.filterMap (componentAt E), ?_⟩
    rw [← List.filterMap_append, hfront]
  · -- a component that is consumed at `m` is open at `m`, so nothing has fenced it before
    obtain ⟨z, hz, ho⟩ := Event.openTag_of_mem_openComponents hcons.2.1
    have hkm : k < m := Event.lt_of_mem_openComponents_take hcons.2.1
    rw [List.getElem?_take_of_lt hkm] at hz
    have hlife := (Event.mem_openComponents_take_iff hz ho m).mp hcons.2.1
    exact (hlife.2 j hjm).2 ⟨f, i, h, hik, hkj⟩

/-- **Block fence discipline.** For every list of events:

* after every number of events the stack of the pass holds the components that are open, and these
  are the opening tags that nothing has consumed or fenced yet;
* a closer that has its opener takes what was opened inside the block and leaves everything else;
* a component that no closing tag consumes is taken by the first closer after it that closes a block
  opened before it, and by no other; it is open at the end, and is reported there, exactly if there
  is no such closer;
* a closing tag consumes the most recent open component of its name. -/
theorem fence_discipline (c : Checkup) (E : List Event) :
    (∀ j, (run c {} (E.take j)).tags = (openComponents (E.take j)).filterMap (componentAt E)) ∧
    (∀ j k, k ∈ openComponents (E.take j) ↔ (∃ x, E[k]? = some x ∧ x.kind = .openTag) ∧ k < j ∧
      ∀ m < j, ¬ Consumes E k m ∧ ¬ Fences E k m) ∧
    (∀ f i j, (Bracket.family f).Pairs E i j → ClosesBlock c E i j) ∧
    (∀ k x, E[k]? = some x → x.kind = .openTag → (∀ m, ¬ Consumes E k m) →
      (∀ f i j, (Bracket.family f).Pairs E i j →
        (k ∈ fenced E i j ↔ i < k ∧ k < j ∧ ∀ j' < j, ¬ Fences E k j')) ∧
      (k ∈ openComponents E ↔ ∀ j, ¬ Fences E k j)) ∧
    (balance c E).found = (run c {} E).found ++
      Family.all.flatMap (fun f => ((run c {} E).blocks.get f).reverse.map c.unclosedDirective) ++
      (openComponents E).reverse.filterMap (unclosedAt c E) ∧
    (∀ m y, E[m]? = some y → y.kind = .closeTag → ∀ k, Consumes E k m ↔
      k ∈ openComponents (E.take m) ∧ named E y.name k = true ∧
        ∀ k' ∈ openComponents (E.take m), named E y.name k' = true → k' ≤ k) := by
  refine ⟨run_tags_take c E, fun j k => ⟨fun hk => ?_, ?_⟩, fun f i j h => closesBlock c h, ?_,
    balance_found c E, fun m y hy hc => Event.consumes_iff hy hc⟩
  · obtain ⟨x, hx, ho⟩ := Event.openTag_of_mem_openComponents hk
    rw [List.getElem?_take_of_lt (Event.lt_of_mem_openComponents_take hk)] at hx
    exact ⟨⟨x, hx, ho⟩, (Event.mem_openComponents_take_iff hx ho j).mp hk⟩
  · rintro ⟨⟨x, hx, ho⟩, hlife⟩
    exact (Event.mem_openComponents_take_iff hx ho j).mpr hlife
  · intro k x hx ho hcons
    have hlife := Event.mem_openComponents_take_iff hx ho
    have hk : k < E.length := (List.getElem?_eq_some_iff.mp hx).1
    refine ⟨fun f i j h => ?_, ?_⟩
    · rw [Event.mem_fenced_iff, hlife]
      constructor
      · rintro ⟨⟨hkj, hopen⟩, hik⟩
        exact ⟨hik, hkj, fun j' hj' => (hopen j' hj').2⟩
      · rintro ⟨hik, hkj, hopen⟩
        exact ⟨⟨hkj, fun j' hj' => ⟨hcons j', hopen j' hj'⟩⟩, hik⟩
    · have hend := hlife E.length
      rw [List.take_length] at hend
      rw [hend]
      constructor
      · -- a fence needs its closer in the list
        rintro ⟨-, hopen⟩ j ⟨f, i, h, hik, hkj⟩
        obtain ⟨-, -, ⟨y, hy, -⟩, -⟩ := id h
        exact (hopen j (List.getElem?_eq_some_iff.mp hy).1).2 ⟨f, i, h, hik, hkj⟩
      · exact fun hopen => ⟨hk, fun j _ => ⟨hcons j, hopen j⟩⟩

/-- Blocks of two families cross: a condition, a loop with a component in it, and the end of the
condition before that of the loop. The component is closed out with the condition. -/
example :
    let event (kind : Event.Kind) (column : Int) : Event :=
      ⟨kind, Text.ofString "a", .onLine 0 column (column + 1)⟩
    let E := [event .openTag 0, event (.opener .conditional) 1, event (.opener .loop) 2,
      event .openTag 3, event (.closer .conditional) 4, event (.closer .loop) 5]
    fenced E 1 4 = [3] ∧ fenced E 2 5 = [] ∧ openComponents E = [0] := by
  decide

end Pass

end ViewLint
