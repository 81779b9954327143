import ViewLint.Proofs.Balance.Conservation
import ViewLint.Proofs.Bracket.Matches
import ViewLint.Proofs.Event.Markers

/-!
# Directive families do not interfere

The three families of directives share one pass, one list of reports and one list of blocks with
each other and with the component tags. Still, what the pass concludes about the events of one
family is what it concludes if it is given these events only (`Pass.families_do_not_interfere`).

What a directive reports and which block it closes are functions of the directive and of what is
open of its family (`Event.reportsOf`, `Event.blocksOf`; `Event.reads_concludes`). Leaving out the
events of other families changes nothing about the stack of this one but the marks, which are not
read there (`Event.unmarked_ofFamily`), and an event of another family brings about nothing that is
about this one (`Event.filter_about_concludes_of_ne`).
-/

namespace ViewLint

open Event (openComponents blockAt named kindAt account conclusions concludes remaining)

/-! ### Two pairs of brackets -/

/-- Two pairs of brackets of one kind are apart or one is inside the other. -/
theorem Bracket.Pairs.apart_or_inside {α : Type} {b : Bracket α} {l : List α} {i j i' j' : Nat}
    (h : b.Pairs l i j) (h' : b.Pairs l i' j') (hj : j < j') : j < i' ∨ i' < i := by
  by_contra hno
  rw [not_or, Nat.not_lt, Nat.not_lt] at hno
  obtain ⟨hi'j, hii'⟩ := hno
  obtain ⟨x', hx', ho'⟩ := h'.2.1
  rcases Nat.eq_or_lt_of_le hii' with rfl | hii'
  · exact absurd (h.unique h') (Nat.ne_of_lt hj)
  rcases Nat.eq_or_lt_of_le hi'j with rfl | hi'j
  · -- the closer of the one would be the opener of the other
    obtain ⟨y, hy, hc⟩ := h.2.2.1
    obtain rfl := Option.some.inj (hx'.symm.trans hy)
    rw [b.disjoint x' ho'] at hc
    cases hc
  · -- the opener at `i'` stands between the first two, and has its closer there
    have hinner : ((l.take j).drop (i + 1))[i' - (i + 1)]? = some x' := by
      rw [List.getElem?_drop, List.getElem?_take_of_lt (by omega), ← hx']
      congr 1
      omega
    obtain ⟨m, hm⟩ := h.2.2.2.exists_pairs hinner ho'
    obtain ⟨hpairs, hmj⟩ := hm.of_take_drop
    have hi' : i + 1 + (i' - (i + 1)) = i' := by omega
    rw [hi'] at hpairs
    have heq := hpairs.unique h'
    omega

/-! ### What is about a family -/

/-- Is the finding about an event of the family? -/
def Finding.about (E : List Event) (f : Family) (v : Finding) : Bool :=
  v.subjects.any fun i => (kindAt E i).bind Event.Kind.family? = some f

namespace Event

/-- The events of a family. -/
def ofFamily (f : Family) (E : List Event) : List Event := E.filter (·.kind.family? = some f)

/-- What the pass reports about the events of a family. -/
def reportsAbout (c : Checkup) (f : Family) (E : List Event) : List Diagnostic :=
  ((account E).filter (Finding.about E f)).filterMap (Finding.diagnostic? c E)

/-- The blocks that the events of a family open. -/
def blocksAbout (f : Family) (E : List Event) : List Block :=
  ((account E).filter (Finding.about E f)).filterMap (Finding.block? E)

theorem ofFamily_concat (f : Family) (E : List Event) (e : Event) :
    ofFamily f (E ++ [e]) = ofFamily f E ++ if e.kind.family? = some f then [e] else [] := by
  unfold ofFamily
  rw [List.filter_append, List.filter_singleton, Bool.cond_eq_ite]
  simp only [decide_eq_true_eq]

/-! ### What a directive brings about -/

/-- What a directive reports, if `stack` is what is open of its family. -/
def reportsOf (c : Checkup) (stack : List OpenBlock) (e : Event) : List Diagnostic :=
  match e.kind with
  | .closer _ | .elseBranch => if stack = [] then [c.unmatchedDirective e] else []
  | _ => []

/-- The block that a directive closes, if `stack` is what is open of its family. -/
def blocksOf (stack : List OpenBlock) (e : Event) : List Block :=
  match e.kind, stack with
  | .closer _, top :: _ => [⟨top.name, top.range, e.range⟩]
  | _, _ => []

theorem about_concat {E : List Event} {v : Finding} (f : Family)
    (h : ∀ i ∈ v.subjects, i < E.length) (e : Event) : Finding.about (E ++ [e]) f v = Finding.about E f v := by
  unfold Finding.about kindAt
  rw [Bool.eq_iff_iff, List.any_eq_true, List.any_eq_true]
  refine exists_congr fun i => and_congr_right fun hi => ?_
  rw [List.getElem?_append_left (h i hi)]

/-- Component tags are about no family. -/
theorem filter_about_unclosedTags {E : List Event} (f : Family) {l : List Nat}
    (h : ∀ k ∈ l, kindAt E k = some .openTag) :
    (l.map Finding.unclosedTag).filter (Finding.about E f) = [] := by
  refine List.filter_eq_nil_iff.mpr fun v hv => ?_
  obtain ⟨k, hk, rfl⟩ := List.mem_map.mp hv
  simp [Finding.about, Finding.subjects, h k hk, Kind.family?]

theorem kindAt_concat {E : List Event} {k : Nat} {kind : Kind} (h : kindAt E k = some kind)
    (e : Event) : kindAt (E ++ [e]) k = some kind := by
  obtain ⟨x, hx, hkind⟩ := kindAt_eq_some_iff.mp h
  have hlt := (List.getElem?_eq_some_iff.mp hx).1
  exact kindAt_eq_some_iff.mpr ⟨x, (List.getElem?_append_left hlt).trans hx, hkind⟩

/-- What a fence takes is about no family. -/
theorem filter_about_fenced (E : List Event) (e : Event) (f : Family) (i : Nat) :
    (((openComponents E).filter (i < ·)).reverse.map Finding.unclosedTag).filter
      (Finding.about (E ++ [e]) f) = [] := by
  refine filter_about_unclosedTags f fun k hk => kindAt_concat (kindAt_of_mem_openComponents ?_) e
  exact (List.mem_filter.mp (List.mem_reverse.mp hk)).1

/-- An event of no family or of another one brings about nothing about this one. -/
theorem filter_about_concludes_of_ne {E : List Event} {e : Event} {f : Family}
    (h : e.kind.family? ≠ some f) :
    (concludes E e).filter (Finding.about (E ++ [e]) f) = [] := by
  have hnew : kindAt (E ++ [e]) E.length = some e.kind :=
    kindAt_eq_some_iff.mpr ⟨e, List.getElem?_concat_length, rfl⟩
  unfold concludes
  cases hk : e.kind with
  | closer g =>
    dsimp only
    rw [hk] at h hnew
    cases hi : ((Bracket.family g).pending E).head? with
    | none => simpa [Finding.about, Finding.subjects, hnew] using h
    | some i =>
      -- the opener is of the family of the closer
      obtain ⟨x, hx, ho, -⟩ := blockAt_of_head?_pending hi
      have hopener := kindAt_concat (kindAt_eq_some_iff.mpr ⟨x, hx, ho⟩) e
      dsimp only
      rw [List.filter_append, filter_about_fenced, List.nil_append]
      simpa [Finding.about, Finding.subjects, hnew, hopener, Kind.family?] using h
  | closeTag =>
    dsimp only
    rw [hk] at hnew
    cases hf : (openComponents E).find? (named E e.name) with
    | none => simp [Finding.about, Finding.subjects, hnew, Kind.family?]
    | some k =>
      have htag := kindAt_concat (kindAt_of_mem_openComponents (List.mem_of_find?_eq_some hf)) e
      simp [Finding.about, Finding.subjects, hnew, htag, Kind.family?]
  | extendsMarker =>
    dsimp only
    rw [hk] at hnew
    split <;> simp [Finding.about, Finding.subjects, hnew, Kind.family?]
  | elseBranch =>
    dsimp only
    rw [hk] at h hnew
    split
    · simpa [Finding.about, Finding.subjects, hnew] using h
    · rfl
  | doubleAt =>
    rw [hk] at hnew
    simp [Finding.about, Finding.subjects, hnew, Kind.family?]
  | opener g => rfl
  | openTag => rfl
  | selfClosedTag => rfl

/-- **What a directive brings about** is a function of what is open of its family. -/
theorem reads_concludes (c : Checkup) {E : List Event} {e : Event} {f : Family}
    (h : e.kind.family? = some f) :
    ((concludes E e).filter (Finding.about (E ++ [e]) f)).filterMap
        (Finding.diagnostic? c (E ++ [e])) = reportsOf c ((Pass.run c {} E).blocks.get f) e ∧
      ((concludes E e).filter (Finding.about (E ++ [e]) f)).filterMap
        (Finding.block? (E ++ [e])) = blocksOf ((Pass.run c {} E).blocks.get f) e := by
  have hnew : (E ++ [e])[E.length]? = some e := List.getElem?_concat_length
  -- what the new event concludes about itself is about its family
  have hself : (kindAt (E ++ [e]) E.length).bind Kind.family? = some f := by
    rwa [kindAt, hnew]
  have hempty := Pass.run_blocks_eq_nil_iff c E f
  unfold concludes reportsOf blocksOf
  -- an opener concludes nothing, and only else branches and closers are left to compare
  cases hk : e.kind with
  | opener g => simp
  | elseBranch =>
    rw [hk] at h
    obtain rfl : f = .conditional := (Option.some.inj h).symm
    dsimp only
    -- the test of the pass is whether its stack is empty, that of the account whether a block is
    -- pending
    by_cases hp : (Bracket.family .conditional).pending E = []
    · simp [hp, hempty.mpr hp, Finding.about, Finding.subjects, hself, Finding.diagnostic?,
        Finding.block?]
    · simp [hp, mt hempty.mp hp]
  | closer g =>
    rw [hk] at h
    obtain rfl : g = f := Option.some.inj h
    dsimp only
    cases hi : ((Bracket.family g).pending E).head? with
    | none =>
      -- without an open block the closer itself is called out
      have hnil := hempty.mpr (List.head?_eq_none_iff.mp hi)
      simp [hnil, Finding.about, Finding.subjects, hself, Finding.diagnostic?, Finding.block?]
    | some i =>
      -- the components that the fence takes are of no family, so the pair of markers is left
      obtain ⟨is, hp⟩ := List.head?_eq_some_iff.mp hi
      obtain ⟨x, hx, ho, hat⟩ := blockAt_of_head?_pending hi
      have hlt := (List.getElem?_eq_some_iff.mp hx).1
      rw [Pass.run_blocks_get, hp, List.filterMap_cons_some hat]
      dsimp only
      rw [List.filter_append, filter_about_fenced]
      simp [Finding.about, Finding.subjects, hself, Finding.diagnostic?, Finding.block?,
        List.getElem?_append_left hlt, hx]
  | _ =>
    rw [hk] at h
    cases h

/-! ### The events of one family alone -/

/-- What a block on the stack is, apart from the tags that were opened before it. -/
def unmarked (b : OpenBlock) : Text × Range := (b.name, b.range)

/-- What a directive brings about does not depend on marks. -/
theorem reads_congr (c : Checkup) {s s' : List OpenBlock} (h : s.map unmarked = s'.map unmarked)
    (e : Event) : reportsOf c s e = reportsOf c s' e ∧ blocksOf s e = blocksOf s' e := by
  unfold reportsOf blocksOf
  -- a report and a block need the name and the range of the innermost block, but not its mark
  cases s with
  | nil =>
    obtain rfl := List.map_eq_nil_iff.mp h.symm
    exact ⟨rfl, rfl⟩
  | cons top rest =>
    cases s' with
    -- stacks of different lengths are not alike
    | nil => simp at h
    | cons top' rest' =>
      obtain ⟨hname, hrange⟩ := Prod.mk.inj (List.cons.inj h).1
      cases e.kind <;> simp [hname, hrange]

/-- **The stack of a family** is, marks apart, what it is without the other events. -/
theorem unmarked_ofFamily (c : Checkup) (f : Family) (E : List Event) :
    ((Pass.run c {} (ofFamily f E)).blocks.get f).map unmarked =
      ((Pass.run c {} E).blocks.get f).map unmarked := by
  induction E using List.reverseRecOn with
  | nil => rfl
  | append_singleton E e ih =>
    rw [ofFamily_concat, Pass.run_concat, Pass.apply_blocks_get]
    by_cases h : e.kind.family? = some f
    · rw [if_pos h, Pass.run_concat, Pass.apply_blocks_get]
      by_cases ho : e.kind = .opener f
      · rw [if_pos ho, if_pos ho, List.map_cons, List.map_cons, ih]
        rfl
      · rw [if_neg ho, if_neg ho]
        by_cases hc : e.kind = .closer f
        · rw [if_pos hc, if_pos hc, List.map_tail, List.map_tail, ih]
        · rw [if_neg hc, if_neg hc, ih]
    · -- only its own openers and closers touch the stack of a family
      have ho : e.kind ≠ .opener f := fun ho => h (by rw [ho]; rfl)
      have hc : e.kind ≠ .closer f := fun hc => h (by rw [hc]; rfl)
      rw [if_neg h, if_neg ho, if_neg hc, List.append_nil, ih]

/-- One more event adds to what is about a family what it brings about itself. -/
theorem reads_conclusions_concat (c : Checkup) (f : Family) (E : List Event) (e : Event) :
    ((conclusions (E ++ [e])).filter (Finding.about (E ++ [e]) f)).filterMap
        (Finding.diagnostic? c (E ++ [e])) =
      ((conclusions E).filter (Finding.about E f)).filterMap (Finding.diagnostic? c E) ++
        ((concludes E e).filter (Finding.about (E ++ [e]) f)).filterMap
          (Finding.diagnostic? c (E ++ [e])) ∧
    ((conclusions (E ++ [e])).filter (Finding.about (E ++ [e]) f)).filterMap
        (Finding.block? (E ++ [e])) =
      ((conclusions E).filter (Finding.about E f)).filterMap (Finding.block? E) ++
        ((concludes E e).filter (Finding.about (E ++ [e]) f)).filterMap
          (Finding.block? (E ++ [e])) := by
  -- the new event changes neither the family of an old finding nor what it reads
  have habout : (conclusions E).filter (Finding.about (E ++ [e]) f) =
      (conclusions E).filter (Finding.about E f) :=
    List.filter_congr fun v hv => about_concat f (lt_of_mem_conclusions hv) e
  have hreads : ∀ v ∈ (conclusions E).filter (Finding.about E f),
      v.diagnostic? c (E ++ [e]) = v.diagnostic? c E ∧ v.block? (E ++ [e]) = v.block? E :=
    fun v hv => Finding.reading_concat c (lt_of_mem_conclusions (List.mem_filter.mp hv).1) e
  rw [conclusions_concat, List.filter_append, List.filterMap_append, List.filterMap_append, habout,
    List.filterMap_congr fun v hv => (hreads v hv).1,
    List.filterMap_congr fun v hv => (hreads v hv).2]
  exact ⟨rfl, rfl⟩

/-- **Before the end of the document**, what is about a family is what it is without the other
events. -/
theorem reads_conclusions_ofFamily (c : Checkup) (f : Family) (E : List Event) :
    ((conclusions (ofFamily f E)).filter (Finding.about (ofFamily f E) f)).filterMap
        (Finding.diagnostic? c (ofFamily f E)) =
      ((conclusions E).filter (Finding.about E f)).filterMap (Finding.diagnostic? c E) ∧
    ((conclusions (ofFamily f E)).filter (Finding.about (ofFamily f E) f)).filterMap
        (Finding.block? (ofFamily f E)) =
      ((conclusions E).filter (Finding.about E f)).filterMap (Finding.block? E) := by
  induction E using List.reverseRecOn with
  | nil => exact ⟨rfl, rfl⟩
  | append_singleton E e ih =>
    obtain ⟨hreports, hblocks⟩ := reads_conclusions_concat c f E e
    rw [hreports, hblocks, ofFamily_concat]
    by_cases h : e.kind.family? = some f
    · -- an event of the family: it finds the same stack in both lists, marks apart
      obtain ⟨hreports', hblocks'⟩ := reads_conclusions_concat c f (ofFamily f E) e
      have hstack := reads_congr c (unmarked_ofFamily c f E) e
      obtain ⟨hadded, hclosed⟩ := reads_concludes c (E := E) h
      obtain ⟨hadded', hclosed'⟩ := reads_concludes c (E := ofFamily f E) h
      rw [if_pos h, hreports', hblocks', ih.1, ih.2, hadded, hclosed, hadded', hclosed', hstack.1,
        hstack.2]
      exact ⟨rfl, rfl⟩
    · rw [if_neg h, List.append_nil, filter_about_concludes_of_ne h, List.filterMap_nil,
        List.filterMap_nil, List.append_nil, List.append_nil]
      exact ih

/-- The openers of a family that are pending are about this family and no other. -/
theorem filter_about_pending (E : List Event) (f g : Family) :
    (((Bracket.family g).pending E).reverse.map Finding.unclosedDirective).filter
        (Finding.about E f) =
      if g = f then ((Bracket.family g).pending E).reverse.map Finding.unclosedDirective
      else [] := by
  -- whether an open block is about a family depends only on its opener
  have habout : ∀ v ∈ ((Bracket.family g).pending E).reverse.map Finding.unclosedDirective,
      Finding.about E f v = decide (g = f) := by
    intro v hv
    obtain ⟨i, hi, rfl⟩ := List.mem_map.mp hv
    obtain ⟨d, hd⟩ := List.mem_iff_getElem?.mp (List.mem_reverse.mp hi)
    obtain ⟨⟨x, hx, ho⟩, -⟩ := ((Bracket.family g).getElem?_pending E d i).mp hd
    simp [Finding.about, Finding.subjects, kindAt, hx, of_decide_eq_true ho, Kind.family?]
  rw [List.filter_congr habout]
  by_cases hg : g = f
  · simp [hg]
  · simp [hg]

/-- What the end of the document adds about a family. -/
theorem reads_remaining (c : Checkup) (f : Family) (E : List Event) :
    ((remaining E).filter (Finding.about E f)).filterMap (Finding.diagnostic? c E) =
        ((Pass.run c {} E).blocks.get f).reverse.map c.unclosedDirective ∧
      ((remaining E).filter (Finding.about E f)).filterMap (Finding.block? E) = [] := by
  -- open components are of no family
  have htags : ((openComponents E).reverse.map Finding.unclosedTag).filter (Finding.about E f) =
      [] :=
    filter_about_unclosedTags f fun k hk => kindAt_of_mem_openComponents (List.mem_reverse.mp hk)
  -- so of all that is left over, the open blocks of the family stay
  have hown : (remaining E).filter (Finding.about E f) =
      ((Bracket.family f).pending E).reverse.map Finding.unclosedDirective := by
    rw [remaining, List.filter_append, htags, List.append_nil, List.filter_flatMap,
      List.flatMap_congr fun g _ => filter_about_pending E f g]
    cases f <;> simp [Family.all]
  rw [hown, Pass.run_blocks_get, ← List.filterMap_reverse, List.map_filterMap, List.filterMap_map,
    List.filterMap_map]
  exact ⟨rfl, by simp [Finding.block?]⟩

/-- **What is about a family** is what it is without the other events. -/
theorem about_ofFamily (c : Checkup) (f : Family) (E : List Event) :
    reportsAbout c f (ofFamily f E) = reportsAbout c f E ∧
      blocksAbout f (ofFamily f E) = blocksAbout f E := by
  obtain ⟨hreports, hblocks⟩ := reads_conclusions_ofFamily c f E
  -- a block that is left open is reported without its mark
  have hunclosed : ∀ s s' : List OpenBlock, s.map unmarked = s'.map unmarked →
      s.reverse.map c.unclosedDirective = s'.reverse.map c.unclosedDirective := by
    intro s s' h
    have hread : c.unclosedDirective = (fun x : Text × Range =>
        (⟨c.wholeLine x.2.start.line, .unclosedDirective x.1⟩ : Diagnostic)) ∘ unmarked := rfl
    rw [List.map_reverse, List.map_reverse, hread, ← List.map_map, ← List.map_map, h]
  unfold reportsAbout blocksAbout account
  simp only [List.filter_append, List.filterMap_append]
  rw [hreports, hblocks, (reads_remaining c f E).1, (reads_remaining c f E).2,
    (reads_remaining c f (ofFamily f E)).1, (reads_remaining c f (ofFamily f E)).2,
    hunclosed _ _ (unmarked_ofFamily c f E)]
  exact ⟨rfl, rfl⟩

/-- In a list of events of one family everything is about this family. -/
theorem filter_about_account_ofFamily (f : Family) (E : List Event) :
    (account (ofFamily f E)).filter (Finding.about (ofFamily f E) f) = account (ofFamily f E) := by
  refine List.filter_eq_self.mpr fun v hv => ?_
  obtain ⟨i, hi⟩ := List.exists_mem_of_ne_nil _ v.subjects_ne_nil
  have hlt := lt_of_mem_account hv i hi
  have hmem : (ofFamily f E)[i] ∈ ofFamily f E := List.getElem_mem hlt
  refine List.any_eq_true.mpr ⟨i, hi, ?_⟩
  rw [kindAt, List.getElem?_eq_getElem hlt]
  exact (List.mem_filter.mp hmem).2

theorem Kind.part?_of_family {k : Kind} {f : Family} (hf : k.family? = some f) {p : Part}
    (hp : k.part? = some p) : p = .opener ∨ p = .elseBranch ∨ p = .closer := by
  cases k <;> simp_all [Kind.family?, Kind.part?]

/-- What is about a family is a block, or reported as an unmatched or an unclosed directive. -/
theorem rule_of_about {E : List Event} {f : Family} {v : Finding} (hv : v ∈ account E)
    (h : Finding.about E f v = true) :
    v.isPaired = true ∨ v.rule? = some .unmatchedDirective ∨ v.rule? = some .unclosedDirective := by
  obtain ⟨i, hi, hfamily⟩ := List.any_eq_true.mp h
  rw [← Finding.map_snd_parts, List.mem_map] at hi
  obtain ⟨q, hq, rfl⟩ := hi
  obtain ⟨k, hk, hf⟩ := Option.bind_eq_some_iff.mp (of_decide_eq_true hfamily)
  have hbind := (mem_account_iff.mp hv).kind_part q hq
  rw [hk] at hbind
  have hpart := Kind.part?_of_family hf hbind
  cases v with
  | paired i j => exact Or.inl rfl
  | unmatchedCloser j | unmatchedElse j => exact Or.inr (Or.inl rfl)
  | unclosedDirective i => exact Or.inr (Or.inr rfl)
  -- a tag, an extends marker or a run of `@` is of no family
  | duplicateExtends i | repeatedMarker i | unclosedTag i | unmatchedTag i =>
    obtain rfl := List.mem_singleton.mp hq
    simp at hpart
  | consumed k m => rcases List.mem_pair.mp hq with rfl | rfl <;> simp at hpart

end Event

/-! ### Blocks in closing order -/

/-- The opener and the closer of a block. -/
def Finding.pair? : Finding → Option (Nat × Nat)
  | paired i j => some (i, j)
  | _ => none

namespace Event

/-- The blocks that the events of a family open, by the places of their openers and closers. -/
def pairsAbout (f : Family) (E : List Event) : List (Nat × Nat) :=
  ((account E).filter (Finding.about E f)).filterMap Finding.pair?

/-- An event closes one block at most, and is its closer. -/
theorem pair?_concludes (E : List Event) (e : Event) :
    (concludes E e).filterMap Finding.pair? = [] ∨
      ∃ i, (concludes E e).filterMap Finding.pair? = [(i, E.length)] := by
  unfold concludes
  -- only a closer concludes a pair, and only if there is a block to close
  cases e.kind with
  | closer f =>
    dsimp only
    cases ((Bracket.family f).pending E).head? with
    | none => exact Or.inl rfl
    | some i =>
      refine Or.inr ⟨i, ?_⟩
      simp [Finding.pair?]
  | closeTag =>
    dsimp only
    cases (openComponents E).find? (named E e.name) <;> exact Or.inl rfl
  | extendsMarker =>
    dsimp only
    split <;> exact Or.inl rfl
  | elseBranch =>
    dsimp only
    split <;> exact Or.inl rfl
  | _ => exact Or.inl rfl

/-- Blocks are listed in the order in which they are closed. -/
theorem pairwise_pair?_conclusions (E : List Event) :
    ((conclusions E).filterMap Finding.pair?).Pairwise fun a b => a.2 < b.2 := by
  induction E using List.reverseRecOn with
  | nil => exact List.Pairwise.nil
  | append_singleton E e ih =>
    rw [conclusions_concat, List.filterMap_append]
    rcases pair?_concludes E e with hnone | ⟨i, hone⟩
    · -- the new pair ends at the last event, behind all others
      rwa [hnone, List.append_nil]
    · rw [hone, List.pairwise_append]
      refine ⟨ih, List.pairwise_singleton _ _, fun a ha b hb => ?_⟩
      obtain rfl := List.mem_singleton.mp hb
      obtain ⟨v, hv, hpair⟩ := List.mem_filterMap.mp ha
      cases v <;> cases hpair
      exact lt_of_mem_conclusions hv _ (by simp [Finding.subjects])

theorem pairwise_pair?_account (E : List Event) :
    ((account E).filterMap Finding.pair?).Pairwise fun a b => a.2 < b.2 := by
  have hnone : (remaining E).filterMap Finding.pair? = [] := by
    refine List.filterMap_eq_nil_iff.mpr fun v hv => ?_
    rcases mem_remaining_iff.mp hv with ⟨f, i, -, rfl⟩ | ⟨k, -, rfl⟩ <;> rfl
  rw [account, List.filterMap_append, hnone, List.append_nil]
  exact pairwise_pair?_conclusions E

/-- The blocks about a family are pairs of brackets of this family. -/
theorem pairs_of_mem_pairsAbout {E : List Event} {f : Family} {p : Nat × Nat}
    (h : p ∈ pairsAbout f E) : (Bracket.family f).Pairs E p.1 p.2 := by
  obtain ⟨v, hv, hpair⟩ := List.mem_filterMap.mp h
  obtain ⟨hacc, habout⟩ := List.mem_filter.mp hv
  cases v <;> cases hpair
  next i j =>
    obtain ⟨g, hg⟩ := mem_account_iff.mp hacc
    obtain ⟨-, ⟨x, hx, ho⟩, ⟨y, hy, hc⟩, -⟩ := id hg
    -- opener and closer are of one family, and one of them is of family `f`
    have hgf : g = f := by
      simpa [Finding.about, Finding.subjects, kindAt, hx, hy, of_decide_eq_true ho,
        of_decide_eq_true hc, Kind.family?] using habout
    exact hgf ▸ hg

end Event

namespace Pass

open Event (ofFamily blocksAbout reportsAbout pairsAbout)

/-- **Directive families do not interfere.** For every list of events and every family:

* the blocks that the family's events open, and the unmatched and unclosed directives that are
  reported about them, are the blocks and the reports of a run over the events of this family alone,
  in the same order;
* so they are the same in any two lists that have the same events of this family;
* the blocks of the family are a proper bracket matching in closing order: of two blocks, the one
  closed first lies before the other one or inside it. -/
theorem families_do_not_interfere (c : Checkup) (E : List Event) (f : Family) :
    ((balance c E).found = (account E).filterMap (Finding.diagnostic? c E) ∧
      (balance c E).pairs = (account E).filterMap (Finding.block? E)) ∧
    (blocksAbout f E = (balance c (ofFamily f E)).pairs ∧
      reportsAbout c f E = (balance c (ofFamily f E)).found ∧
      ∀ d ∈ reportsAbout c f E,
        d.problem.rule = .unmatchedDirective ∨ d.problem.rule = .unclosedDirective) ∧
    (∀ E', ofFamily f E' = ofFamily f E →
      blocksAbout f E' = blocksAbout f E ∧ reportsAbout c f E' = reportsAbout c f E) ∧
    blocksAbout f E = (pairsAbout f E).filterMap (fun p => Finding.block? E (.paired p.1 p.2)) ∧
    (∀ p ∈ pairsAbout f E, (Bracket.family f).Pairs E p.1 p.2) ∧
    (pairsAbout f E).Pairwise fun a b => a.2 < b.2 ∧ (a.2 < b.1 ∨ b.1 < a.1) := by
  obtain ⟨hreports, hblocks⟩ := Event.about_ofFamily c f E
  refine ⟨⟨found_eq_account c E, pairs_eq_account c E⟩, ⟨?_, ?_, fun d hd => ?_⟩, fun E' h => ?_,
    ?_, fun p hp => Event.pairs_of_mem_pairsAbout hp, ?_⟩
  · rw [← hblocks, pairs_eq_account, blocksAbout, Event.filter_about_account_ofFamily]
  · rw [← hreports, found_eq_account, reportsAbout, Event.filter_about_account_ofFamily]
  · -- a finding about the family that is reported is no block
    obtain ⟨v, hv, hread⟩ := List.mem_filterMap.mp hd
    obtain ⟨hacc, habout⟩ := List.mem_filter.mp hv
    have hrule := ((Event.mem_account_iff.mp hacc).reads c).1
    rw [hread] at hrule
    rcases Event.rule_of_about hacc habout with hpaired | hr | hr
    · cases v <;> cases hpaired
      cases hread
    · exact Or.inl (Option.some.inj (hrule.trans hr))
    · exact Or.inr (Option.some.inj (hrule.trans hr))
  · obtain ⟨hreports', hblocks'⟩ := Event.about_ofFamily c f E'
    rw [← hblocks, ← hblocks', ← hreports, ← hreports', h]
    exact ⟨rfl, rfl⟩
  · unfold blocksAbout pairsAbout
    rw [List.filterMap_filterMap]
    refine List.filterMap_congr fun v _ => ?_
    cases v <;> rfl
  · -- blocks are listed by their closers, and two blocks of one family never cross
    have hsub : (pairsAbout f E).Sublist ((account E).filterMap Finding.pair?) :=
      List.filter_sublist.filterMap _
    refine ((Event.pairwise_pair?_account E).sublist hsub).imp_of_mem fun ha hb hlt => ⟨hlt, ?_⟩
    exact (Event.pairs_of_mem_pairsAbout ha).apart_or_inside (Event.pairs_of_mem_pairsAbout hb) hlt

end Pass

end ViewLint
