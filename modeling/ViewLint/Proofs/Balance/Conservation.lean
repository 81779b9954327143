import ViewLint.Proofs.Balance.Account
import Mathlib.Algebra.Ring.Nat
import Mathlib.Data.List.Count
import Mathlib.Data.List.Nodup

/-!
# Nothing is lost and nothing is reported twice

Component tags leave the stack of the pass in three ways: a closing tag takes one from the middle, a
fence takes some from the top, and the end of the document takes the rest. Blocks leave theirs in
two. The law that covers all of them is one of conservation: whatever an event is, the events that
it concludes about and the events that are unsettled after it are those that were unsettled before,
and the event itself (`Event.count_concludes`). Added up, the account of a whole list is about every
event exactly once (`Event.perm_account_subjects`), an event that calls for no finding apart:
self-closed tags, the first extends marker, and else branches inside a block.

`Pass.nothing_lost_or_repeated` reads this off for every kind of event, with the counts that follow.
-/

namespace ViewLint

open Event (openComponents named kindAt extendsCount account conclusions concludes remaining)

/-! ### Brackets of a family, one event later -/

namespace Bracket

theorem pending_family_opener {E : List Event} {e : Event} {f : Family} (he : e.kind = .opener f)
    (g : Family) : (family g).pending (E ++ [e]) =
      if g = f then E.length :: (family g).pending E else (family g).pending E := by
  rw [pending_concat]
  by_cases hg : g = f
  · rw [if_pos hg, push_of_opens _ (by simp [family, he, hg])]
  · rw [if_neg hg, push_of_neither _ (by simp [family, he, Ne.symm hg]) (by simp [family, he])]

theorem pending_family_closer {E : List Event} {e : Event} {f : Family} (he : e.kind = .closer f)
    (g : Family) : (family g).pending (E ++ [e]) =
      if g = f then ((family g).pending E).tail else (family g).pending E := by
  rw [pending_concat]
  by_cases hg : g = f
  · rw [if_pos hg, push_of_closes _ (by simp [family, he, hg])]
  · rw [if_neg hg, push_of_neither _ (by simp [family, he]) (by simp [family, he, Ne.symm hg])]

theorem pending_family_other {E : List Event} {e : Event} (ho : ∀ f, e.kind ≠ .opener f)
    (hc : ∀ f, e.kind ≠ .closer f) (g : Family) :
    (family g).pending (E ++ [e]) = (family g).pending E := by
  rw [pending_concat, push_of_neither _ (by simp [family, ho g]) (by simp [family, hc g])]

end Bracket

namespace Event

/-! ### The law of one event -/

/-- The events that wait: the openers that have no closer yet, and the open components. -/
def unsettled (E : List Event) : List Nat :=
  Family.all.flatMap (fun f => (Bracket.family f).pending E) ++ openComponents E

/-- Does the event `e`, which comes after `E`, call for a finding? -/
def calls (E : List Event) (e : Event) : Bool :=
  match e.kind with
  | .extendsMarker => extendsCount E ≠ 0
  | .elseBranch => (Bracket.family .conditional).pending E = []
  | .selfClosedTag => false
  | _ => true

/-- The indices of the events that are chosen by what they are and by what comes before them. -/
def select (choose : List Event → Event → Bool) (E : List Event) : List Nat :=
  (List.range E.length).filter fun i => E[i]?.any (choose (E.take i))

theorem select_concat (choose : List Event → Event → Bool) (E : List Event) (e : Event) :
    select choose (E ++ [e]) = select choose E ++ if choose E e then [E.length] else [] := by
  have hold : ∀ i ∈ List.range E.length,
      ((E ++ [e])[i]?.any (choose ((E ++ [e]).take i))) = (E[i]?.any (choose (E.take i))) := by
    intro i hi
    have hlt := List.mem_range.mp hi
    rw [List.getElem?_append_left hlt, List.take_append_of_le_length hlt.le]
  unfold select
  rw [List.length_append, List.length_singleton, List.range_succ, List.filter_append,
    List.filter_congr hold, List.filter_singleton, List.getElem?_concat_length, List.take_left,
    Option.any_some, Bool.cond_eq_ite]

theorem count_unsettled (E : List Event) (a : Nat) :
    (unsettled E).count a = ((Bracket.family .conditional).pending E).count a +
      ((Bracket.family .loop).pending E).count a + ((Bracket.family .sections).pending E).count a +
        (openComponents E).count a := by
  simp [unsettled, Family.all, List.count_append]
  omega

/-- What a fence takes and what it keeps are together what was open. -/
theorem count_fenced {E : List Event} {f : Family} {i : Nat}
    (hi : ((Bracket.family f).pending E).head? = some i) (a : Nat) :
    ((openComponents E).filter (i < ·)).count a + ((openComponents E).filter (· < i)).count a =
      (openComponents E).count a := by
  -- no open component has the number of the opener, so what is not behind it is before it
  have hkept : (openComponents E).filter (· < i) =
      (openComponents E).filter fun k => !decide (i < k) := by
    refine List.filter_congr fun k hk => ?_
    have hne := ne_of_mem_openComponents hi hk
    rw [Bool.eq_iff_iff]
    simp
    omega
  rw [hkept, ← List.count_append]
  exact (List.filter_append_perm _ _).count_eq a

/-- An event that is no directive of a family changes what is unsettled through the components. -/
theorem count_unsettled_other {E : List Event} {e : Event} (ho : ∀ f, e.kind ≠ .opener f)
    (hc : ∀ f, e.kind ≠ .closer f) (a : Nat) :
    (unsettled (E ++ [e])).count a + (openComponents E).count a =
      (unsettled E).count a + (nextOpen E e (openComponents E)).count a := by
  rw [← openComponents_concat]
  simp only [count_unsettled, Bracket.pending_family_other ho hc]
  omega

/-- Findings about one event each are about these events. -/
theorem flatMap_subjects_map {g : Nat → Finding} (h : ∀ k, (g k).subjects = [k]) (l : List Nat) :
    (l.map g).flatMap Finding.subjects = l := by
  rw [List.flatMap_map, List.flatMap_congr fun k _ => h k, List.flatMap_singleton']

/-- **Conservation.** What an event concludes about, and what is unsettled after it, is what was
unsettled before and the event itself. -/
theorem count_concludes (E : List Event) (e : Event) (a : Nat) :
    ((concludes E e).flatMap Finding.subjects).count a + (unsettled (E ++ [e])).count a =
      (unsettled E).count a + (if calls E e then [E.length] else []).count a := by
  cases hk : e.kind with
  | opener f =>
    rw [concludes, calls, hk, count_unsettled, count_unsettled, openComponents_concat, nextOpen, hk]
    simp only [Bracket.pending_family_opener hk]
    cases f <;> simp [List.count_cons] <;> omega
  | closer f =>
    rw [concludes, calls, hk, count_unsettled, count_unsettled, openComponents_concat, nextOpen, hk]
    simp only [Bracket.pending_family_closer hk]
    cases hi : ((Bracket.family f).pending E).head? with
    | none =>
      have hnil := List.head?_eq_none_iff.mp hi
      cases f <;> simp [hnil, Finding.subjects] <;> omega
    | some i =>
      -- the opener is settled, and so is what the fence takes
      obtain ⟨is, hp⟩ := List.head?_eq_some_iff.mp hi
      have hfence := count_fenced hi a
      have htaken := flatMap_subjects_map (g := .unclosedTag) (fun _ => rfl)
        ((openComponents E).filter (i < ·)).reverse
      dsimp only
      rw [List.flatMap_append, List.count_append, htaken, List.count_reverse]
      cases f <;> simp [hp, Finding.subjects, List.count_cons] <;> omega
  | openTag =>
    have hrest := count_unsettled_other (E := E) (e := e) (by simp [hk]) (by simp [hk]) a
    simp [nextOpen, concludes, calls, hk, List.count_cons] at hrest ⊢
    omega
  | closeTag =>
    have hrest := count_unsettled_other (E := E) (e := e) (by simp [hk]) (by simp [hk]) a
    rw [nextOpen, hk] at hrest
    rw [concludes, calls, hk]
    dsimp only at hrest ⊢
    cases hf : (openComponents E).find? (named E e.name) with
    | none =>
      -- nothing is erased, and the closing tag itself is reported
      rw [List.eraseP_of_forall_not (List.find?_eq_none.mp hf)] at hrest
      simp [Finding.subjects]
      omega
    | some k =>
      -- what is erased is what is consumed, wherever on the stack it stands
      have herase := (List.perm_cons_erase (List.mem_of_find?_eq_some hf)).count_eq a
      rw [eraseP_of_find? hf] at hrest
      simp [Finding.subjects, List.count_cons] at herase ⊢
      omega
  | extendsMarker =>
    have hrest := count_unsettled_other (E := E) (e := e) (by simp [hk]) (by simp [hk]) a
    by_cases h : extendsCount E = 0
    · simp [nextOpen, concludes, calls, hk, h] at hrest ⊢
      omega
    · simp [nextOpen, concludes, calls, hk, h, Finding.subjects] at hrest ⊢
      omega
  | elseBranch =>
    have hrest := count_unsettled_other (E := E) (e := e) (by simp [hk]) (by simp [hk]) a
    by_cases h : (Bracket.family .conditional).pending E = []
    · simp [nextOpen, concludes, calls, hk, h, Finding.subjects] at hrest ⊢
      omega
    · simp [nextOpen, concludes, calls, hk, h] at hrest ⊢
      omega
  | doubleAt =>
    have hrest := count_unsettled_other (E := E) (e := e) (by simp [hk]) (by simp [hk]) a
    simp [nextOpen, concludes, calls, hk, Finding.subjects] at hrest ⊢
    omega
  | selfClosedTag =>
    have hrest := count_unsettled_other (E := E) (e := e) (by simp [hk]) (by simp [hk]) a
    simp [nextOpen, concludes, calls, hk] at hrest ⊢
    omega

/-! ### The law of a list -/

theorem count_conclusions (E : List Event) (a : Nat) :
    ((conclusions E).flatMap Finding.subjects).count a + (unsettled E).count a =
      (select calls E).count a := by
  induction E using List.reverseRecOn with
  | nil => rfl
  | append_singleton E e ih =>
    have hstep := count_concludes E e a
    rw [conclusions_concat, List.flatMap_append, select_concat, List.count_append,
      List.count_append]
    omega

/-- **The account is about every event exactly once**, among those that call for a finding. -/
theorem perm_account_subjects (E : List Event) :
    ((account E).flatMap Finding.subjects).Perm (select calls E) := by
  -- each event is counted once, by what is concluded on the way or by what is left over at the
  -- end
  rw [List.perm_iff_count]
  intro a
  have hrest : ((remaining E).flatMap Finding.subjects).count a = (unsettled E).count a := by
    rw [remaining, List.flatMap_append, flatMap_subjects_map fun _ => rfl, List.flatMap_assoc,
      List.flatMap_congr fun f _ => flatMap_subjects_map (g := .unclosedDirective) (fun _ => rfl)
        ((Bracket.family f).pending E).reverse, count_unsettled]
    simp [Family.all, List.count_append]
    omega
  rw [account, List.flatMap_append, List.count_append, hrest]
  exact count_conclusions E a

end Event

open Event (select calls Consumes componentAt)

/-! ### One part at a time -/

namespace Finding

/-- The events that have a part in a finding. -/
def playing (p : Part) (v : Finding) : List Nat :=
  v.parts.filterMap fun (q, i) => if q = p then some i else none

/-- Is the finding a block? -/
def isPaired : Finding → Bool
  | paired _ _ => true
  | _ => false

/-- The rule under which a finding is reported. -/
def rule? : Finding → Option Rule
  | duplicateExtends _ => some .duplicateExtends
  | repeatedMarker _ => some .repeatedMarker
  | unmatchedCloser _ | unmatchedElse _ => some .unmatchedDirective
  | unclosedDirective _ => some .unclosedDirective
  | unclosedTag _ => some .unclosedTag
  | unmatchedTag _ => some .unmatchedTag
  | paired _ _ | consumed _ _ => none

/-- The subjects of a kind are those that play its part. -/
theorem Holds.filter_subjects {E : List Event} {v : Finding} (h : v.Holds E) (p : Part) :
    v.subjects.filter (fun i => (kindAt E i).bind Event.Kind.part? = some p) = v.playing p := by
  unfold playing
  rw [← map_snd_parts, List.filter_map, ← List.filterMap_eq_map, List.filterMap_filter]
  refine List.filterMap_congr fun q hq => ?_
  simp [h.kind_part q hq]

/-- A finding that holds can be read: as a report under its rule, as a block, or as neither if a
component is consumed. -/
theorem Holds.reads (c : Checkup) {E : List Event} {v : Finding} (h : v.Holds E) :
    (v.diagnostic? c E).map (·.problem.rule) = v.rule? ∧ (v.block? E).isSome = v.isPaired := by
  -- the events of a finding are events of the run, because their kinds are known
  have hsome : ∀ q ∈ v.parts, ∃ x, E[q.2]? = some x := by
    intro q hq
    obtain ⟨k, hk, -⟩ := Option.bind_eq_some_iff.mp (h.kind_part q hq)
    obtain ⟨x, hx, -⟩ := Event.kindAt_eq_some_iff.mp hk
    exact ⟨x, hx⟩
  -- a diagnostic or a block is made as soon as the events can be looked up
  cases v with
  | paired i j =>
    obtain ⟨x, hx⟩ := hsome (.opener, i) (by simp [parts])
    obtain ⟨y, hy⟩ := hsome (.closer, j) (by simp [parts])
    simp [diagnostic?, block?, rule?, isPaired, hx, hy]
  | consumed k m => exact ⟨rfl, rfl⟩
  | unclosedDirective i =>
    obtain ⟨x, hx⟩ := hsome _ List.mem_cons_self
    simp [diagnostic?, block?, rule?, isPaired, Event.blockAt, hx, Checkup.unclosedDirective,
      Problem.rule]
  | unclosedTag k =>
    obtain ⟨x, hx⟩ := hsome _ List.mem_cons_self
    simp [diagnostic?, block?, rule?, isPaired, Pass.unclosedAt, componentAt, hx,
      Checkup.unclosedTag, Problem.rule]
  | _ =>
    obtain ⟨x, hx⟩ := hsome _ List.mem_cons_self
    simp [diagnostic?, block?, rule?, isPaired, hx, Checkup.unmatchedDirective, Problem.rule]

end Finding

namespace Event

/-- **Every event that calls for a finding plays its part exactly once.** -/
theorem perm_playing (E : List Event) (p : Part) :
    ((account E).flatMap (Finding.playing p)).Perm
      (select (fun F e => decide (e.kind.part? = some p) && calls F e) E) := by
  -- of what a finding is about, its own parts are those events that play the part
  have hplaying : ((account E).flatMap Finding.subjects).filter
      (fun i => (kindAt E i).bind Kind.part? = some p) =
        (account E).flatMap (Finding.playing p) := by
    rw [List.filter_flatMap]
    exact List.flatMap_congr fun v hv => (mem_account_iff.mp hv).filter_subjects p
  -- which part an event plays depends on its kind alone
  have hselect : (select calls E).filter (fun i => (kindAt E i).bind Kind.part? = some p) =
      select (fun F e => decide (e.kind.part? = some p) && calls F e) E := by
    unfold select
    rw [List.filter_filter]
    refine List.filter_congr fun i _ => ?_
    unfold kindAt
    cases E[i]? with
    | none => simp
    | some e => simp
  rw [← hplaying, ← hselect]
  exact (perm_account_subjects E).filter _

/-! ### Numbers -/

/-- How many events are chosen, when the choice does not look at what comes before. -/
theorem length_select (E : List Event) (q : Event → Bool) :
    (select (fun _ e => q e) E).length = E.countP q := by
  induction E using List.reverseRecOn with
  | nil => rfl
  | append_singleton E e ih =>
    rw [select_concat, List.length_append, ih, List.countP_append, List.countP_singleton]
    split <;> rfl

/-- All extends markers but the first call for a finding. -/
theorem length_select_extends (E : List Event) :
    (select (fun F e => decide (e.kind.part? = some .extendsMarker) && calls F e) E).length =
      extendsCount E - 1 := by
  induction E using List.reverseRecOn with
  | nil => rfl
  | append_singleton E e ih =>
    rw [select_concat, List.length_append, ih, extendsCount_concat]
    -- the first extends marker is in order, and every further one is called out
    cases hk : e.kind with
    | extendsMarker =>
      by_cases h : extendsCount E = 0
      · simp [calls, Kind.part?, hk, h]
      · simp [calls, Kind.part?, hk, h]
        omega
    | _ => simp [Kind.part?]

/-- The number of events with a part. -/
def numberOf (E : List Event) (p : Part) : Nat := E.countP fun e => e.kind.part? = some p

/-- Events with most parts always call for a finding. -/
theorem length_select_part (E : List Event) {p : Part} (he : p ≠ .elseBranch)
    (hx : p ≠ .extendsMarker) :
    (select (fun F e => decide (e.kind.part? = some p) && calls F e) E).length = numberOf E p := by
  -- apart from extends markers and else branches, all events that play a part are called
  have hcalls : (fun (F : List Event) (e : Event) => decide (e.kind.part? = some p) && calls F e) =
      fun _ e => decide (e.kind.part? = some p) := by
    funext F e
    by_cases hp : e.kind.part? = some p
    · have htrue : calls F e = true := by
        cases hk : e.kind <;> simp_all [calls, Kind.part?]
      rw [htrue, Bool.and_true]
    · rw [decide_eq_false hp, Bool.false_and]
  rw [hcalls]
  exact length_select E _

end Event

/-- Sums of numbers that agree element by element. -/
theorem sum_map_add_congr {α : Type} {F G H K : α → Nat} (h : ∀ v, F v + G v = H v + K v)
    (L : List α) :
    (L.map F).sum + (L.map G).sum = (L.map H).sum + (L.map K).sum := by
  induction L with
  | nil => rfl
  | cons v L ih =>
    have hv := h v
    simp only [List.map_cons, List.sum_cons]
    omega

theorem countP_eq_sum_toNat {α : Type} (q : α → Bool) (L : List α) :
    L.countP q = (L.map fun v => (q v).toNat).sum := by
  induction L with
  | nil => rfl
  | cons a L ih =>
    rw [List.countP_cons, ih, List.map_cons, List.sum_cons, Nat.add_comm]
    cases q a <;> rfl

open Event (numberOf)

namespace Pass

/-- How many reports a rule has. -/
theorem countP_rule (c : Checkup) (E : List Event) (r : Rule) :
    (balance c E).found.countP (·.problem.rule = r) =
      ((account E).map fun v => (decide (v.rule? = some r)).toNat).sum := by
  rw [found_eq_account, List.countP_filterMap, ← countP_eq_sum_toNat]
  refine List.countP_congr fun v hv => ?_
  rw [← ((Event.mem_account_iff.mp hv).reads c).1]
  cases v.diagnostic? c E <;> simp

/-- How many blocks there are. -/
theorem length_pairs (c : Checkup) (E : List Event) :
    (balance c E).pairs.length = ((account E).map fun v => v.isPaired.toNat).sum := by
  rw [pairs_eq_account, List.length_filterMap_eq_countP, ← countP_eq_sum_toNat]
  refine List.countP_congr fun v hv => ?_
  rw [((Event.mem_account_iff.mp hv).reads c).2]

/-- How many events have a part in the account. -/
theorem length_playing (E : List Event) (p : Part) :
    (select (fun F e => decide (e.kind.part? = some p) && calls F e) E).length =
      ((account E).map fun v => (v.playing p).length).sum := by
  rw [← (Event.perm_playing E p).length_eq, List.length_flatMap]

/-- The reports under a rule. -/
def tally (p : Pass) (r : Rule) : Nat := p.found.countP (·.problem.rule = r)

/-- The else branches that find no conditional block open. -/
def strayElses (c : Checkup) (E : List Event) : List Nat :=
  select (fun F e => decide (e.kind = .elseBranch) &&
    ((run c {} F).blocks.get .conditional).isEmpty) E

theorem strayElses_eq (c : Checkup) (E : List Event) :
    strayElses c E =
      select (fun F e => decide (e.kind.part? = some .elseBranch) && calls F e) E := by
  refine congrArg (fun choose => select choose E) ?_
  funext F e
  have hempty : ((run c {} F).blocks.get .conditional).isEmpty =
      decide ((Bracket.family .conditional).pending F = []) := by
    rw [Bool.eq_iff_iff, List.isEmpty_iff, decide_eq_true_eq]
    exact run_blocks_eq_nil_iff c F .conditional
  rw [hempty]
  cases hk : e.kind <;> simp [calls, Event.Kind.part?, hk]

/-- **Nothing is lost and nothing is reported twice.** For every list of events there is an account
of the run, such that

* what the pass reports and the blocks it returns are read off the account, each finding once: under
  the rule of the finding, as a block, or not at all if a component is consumed;
* every event that calls for a finding plays its part in exactly one: a directive opener is the
  opener of one block or reported as unclosed, a closer is the closer of one block or reported as
  unmatched, an opening tag is consumed by one closing tag or reported as unclosed (by a fence or at
  the end), and a closing tag consumes one component or is reported as unmatched;
* what is consumed leaves the stack of the pass at a later closing tag of its name.

So the numbers of reports and blocks follow from the numbers of events. -/
theorem nothing_lost_or_repeated (c : Checkup) (E : List Event) :
    ((balance c E).found = (account E).filterMap (Finding.diagnostic? c E) ∧
      (balance c E).pairs = (account E).filterMap (Finding.block? E) ∧
      ∀ v ∈ account E, (v.diagnostic? c E).map (·.problem.rule) = v.rule? ∧
        (v.block? E).isSome = v.isPaired) ∧
    (∀ v, v ∈ account E ↔ v.Holds E) ∧
    (∀ p, ((account E).flatMap (Finding.playing p)).Perm
      (select (fun F e => decide (e.kind.part? = some p) && calls F e) E)) ∧
    ((∀ j, (run c {} (E.take j)).tags = (openComponents (E.take j)).filterMap (componentAt E)) ∧
      ∀ k m, Consumes E k m → k < m ∧ ∃ x y, E[k]? = some x ∧ x.kind = .openTag ∧
        E[m]? = some y ∧ y.kind = .closeTag ∧ x.name = y.name) ∧
    (numberOf E .openTag : Int) - (balance c E).tally .unclosedTag =
      numberOf E .closeTag - (balance c E).tally .unmatchedTag ∧
    numberOf E .opener = (balance c E).pairs.length + (balance c E).tally .unclosedDirective ∧
    ((balance c E).tally .unmatchedDirective : Int) =
      (numberOf E .closer - (balance c E).pairs.length) +
        (strayElses c E).length ∧
    (balance c E).tally .duplicateExtends = extendsCount E - 1 ∧
    (balance c E).tally .repeatedMarker = numberOf E .doubleAt := by
  have htally : ∀ r, (balance c E).tally r =
      ((account E).map fun v => (decide (v.rule? = some r)).toNat).sum := countP_rule c E
  have hblocks := length_pairs c E
  have hnumber : ∀ p : Part, p ≠ .elseBranch → p ≠ .extendsMarker →
      numberOf E p = ((account E).map fun v => (v.playing p).length).sum := fun p he hx => by
    rw [← Event.length_select_part E he hx, length_playing]
  have helse : (strayElses c E).length =
      ((account E).map fun v => (v.playing .elseBranch).length).sum := by
    rw [strayElses_eq, length_playing]
  have hextends : extendsCount E - 1 =
      ((account E).map fun v => (v.playing .extendsMarker).length).sum := by
    rw [← Event.length_select_extends, length_playing]
  refine ⟨⟨found_eq_account c E, pairs_eq_account c E,
      fun v hv => (Event.mem_account_iff.mp hv).reads c⟩,
    fun v => Event.mem_account_iff, Event.perm_playing E,
    ⟨run_tags_take c E, fun k m h => h.tags⟩, ?_, ?_, ?_, ?_, ?_⟩
  -- each number is a sum over the account, and finding by finding the two sides are the same
  · have hsum := sum_map_add_congr (L := account E)
      (F := fun v => (v.playing .openTag).length)
      (G := fun v => (decide (v.rule? = some .unmatchedTag)).toNat)
      (H := fun v => (v.playing .closeTag).length)
      (K := fun v => (decide (v.rule? = some .unclosedTag)).toNat) fun v => by cases v <;> rfl
    rw [hnumber .openTag (by simp) (by simp), hnumber .closeTag (by simp) (by simp), htally, htally]
    omega
  · have hsum := sum_map_add_congr (L := account E)
      (F := fun v => (v.playing .opener).length) (G := fun _ => 0)
      (H := fun v => v.isPaired.toNat)
      (K := fun v => (decide (v.rule? = some .unclosedDirective)).toNat) fun v => by cases v <;> rfl
    rw [hnumber .opener (by simp) (by simp), htally, hblocks, ← hsum]
    simp
  · have hsum := sum_map_add_congr (L := account E)
      (F := fun v => (v.playing .closer).length) (G := fun v => (v.playing .elseBranch).length)
      (H := fun v => v.isPaired.toNat)
      (K := fun v => (decide (v.rule? = some .unmatchedDirective)).toNat) fun v => by
        cases v <;> rfl
    rw [hnumber .closer (by simp) (by simp), htally, hblocks, helse]
    omega
  · rw [htally, hextends]
    exact congrArg List.sum (List.map_congr_left fun v _ => by cases v <;> rfl)
  · rw [htally, hnumber .doubleAt (by simp) (by simp)]
    exact congrArg List.sum (List.map_congr_left fun v _ => by cases v <;> rfl)

end Pass

end ViewLint
