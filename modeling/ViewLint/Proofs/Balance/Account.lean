import ViewLint.Proofs.Balance.Clean
import ViewLint.Proofs.Balance.Fences

/-!
# What the balance pass concludes about which event

A report of the pass is a range and a problem, and a block is a name and two ranges. Neither says
which events of the list it is about, and two events may be alike in all of these. A `Finding` is a
conclusion about events given by their indices, and `Event.account` lists the findings of a whole
run: those that each event brings about when it is read (`Event.concludes`) and those of the end of
the document (`Event.remaining`).

What the pass returns is this account, read off without a change of order: the reports are its
`Finding.diagnostic?` (`Pass.found_eq_account`) and the blocks its `Finding.block?`
(`Pass.pairs_eq_account`). Which findings are in it is said without the pass by `Finding.Holds`
(`Event.mem_account_iff`).
-/

namespace ViewLint

/-- A conclusion of the balance pass about events, which are given by their indices. -/
inductive Finding where
  | duplicateExtends (i : Nat)
  | repeatedMarker (i : Nat)
  | unmatchedCloser (j : Nat)
  | unmatchedElse (i : Nat)
  | unclosedDirective (i : Nat)
  /-- The closer at `j` closes the block opened at `i`. -/
  | paired (i j : Nat)
  /-- The closing tag at `m` consumes the component opened at `k`. -/
  | consumed (k m : Nat)
  | unclosedTag (k : Nat)
  | unmatchedTag (m : Nat)
  deriving DecidableEq

open Event (openComponents componentAt blockAt named extendsCount tagsOpened Consumes Fences fenced)

namespace Finding

/-- The events that a finding is about. -/
def subjects : Finding → List Nat
  | duplicateExtends i | repeatedMarker i | unmatchedCloser i | unmatchedElse i
  | unclosedDirective i | unclosedTag i | unmatchedTag i => [i]
  | paired i j | consumed i j => [i, j]

theorem subjects_ne_nil (v : Finding) : v.subjects ≠ [] := by
  cases v <;> simp [subjects]

/-- The report of a finding. Blocks and consumed components are not reported. -/
def diagnostic? (c : Checkup) (E : List Event) : Finding → Option Diagnostic
  | duplicateExtends i => E[i]?.map fun e => ⟨c.wholeLine e.line, .duplicateExtends⟩
  | repeatedMarker i => E[i]?.map fun e => ⟨e.range, .repeatedMarker⟩
  | unmatchedCloser i | unmatchedElse i => E[i]?.map c.unmatchedDirective
  | unclosedDirective i => (blockAt E i).map c.unclosedDirective
  | unclosedTag k => Pass.unclosedAt c E k
  | unmatchedTag m => E[m]?.map fun e => ⟨e.range, .unmatchedTag e.name⟩
  | paired _ _ | consumed _ _ => none

/-- The block of a finding. -/
def block? (E : List Event) : Finding → Option Block
  | paired i j => E[i]?.bind fun x => E[j]?.map fun y => ⟨x.name, x.range, y.range⟩
  | _ => none

/-- Further events leave the report and the block of a finding as they are. -/
theorem reading_concat (c : Checkup) {E : List Event} {v : Finding}
    (h : ∀ i ∈ v.subjects, i < E.length) (e : Event) :
    v.diagnostic? c (E ++ [e]) = v.diagnostic? c E ∧ v.block? (E ++ [e]) = v.block? E := by
  -- a finding is read off the events that it concerns, and they are all there already
  have hget : ∀ i ∈ v.subjects, (E ++ [e])[i]? = E[i]? := fun i hi =>
    List.getElem?_append_left (h i hi)
  cases v with
  | paired i j =>
    simp only [diagnostic?, block?, hget i (by simp [subjects]), hget j (by simp [subjects]),
      and_self]
  | consumed k m => exact ⟨rfl, rfl⟩
  | unclosedDirective i =>
    simp only [diagnostic?, block?, Event.blockAt_concat (h i List.mem_cons_self), and_self]
  | unclosedTag k =>
    simp only [diagnostic?, block?, Pass.unclosedAt,
      Event.componentAt_concat (h k List.mem_cons_self), and_self]
  | _ => simp only [diagnostic?, block?, hget _ List.mem_cons_self, and_self]

end Finding

namespace Event

/-- The kind of the event at an index. -/
def kindAt (E : List Event) (i : Nat) : Option Kind := E[i]?.map (·.kind)

theorem kindAt_eq_some_iff {E : List Event} {i : Nat} {k : Kind} :
    kindAt E i = some k ↔ ∃ e, E[i]? = some e ∧ e.kind = k := Option.map_eq_some_iff

theorem kindAt_of_mem_openComponents {E : List Event} {k : Nat} (hk : k ∈ openComponents E) :
    kindAt E k = some .openTag :=
  kindAt_eq_some_iff.mpr (openTag_of_mem_openComponents hk)

theorem kindAt_of_mem_openComponents_take {E : List Event} {j k : Nat}
    (hk : k ∈ openComponents (E.take j)) : kindAt E k = some .openTag := by
  have hkind := kindAt_of_mem_openComponents hk
  rwa [kindAt, List.getElem?_take_of_lt (lt_of_mem_openComponents_take hk)] at hkind

end Event

open Event (kindAt)

/-- **What a finding says**, without the pass. -/
def Finding.Holds (E : List Event) : Finding → Prop
  | duplicateExtends i => kindAt E i = some .extendsMarker ∧ extendsCount (E.take i) ≠ 0
  | repeatedMarker i => kindAt E i = some .doubleAt
  | unmatchedCloser j => ∃ f, kindAt E j = some (.closer f) ∧
      (Bracket.family f).pending (E.take j) = []
  | unmatchedElse i => kindAt E i = some .elseBranch ∧
      (Bracket.family .conditional).pending (E.take i) = []
  | unclosedDirective i => ∃ f, i ∈ (Bracket.family f).pending E
  | paired i j => ∃ f, (Bracket.family f).Pairs E i j
  | consumed k m => Consumes E k m
  | unclosedTag k => k ∈ openComponents E ∨
      ∃ f i j, (Bracket.family f).Pairs E i j ∧ k ∈ fenced E i j
  | unmatchedTag m => ∃ y, E[m]? = some y ∧ y.kind = .closeTag ∧
      ∀ k ∈ openComponents (E.take m), named E y.name k = false

/-! ### The parts that events play in findings -/

/-- What an event does in a finding. -/
inductive Part where
  | opener
  | closer
  | elseBranch
  | openTag
  | closeTag
  | extendsMarker
  | doubleAt
  deriving DecidableEq

/-- The part of an event of a kind. Self-closed tags have none. -/
def Event.Kind.part? : Event.Kind → Option Part
  | .opener _ => some .opener
  | .closer _ => some .closer
  | .elseBranch => some .elseBranch
  | .openTag => some .openTag
  | .closeTag => some .closeTag
  | .extendsMarker => some .extendsMarker
  | .doubleAt => some .doubleAt
  | .selfClosedTag => none

namespace Finding

/-- The events of a finding with their parts. -/
def parts : Finding → List (Part × Nat)
  | duplicateExtends i => [(.extendsMarker, i)]
  | repeatedMarker i => [(.doubleAt, i)]
  | unmatchedCloser j => [(.closer, j)]
  | unmatchedElse i => [(.elseBranch, i)]
  | unclosedDirective i => [(.opener, i)]
  | paired i j => [(.opener, i), (.closer, j)]
  | consumed k m => [(.openTag, k), (.closeTag, m)]
  | unclosedTag k => [(.openTag, k)]
  | unmatchedTag m => [(.closeTag, m)]

theorem map_snd_parts (v : Finding) : v.parts.map Prod.snd = v.subjects := by
  cases v <;> rfl

/-- The kinds of the events of a finding are those of their parts. -/
theorem Holds.kind_part {E : List Event} {v : Finding} (h : v.Holds E) :
    ∀ q ∈ v.parts, (kindAt E q.2).bind Event.Kind.part? = some q.1 := by
  -- it is enough to know the kind of the event in question
  have hat : ∀ {i k p}, kindAt E i = some k → k.part? = some p →
      (kindAt E i).bind Event.Kind.part? = some p := by
    intro i k p hk hp
    rw [hk]
    exact hp
  intro q hq
  cases v with
  | duplicateExtends i =>
    obtain rfl := List.mem_singleton.mp hq
    exact hat h.1 rfl
  | repeatedMarker i =>
    obtain rfl := List.mem_singleton.mp hq
    exact hat h rfl
  | unmatchedCloser j =>
    obtain rfl := List.mem_singleton.mp hq
    obtain ⟨f, hk, -⟩ := h
    exact hat hk rfl
  | unmatchedElse i =>
    obtain rfl := List.mem_singleton.mp hq
    exact hat h.1 rfl
  | unclosedDirective i =>
    obtain rfl := List.mem_singleton.mp hq
    obtain ⟨f, hi⟩ := h
    -- a block that is left open is pending, so it was opened by a marker of its family
    obtain ⟨d, hd⟩ := List.mem_iff_getElem?.mp hi
    obtain ⟨⟨x, hx, ho⟩, -⟩ := ((Bracket.family f).getElem?_pending E d i).mp hd
    exact hat (Event.kindAt_eq_some_iff.mpr ⟨x, hx, of_decide_eq_true ho⟩) rfl
  | paired i j =>
    -- a pair is an opener and a closer, each with its own part
    obtain ⟨f, -, ⟨x, hx, ho⟩, ⟨y, hy, hc⟩, -⟩ := h
    rcases List.mem_pair.mp hq with rfl | rfl
    · exact hat (Event.kindAt_eq_some_iff.mpr ⟨x, hx, of_decide_eq_true ho⟩) rfl
    · exact hat (Event.kindAt_eq_some_iff.mpr ⟨y, hy, of_decide_eq_true hc⟩) rfl
  | consumed k m =>
    rcases List.mem_pair.mp hq with rfl | rfl
    · exact hat (Event.kindAt_of_mem_openComponents_take h.2.1) rfl
    · exact hat (Event.kindAt_eq_some_iff.mpr h.1) rfl
  | unclosedTag k =>
    obtain rfl := List.mem_singleton.mp hq
    -- a component is left open at the end, or was taken by a fence on the way
    rcases h with hk | ⟨f, i, j, -, hk⟩
    · exact hat (Event.kindAt_of_mem_openComponents hk) rfl
    · exact hat (Event.kindAt_of_mem_openComponents_take (Event.mem_fenced_iff.mp hk).1) rfl
  | unmatchedTag m =>
    obtain rfl := List.mem_singleton.mp hq
    obtain ⟨y, hy, hc, -⟩ := h
    exact hat (Event.kindAt_eq_some_iff.mpr ⟨y, hy, hc⟩) rfl

/-- What holds is about events of the list. -/
theorem Holds.lt_length {E : List Event} {v : Finding} (h : v.Holds E) :
    ∀ i ∈ v.subjects, i < E.length := by
  intro i hi
  rw [← map_snd_parts, List.mem_map] at hi
  obtain ⟨q, hq, rfl⟩ := hi
  obtain ⟨k, hk, -⟩ := Option.bind_eq_some_iff.mp (h.kind_part q hq)
  obtain ⟨x, hx, -⟩ := Event.kindAt_eq_some_iff.mp hk
  exact (List.getElem?_eq_some_iff.mp hx).1

end Finding

/-! ### The account of a list -/

namespace Event

/-- What the event `e` brings about, which comes after the events `E`. -/
def concludes (E : List Event) (e : Event) : List Finding :=
  match e.kind with
  | .extendsMarker => if extendsCount E = 0 then [] else [.duplicateExtends E.length]
  | .doubleAt => [.repeatedMarker E.length]
  | .elseBranch =>
    if (Bracket.family .conditional).pending E = [] then [.unmatchedElse E.length] else []
  | .closer f =>
    match ((Bracket.family f).pending E).head? with
    | some i =>
      ((openComponents E).filter (i < ·)).reverse.map .unclosedTag ++ [.paired i E.length]
    | none => [.unmatchedCloser E.length]
  | .closeTag =>
    match (openComponents E).find? (named E e.name) with
    | some k => [.consumed k E.length]
    | none => [.unmatchedTag E.length]
  | .opener _ | .openTag | .selfClosedTag => []

/-- The findings of all events, in their order. -/
def conclusions : List Event → List Finding :=
  foldFront (fun E e found => found ++ concludes E e) []

/-- The findings of the end of the document: what is still open. -/
def remaining (E : List Event) : List Finding :=
  Family.all.flatMap (fun f => ((Bracket.family f).pending E).reverse.map .unclosedDirective) ++
    (openComponents E).reverse.map .unclosedTag

/-- **The account** of a list of events: everything that the pass concludes. -/
def account (E : List Event) : List Finding := conclusions E ++ remaining E

theorem conclusions_concat (E : List Event) (e : Event) :
    conclusions (E ++ [e]) = conclusions E ++ concludes E e := foldFront_concat _ _ E e

/-- The findings are those that the single events bring about. -/
theorem mem_conclusions_iff {E : List Event} {v : Finding} :
    v ∈ conclusions E ↔ ∃ j e, E[j]? = some e ∧ v ∈ concludes (E.take j) e := by
  -- an event added at the end concludes for itself, and what was concluded before stays
  induction E using List.reverseRecOn with
  | nil => simp [conclusions]
  | append_singleton E e ih =>
    rw [conclusions_concat, List.mem_append, ih]
    constructor
    · rintro (⟨j, x, hx, hv⟩ | hv)
      · have hj := (List.getElem?_eq_some_iff.mp hx).1
        refine ⟨j, x, (List.getElem?_append_left hj).trans hx, ?_⟩
        rwa [List.take_append_of_le_length hj.le]
      · refine ⟨E.length, e, List.getElem?_concat_length, ?_⟩
        rwa [List.take_left]
    · rintro ⟨j, x, hx, hv⟩
      -- the event is an old one, the new one, or lies behind the end
      rcases Nat.lt_trichotomy j E.length with hj | rfl | hj
      · rw [List.getElem?_append_left hj] at hx
        rw [List.take_append_of_le_length hj.le] at hv
        exact Or.inl ⟨j, x, hx, hv⟩
      · rw [List.getElem?_concat_length] at hx
        obtain rfl := Option.some.inj hx
        rw [List.take_left] at hv
        exact Or.inr hv
      · have hlen := (List.getElem?_eq_some_iff.mp hx).1
        rw [List.length_append, List.length_singleton] at hlen
        omega

/-- What an event brings about holds. -/
theorem holds_of_mem_concludes {E : List Event} {j : Nat} {e : Event} {v : Finding}
    (he : E[j]? = some e) (h : v ∈ concludes (E.take j) e) : v.Holds E := by
  -- the events before `j` are numbered below `j`, so `j` is the number of the event itself
  have hj : (E.take j).length = j :=
    List.length_take_of_le (List.getElem?_eq_some_iff.mp he).1.le
  have hkind : ∀ {k}, e.kind = k → kindAt E j = some k := fun hk =>
    kindAt_eq_some_iff.mpr ⟨e, he, hk⟩
  unfold concludes at h
  rw [hj] at h
  -- for each kind of event, what it concludes is what its rule asks for
  cases hk : e.kind with
  | extendsMarker =>
    simp only [hk] at h
    split at h
    · cases h
    · next hne =>
      obtain rfl := List.mem_singleton.mp h
      exact ⟨hkind hk, hne⟩
  | elseBranch =>
    simp only [hk] at h
    split at h
    · next hnil =>
      obtain rfl := List.mem_singleton.mp h
      exact ⟨hkind hk, hnil⟩
    · cases h
  | doubleAt =>
    simp only [hk] at h
    -- a run of at signs is always found, whatever stands before it
    obtain rfl := List.mem_singleton.mp h
    exact hkind hk
  | closer f =>
    simp only [hk] at h
    split at h
    · next i hi =>
      -- the innermost open block of the family is closed
      have hpairs : (Bracket.family f).Pairs E i j :=
        ((Bracket.family f).pairs_iff_head?_pending E i j).mpr ⟨⟨e, he, decide_eq_true hk⟩, hi⟩
      rcases List.mem_append.mp h with h | h
      · -- a component opened inside the block is taken by the fence
        obtain ⟨k, hk', rfl⟩ := List.mem_map.mp h
        exact Or.inr ⟨f, i, j, hpairs, List.mem_reverse.mp hk'⟩
      · -- the block itself
        obtain rfl := List.mem_singleton.mp h
        exact ⟨f, hpairs⟩
    · next hnone =>
      obtain rfl := List.mem_singleton.mp h
      exact ⟨f, hkind hk, List.head?_eq_none_iff.mp hnone⟩
  | closeTag =>
    simp only [hk] at h
    split at h
    · next k hf =>
      -- the innermost open component with the name of the tag is closed
      obtain rfl := List.mem_singleton.mp h
      exact (consumes_iff_find? he hk k).mpr hf
    · next hnone =>
      -- no open component has this name, or the search would have stopped at it
      obtain rfl := List.mem_singleton.mp h
      refine ⟨e, he, hk, fun k hk' => ?_⟩
      have hne := List.find?_eq_none.mp hnone k hk'
      rw [named_take e.name (lt_of_mem_openComponents_take hk')] at hne
      simpa using hne
  -- opening markers conclude nothing
  | opener f => simp [hk] at h
  | openTag => simp [hk] at h
  | selfClosedTag => simp [hk] at h

theorem lt_of_mem_conclusions {E : List Event} {v : Finding} (h : v ∈ conclusions E) :
    ∀ i ∈ v.subjects, i < E.length := by
  obtain ⟨j, e, he, hv⟩ := mem_conclusions_iff.mp h
  exact (holds_of_mem_concludes he hv).lt_length

/-- What is still open at the end. -/
theorem mem_remaining_iff {E : List Event} {v : Finding} :
    v ∈ remaining E ↔
      (∃ f, ∃ i ∈ (Bracket.family f).pending E, v = .unclosedDirective i) ∨
        ∃ k ∈ openComponents E, v = .unclosedTag k := by
  unfold remaining
  rw [List.mem_append, List.mem_flatMap, List.mem_map]
  -- first the blocks, for each family on its own, then the components; both lists are turned
  -- round
  refine or_congr ⟨?_, ?_⟩ ⟨?_, ?_⟩
  · rintro ⟨f, -, hv⟩
    obtain ⟨i, hi, rfl⟩ := List.mem_map.mp hv
    exact ⟨f, i, List.mem_reverse.mp hi, rfl⟩
  · rintro ⟨f, i, hi, rfl⟩
    exact ⟨f, by cases f <;> simp [Family.all],
      List.mem_map.mpr ⟨i, List.mem_reverse.mpr hi, rfl⟩⟩
  · rintro ⟨k, hk, rfl⟩
    exact ⟨k, List.mem_reverse.mp hk, rfl⟩
  · rintro ⟨k, hk, rfl⟩
    exact ⟨k, List.mem_reverse.mpr hk, rfl⟩

/-- What holds and is not about the end is brought about by an event. -/
theorem mem_conclusions_of_holds {E : List Event} {v : Finding} (h : v.Holds E)
    (hv : v ∉ remaining E) : v ∈ conclusions E := by
  rw [mem_conclusions_iff]
  have hlen : ∀ {j e}, E[j]? = some e → (E.take j).length = j := fun he =>
    List.length_take_of_le (List.getElem?_eq_some_iff.mp he).1.le
  -- every finding is concluded by the event that completes it, unless it waits for the end
  cases v with
  | duplicateExtends i =>
    obtain ⟨hkind, hne⟩ := h
    obtain ⟨e, he, hk⟩ := kindAt_eq_some_iff.mp hkind
    exact ⟨i, e, he, by simp [concludes, hk, hne, hlen he]⟩
  | repeatedMarker i =>
    obtain ⟨e, he, hk⟩ := kindAt_eq_some_iff.mp h
    exact ⟨i, e, he, by simp [concludes, hk, hlen he]⟩
  | unmatchedCloser j =>
    obtain ⟨f, hkind, hnil⟩ := h
    obtain ⟨e, he, hk⟩ := kindAt_eq_some_iff.mp hkind
    exact ⟨j, e, he, by simp [concludes, hk, hnil, hlen he]⟩
  | unmatchedElse i =>
    obtain ⟨hkind, hnil⟩ := h
    obtain ⟨e, he, hk⟩ := kindAt_eq_some_iff.mp hkind
    exact ⟨i, e, he, by simp [concludes, hk, hnil, hlen he]⟩
  | unclosedDirective i =>
    -- a block that is still open is found at the end, not before
    obtain ⟨f, hi⟩ := h
    exact absurd (mem_remaining_iff.mpr (Or.inl ⟨f, i, hi, rfl⟩)) hv
  | paired i j =>
    obtain ⟨f, hpairs⟩ := h
    obtain ⟨⟨y, hy, hc⟩, hhead⟩ := ((Bracket.family f).pairs_iff_head?_pending E i j).mp hpairs
    exact ⟨j, y, hy, by simp [concludes, of_decide_eq_true hc, hhead, hlen hy]⟩
  | consumed k m =>
    obtain ⟨y, hy, hc⟩ := h.1
    have hf := (consumes_iff_find? hy hc k).mp h
    exact ⟨m, y, hy, by simp [concludes, hc, hf, hlen hy]⟩
  | unclosedTag k =>
    rcases h with hk | ⟨f, i, j, hpairs, hk⟩
    · exact absurd (mem_remaining_iff.mpr (Or.inr ⟨k, hk, rfl⟩)) hv
    · -- a component that a fence takes is found at the closer of the block
      obtain ⟨⟨y, hy, hc⟩, hhead⟩ := ((Bracket.family f).pairs_iff_head?_pending E i j).mp hpairs
      have hmem := mem_fenced_iff.mp hk
      exact ⟨j, y, hy, by simp [concludes, of_decide_eq_true hc, hhead, hmem]⟩
  | unmatchedTag m =>
    obtain ⟨y, hy, hc, hnone⟩ := h
    -- the search for an open component of this name finds none
    have hf : (openComponents (E.take m)).find? (named (E.take m) y.name) = none := by
      refine List.find?_eq_none.mpr fun k hk => ?_
      rw [named_take y.name (lt_of_mem_openComponents_take hk), hnone k hk]
      simp
    exact ⟨m, y, hy, by simp [concludes, hc, hf, hlen hy]⟩

/-- **What is in the account**, said without the pass. -/
theorem mem_account_iff {E : List Event} {v : Finding} : v ∈ account E ↔ v.Holds E := by
  unfold account
  rw [List.mem_append]
  constructor
  · rintro (hv | hv)
    · -- concluded on the way
      obtain ⟨j, e, he, hv⟩ := mem_conclusions_iff.mp hv
      exact holds_of_mem_concludes he hv
    · -- left over at the end
      rcases mem_remaining_iff.mp hv with ⟨f, i, hi, rfl⟩ | ⟨k, hk, rfl⟩
      · exact ⟨f, hi⟩
      · exact Or.inl hk
  · intro h
    by_cases hv : v ∈ remaining E
    · exact Or.inr hv
    · exact Or.inl (mem_conclusions_of_holds h hv)

/-- The findings are about events of the list. -/
theorem lt_of_mem_account {E : List Event} {v : Finding} (h : v ∈ account E) :
    ∀ i ∈ v.subjects, i < E.length := (mem_account_iff.mp h).lt_length

/-- Further events leave the readings of the findings as they are. -/
theorem filterMap_conclusions_concat (c : Checkup) (E : List Event) (e : Event) :
    (conclusions E).filterMap (Finding.diagnostic? c (E ++ [e])) =
        (conclusions E).filterMap (Finding.diagnostic? c E) ∧
      (conclusions E).filterMap (Finding.block? (E ++ [e])) =
        (conclusions E).filterMap (Finding.block? E) :=
  ⟨List.filterMap_congr fun _ hv => (Finding.reading_concat c (lt_of_mem_conclusions hv) e).1,
    List.filterMap_congr fun _ hv => (Finding.reading_concat c (lt_of_mem_conclusions hv) e).2⟩

end Event

/-! ### The account is what the pass returns -/

namespace Pass

open Event (concludes conclusions remaining account)

/-- A name has an open tag exactly if a search finds an open component of that name. -/
theorem any_name_run_tags (c : Checkup) (E : List Event) (n : Text) :
    (run c {} E).tags.any (·.name == n) = ((openComponents E).find? (named E n)).isSome := by
  rw [run_tags, List.any_filterMap, Bool.eq_iff_iff, List.any_eq_true, List.find?_isSome]
  refine exists_congr fun k => and_congr_right fun _ => ?_
  unfold componentAt named
  cases E[k]? <;> rfl

/-- **What one event adds** to the reports and to the blocks. -/
theorem run_concat_reads (c : Checkup) (E : List Event) (e : Event) :
    (run c {} (E ++ [e])).found = (run c {} E).found ++
        (concludes E e).filterMap (Finding.diagnostic? c (E ++ [e])) ∧
      (run c {} (E ++ [e])).pairs = (run c {} E).pairs ++
        (concludes E e).filterMap (Finding.block? (E ++ [e])) := by
  -- each kind of event has a transition of its own, and each transition finds what `concludes`
  -- says
  have hnew : (E ++ [e])[E.length]? = some e := List.getElem?_concat_length
  cases hk : e.kind with
  | closer f =>
    cases hi : ((Bracket.family f).pending E).head? with
    | none =>
      -- the stack of the family is empty just in case no block of it is pending
      have hempty := (run_blocks_eq_nil_iff c E f).mpr (List.head?_eq_none_iff.mp hi)
      rw [run_concat, apply, hk]
      dsimp only
      rw [closeBlock, hempty, concludes, hk]
      dsimp only
      rw [hi]
      simp [Finding.diagnostic?, Finding.block?]
    | some i =>
      -- the block is closed, and the fence takes the components that were opened inside it
      obtain ⟨x, hx, -⟩ := Event.blockAt_of_head?_pending hi
      have hxe : (E ++ [e])[i]? = some x :=
        (List.getElem?_append_left (List.getElem?_eq_some_iff.mp hx).1).trans hx
      obtain ⟨hfound, hpairs⟩ := run_closer c hk hi hx
      -- what the fence takes is reported in the words of the components, the innermost first
      have htaken : (((openComponents E).filter (i < ·)).reverse.map Finding.unclosedTag).filterMap
          (Finding.diagnostic? c (E ++ [e])) =
          ((openComponents E).filter (i < ·)).reverse.filterMap (unclosedAt c E) := by
        rw [List.filterMap_map]
        refine List.filterMap_congr fun k hk' => ?_
        have hopen := (List.mem_filter.mp (List.mem_reverse.mp hk')).1
        simp only [Function.comp_apply, Finding.diagnostic?, unclosedAt,
          Event.componentAt_concat (Event.lt_length_of_mem_openComponents hopen)]
      -- but it makes no blocks
      have hnone : (((openComponents E).filter (i < ·)).reverse.map Finding.unclosedTag).filterMap
          (Finding.block? (E ++ [e])) = [] := by
        simp [Finding.block?]
      rw [hfound, hpairs, concludes, hk]
      dsimp only
      rw [hi]
      dsimp only
      rw [List.filterMap_append, List.filterMap_append, htaken, hnone]
      simp [Finding.diagnostic?, Finding.block?, hxe]
  | closeTag =>
    rw [run_concat, apply, hk]
    dsimp only
    rw [closeTag, any_name_run_tags, concludes, hk]
    dsimp only
    -- the search among the open components finds the one to close, or the tag is unmatched
    cases hf : (openComponents E).find? (named E e.name) with
    | none => simp [Finding.diagnostic?, Finding.block?]
    | some k => simp [Finding.diagnostic?, Finding.block?, found, pairs]
  | extendsMarker =>
    rw [run_concat, apply, hk, concludes, hk]
    dsimp only
    rw [run_extendsSeen]
    -- a second extends marker is a duplicate
    by_cases h : extendsCount E = 0
    · simp [h, found, pairs]
    · simp [h, found, pairs, Finding.diagnostic?, Finding.block?]
  | elseBranch =>
    have hempty := run_blocks_eq_nil_iff c E .conditional
    rw [run_concat, apply, hk, concludes, hk]
    dsimp only
    -- an else outside of all conditionals is unmatched
    by_cases h : (Bracket.family .conditional).pending E = []
    · simp [h, hempty.mpr h, Finding.diagnostic?, Finding.block?]
    · simp [h, mt hempty.mp h]
  | doubleAt =>
    rw [run_concat, apply, hk, concludes, hk]
    simp [Finding.diagnostic?, Finding.block?]
  | opener f =>
    -- what opens something finds nothing
    rw [run_concat, apply, hk, concludes, hk]
    simp [found, pairs]
  | openTag =>
    rw [run_concat, apply, hk, concludes, hk]
    simp [found, pairs]
  | selfClosedTag =>
    rw [run_concat, apply, hk, concludes, hk]
    simp

/-- What has been reported and paired after a list of events. -/
theorem run_reads (c : Checkup) (E : List Event) :
    (run c {} E).found = (conclusions E).filterMap (Finding.diagnostic? c E) ∧
      (run c {} E).pairs = (conclusions E).filterMap (Finding.block? E) := by
  induction E using List.reverseRecOn with
  | nil => exact ⟨rfl, rfl⟩
  | append_singleton E e ih =>
    obtain ⟨hd, hb⟩ := Event.filterMap_conclusions_concat c E e
    obtain ⟨hfound, hpairs⟩ := run_concat_reads c E e
    rw [Event.conclusions_concat, List.filterMap_append, List.filterMap_append, hd, hb, hfound,
      hpairs, ih.1, ih.2]
    exact ⟨rfl, rfl⟩

/-- **The reports are the account.** -/
theorem found_eq_account (c : Checkup) (E : List Event) :
    (balance c E).found = (account E).filterMap (Finding.diagnostic? c E) := by
  -- the blocks that are left over are reported family by family, the innermost first
  have hblocks : Family.all.flatMap
      (fun f => ((run c {} E).blocks.get f).reverse.map c.unclosedDirective) =
      (Family.all.flatMap fun f => ((Bracket.family f).pending E).reverse.map
        Finding.unclosedDirective).filterMap (Finding.diagnostic? c E) := by
    rw [List.filterMap_flatMap]
    refine List.flatMap_congr fun f _ => ?_
    rw [run_blocks_get, ← List.filterMap_reverse, List.map_filterMap, List.filterMap_map]
    rfl
  rw [balance_found, (run_reads c E).1, hblocks, account, remaining, List.filterMap_append,
    List.filterMap_append, List.filterMap_map, List.append_assoc]
  rfl

/-- **The blocks are the account.** -/
theorem pairs_eq_account (c : Checkup) (E : List Event) :
    (balance c E).pairs = (account E).filterMap (Finding.block? E) := by
  -- only a closer makes a block, and nothing is closed at the end
  have hnone : (remaining E).filterMap (Finding.block? E) = [] := by
    refine List.filterMap_eq_nil_iff.mpr fun v hv => ?_
    rcases List.mem_append.mp hv with hv | hv
    · obtain ⟨f, -, hv⟩ := List.mem_flatMap.mp hv
      obtain ⟨i, -, rfl⟩ := List.mem_map.mp hv
      rfl
    · obtain ⟨k, -, rfl⟩ := List.mem_map.mp hv
      rfl
  rw [account, List.filterMap_append, hnone, List.append_nil, ← (run_reads c E).2]
  rfl

end Pass

end ViewLint
