import Mathlib.Data.List.Basic
import ViewLint.Proofs.Event.Pattern
import ViewLint.Proofs.Text.Places

/-!
# The order of the events

The events of a text are those of the four searches, sorted by line, construct and column
(`Event.le`). Each search finds its events in source order, and source order is the order of the
places, so that the sort leaves the events of one construct in source order (`filter_ofText`): what
the sort moves are events of different constructs on one line.
-/

namespace ViewLint.Event

open Text (byte Pattern Occurrence searchFrom occurrences)

/-! ### The order -/

theorem le_iff {a b : Event} :
    le a b = true ↔ a.line < b.line ∨ a.line = b.line ∧ (a.kind.rank < b.kind.rank ∨
      a.kind.rank = b.kind.rank ∧ a.range.start.character ≤ b.range.start.character) := by
  unfold le
  by_cases hline : a.line = b.line
  · by_cases hrank : a.kind.rank = b.kind.rank
    · simp [hline, hrank]
    · simp [hline, hrank]
  · simp [hline]

theorem le_trans (a b c : Event) (hab : le a b = true) (hbc : le b c = true) :
    le a c = true := by
  rw [le_iff] at *
  omega

theorem le_total (a b : Event) : (le a b || le b a) = true := by
  rw [Bool.or_eq_true, le_iff, le_iff]
  omega

/-- An event of the same construct that starts before another one comes before it. -/
theorem le_of_before {a b : Event} (hrank : a.kind.rank = b.kind.rank)
    (h : a.range.start.before b.range.start = true) : le a b = true := by
  rw [le_iff]
  unfold Place.before at h
  unfold line
  split at h
  · next hline =>
    rw [decide_eq_true_eq] at h
    exact Or.inr ⟨hline, Or.inr ⟨hrank, Int.le_of_lt h⟩⟩
  · exact Or.inl (of_decide_eq_true h)

/-- The sort keeps the events of a class in their order, if they are in order already. -/
theorem filter_mergeSort {q : Event → Bool} {events : List Event}
    (h : (events.filter q).Pairwise fun a b => le a b = true) :
    (events.mergeSort le).filter q = events.filter q := by
  have hsub : (events.filter q).Sublist (events.mergeSort le) :=
    List.sublist_mergeSort le_trans le_total h List.filter_sublist
  -- the sorted list has no more of them, so that this is all of them
  have hsub' := hsub.filter q
  simp only [List.filter_filter, Bool.and_self] at hsub'
  have hperm := (List.mergeSort_perm events le).filter q
  exact (hsub'.eq_of_length hperm.length_eq.symm).symm

/-! ### The four searches -/

theorem kind_of_mem_doubleAts {text : Text} {e : Event} (h : e ∈ doubleAts text) :
    e.kind = .doubleAt := by
  obtain ⟨o, -, rfl⟩ := List.mem_map.mp h
  rfl

theorem kind_of_mem_directives {text : Text} {e : Event} (h : e ∈ directives text) :
    e.kind ∈ keywords.map (·.2) := by
  obtain ⟨o, -, ho⟩ := List.mem_filterMap.mp h
  split at ho
  · cases ho
  · obtain ⟨kind, hkind, rfl⟩ := Option.map_eq_some_iff.mp ho
    obtain ⟨before, behind, hsplit, -⟩ := List.lookup_eq_some_iff.mp hkind
    rw [hsplit, List.map_append, List.map_cons]
    exact List.mem_append_right _ List.mem_cons_self

theorem kind_of_mem_openTags {text : Text} {e : Event} (h : e ∈ openTags text) :
    e.kind = .openTag ∨ e.kind = .selfClosedTag := by
  obtain ⟨o, -, rfl⟩ := List.mem_map.mp h
  by_cases hself : isSelfClosed (o.text text) = true
  · exact Or.inr (if_pos hself)
  · exact Or.inl (if_neg hself)

theorem kind_of_mem_closeTags {text : Text} {e : Event} (h : e ∈ closeTags text) :
    e.kind = .closeTag := by
  obtain ⟨o, -, rfl⟩ := List.mem_map.mp h
  rfl

/-- What a search finds starts at increasing places. -/
theorem pairwise_placeAt {p : Pattern} {head : UInt8} (hp : p.Anchored head) (text : Text) :
    (occurrences p text).Pairwise fun o o' =>
      ((Document.mk text).placeAt o.start).before ((Document.mk text).placeAt o'.start) = true := by
  obtain ⟨hbounds, hpairs⟩ := hp.bounds_searchFrom 0 text
  refine List.Pairwise.imp_of_mem (fun {o o'} ho ho' hle => ?_) hpairs
  have hb := hbounds o ho
  have hb' := hbounds o' ho'
  exact Document.placeAt_before (by omega) (by omega)

/-- Among the tags only the last two searches count. -/
theorem filter_tags {q : Event → Bool} (hq : ∀ e, q e = true → e.kind.isTag = true) (text : Text) :
    (doubleAts text ++ directives text ++ openTags text ++ closeTags text).filter q =
      (openTags text).filter q ++ (closeTags text).filter q := by
  -- neither kind of marker is a tag
  have hdouble : (doubleAts text).filter q = [] := by
    refine List.filter_eq_nil_iff.mpr fun e he h => ?_
    have htag := hq e h
    rw [kind_of_mem_doubleAts he] at htag
    cases htag
  have hdirective : (directives text).filter q = [] := by
    refine List.filter_eq_nil_iff.mpr fun e he h => ?_
    have hnone : ∀ k ∈ keywords.map (·.2), k.isTag = false := by decide
    have htag := hq e h
    rw [hnone _ (kind_of_mem_directives he)] at htag
    cases htag
  rw [List.filter_append, List.filter_append, List.filter_append, hdouble, hdirective]
  rfl

/-- **The opening tags come in source order.** -/
theorem filter_openTag_ofText (text : Text) :
    (ofText text).filter (fun e => e.kind = .openTag ∨ e.kind = .selfClosedTag) =
      openTags text := by
  have hall : (openTags text).filter (fun e => e.kind = .openTag ∨ e.kind = .selfClosedTag) =
      openTags text :=
    List.filter_eq_self.mpr fun e he => decide_eq_true (kind_of_mem_openTags he)
  have hnone : (closeTags text).filter (fun e => e.kind = .openTag ∨ e.kind = .selfClosedTag) =
      [] :=
    List.filter_eq_nil_iff.mpr fun e he => by rw [kind_of_mem_closeTags he]; decide
  have hfilter := filter_tags (q := fun e => e.kind = .openTag ∨ e.kind = .selfClosedTag)
    (fun e h => by rcases of_decide_eq_true h with h | h <;> rw [h] <;> rfl) text
  rw [hall, hnone, List.append_nil] at hfilter
  have hsorted : (openTags text).Pairwise fun a b => le a b = true := by
    refine List.pairwise_map.mpr ((pairwise_placeAt anchored_openTag text).imp fun {o o'} h => ?_)
    -- self-closed or not, a tag has the same rank
    refine le_of_before ?_ h
    change Kind.rank (if _ then _ else _) = Kind.rank (if _ then _ else _)
    split <;> split <;> rfl
  unfold ofText
  rw [filter_mergeSort (by rwa [hfilter]), hfilter]

/-- **The closing tags come in source order.** -/
theorem filter_closeTag_ofText (text : Text) :
    (ofText text).filter (fun e => e.kind = .closeTag) = closeTags text := by
  have hall : (closeTags text).filter (fun e => e.kind = .closeTag) = closeTags text :=
    List.filter_eq_self.mpr fun e he => decide_eq_true (kind_of_mem_closeTags he)
  have hnone : (openTags text).filter (fun e => e.kind = .closeTag) = [] :=
    List.filter_eq_nil_iff.mpr fun e he => by
      rcases kind_of_mem_openTags he with h | h <;> rw [h] <;> decide
  have hfilter := filter_tags (q := fun e => e.kind = .closeTag)
    (fun e h => by rw [of_decide_eq_true h]; rfl) text
  rw [hall, hnone, List.nil_append] at hfilter
  -- the closing tags are found in text order, so sorting them changes nothing
  have hsorted : (closeTags text).Pairwise fun a b => le a b = true := by
    refine List.pairwise_map.mpr ((pairwise_placeAt anchored_closeTag text).imp fun {o o'} h => ?_)
    exact le_of_before rfl h
  unfold ofText
  rw [filter_mergeSort (by rwa [hfilter]), hfilter]

/-! ### Directives and tags -/

namespace Kind

theorem rank_of_isTag {k : Kind} (h : k.isTag = true) : k.rank = 5 := by
  cases k <;> first | rfl | cases h

theorem rank_lt_of_not_isTag {k : Kind} (h : k.isTag = false) : k.rank < 5 := by
  cases k with
  | opener f | closer f => cases f <;> decide
  | openTag | closeTag | selfClosedTag => cases h
  | extendsMarker | doubleAt | elseBranch => decide

end Kind

theorem pairwise_ofText (text : Text) : (ofText text).Pairwise fun a b => le a b = true :=
  List.pairwise_mergeSort le_trans le_total _

/-- **The order of a directive and a tag is that of their lines**, and on one line the directive
comes first. -/
theorem lt_cases_of_isTag {text : Text} {x t : Event} {i k : Nat}
    (hx : (ofText text)[i]? = some x) (ht : (ofText text)[k]? = some t)
    (hdirective : x.kind.isTag = false) (htag : t.kind.isTag = true) :
    i < k ∧ x.line ≤ t.line ∨ k < i ∧ t.line < x.line := by
  have hrank := Kind.rank_lt_of_not_isTag hdirective
  have hrank' := Kind.rank_of_isTag htag
  have hle : ∀ {i j : Nat} {a b : Event}, (ofText text)[i]? = some a →
      (ofText text)[j]? = some b → i < j → le a b = true := by
    intro i j a b ha hb hij
    obtain ⟨hi, rfl⟩ := List.getElem?_eq_some_iff.mp ha
    obtain ⟨hj, rfl⟩ := List.getElem?_eq_some_iff.mp hb
    exact List.pairwise_iff_getElem.mp (pairwise_ofText text) i j hi hj hij
  -- the order of the two indices is that of lines and ranks, and the ranks are different
  rcases Nat.lt_trichotomy i k with hik | rfl | hki
  · have h := le_iff.mp (hle hx ht hik)
    exact Or.inl ⟨hik, by omega⟩
  · obtain rfl := Option.some.inj (hx.symm.trans ht)
    omega
  · have h := le_iff.mp (hle ht hx hki)
    exact Or.inr ⟨hki, by omega⟩

end ViewLint.Event
