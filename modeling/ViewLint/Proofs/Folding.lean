import Mathlib.Data.Set.Basic
import ViewLint.FileTree.Host
import ViewLint.Proofs.Balance.Families
import ViewLint.Proofs.Balance.Ranges
import ViewLint.Proofs.Server.Run
import ViewLint.Server.Answer

/-!
# Folds are well formed

`folds_well_formed` says which folds a template has: one for each pair of matching directives with a
line between the two to spare, and one for each comment with a newline in it. All of them lie in the
document and hide at least one line, and they come in the order in which an editor wants them.

A region gives up the line of its closing directive, so that two regions of one family that meet on a
line do not overlap there. That any two of them are apart or nested follows from the same fact about
their brackets (`Bracket.Pairs.apart_or_inside`). Brackets are compared by their indices in the list of
events and regions by their lines, and the list is in the order of the lines (`Event.line_le_of_lt`).
-/

namespace ViewLint

open Text (byte)
open Event (account)

namespace Event

/-- Events come in the order of their lines. -/
theorem line_le_of_lt {text : Text} {x y : Event} {i j : Nat} (hx : (ofText text)[i]? = some x)
    (hy : (ofText text)[j]? = some y) (h : i < j) : x.line ≤ y.line := by
  obtain ⟨hi, rfl⟩ := List.getElem?_eq_some_iff.mp hx
  obtain ⟨hj, rfl⟩ := List.getElem?_eq_some_iff.mp hy
  have hle := le_iff.mp (List.pairwise_iff_getElem.mp (pairwise_ofText text) i j hi hj h)
  omega

/-- The matching directives of a list of events, by their indices, in closing order. -/
def matched (E : List Event) : List (Nat × Nat) := (account E).filterMap Finding.pair?

theorem mem_matched_iff {E : List Event} {i j : Nat} :
    (i, j) ∈ matched E ↔ ∃ f, (Bracket.family f).Pairs E i j := by
  have hpaired : (i, j) ∈ matched E ↔ .paired i j ∈ account E := by
    unfold matched
    rw [List.mem_filterMap]
    constructor
    · rintro ⟨v, hv, hpair⟩
      cases v <;> cases hpair
      exact hv
    · exact fun hv => ⟨_, hv, rfl⟩
  rw [hpaired]
  exact mem_account_iff

/-- No pair is listed twice. -/
theorem nodup_matched (E : List Event) : (matched E).Nodup :=
  (pairwise_pair?_account E).imp fun h heq => Nat.ne_of_lt h (congrArg Prod.snd heq)

end Event

/-- A closer has one partner at most. -/
theorem Bracket.Pairs.opener_unique {α : Type} {b : Bracket α} {l : List α} {i i' j : Nat}
    (h : b.Pairs l i j) (h' : b.Pairs l i' j) : i = i' := by
  have hhead := ((b.pairs_iff_head?_pending l i j).mp h).2
  have hhead' := ((b.pairs_iff_head?_pending l i' j).mp h').2
  exact Option.some.inj (hhead.symm.trans hhead')

namespace Fold

/-! ### Which folds there are -/

/-- The lines of a fold. -/
def lines (a : Fold) : Set Int := {line | a.startLine ≤ line ∧ line ≤ a.endLine}

/-- The region of two matching directives: from the line of the opener up to the one before the line of
the closer, if that is further down. -/
def ofPair? (E : List Event) (p : Nat × Nat) : Option Fold :=
  E[p.1]?.bind fun x => E[p.2]?.bind fun y =>
    if x.line + 2 ≤ y.line then some ⟨x.line, y.line - 1, .region⟩ else none

/-- The fold of a comment with a newline in it: from the line of its start to the line of its end. -/
def ofComment? (text : Text) (s : Comment.Span) : Option Fold :=
  if byte '\n' ∈ (text.drop s.start).take (s.stop - s.start) then
    some ⟨(text.take s.start).count (byte '\n'), (text.take s.stop).count (byte '\n'), .comment⟩
  else none

theorem ofPair?_eq_some {E : List Event} {p : Nat × Nat} {a : Fold} (h : ofPair? E p = some a) :
    ∃ x y, E[p.1]? = some x ∧ E[p.2]? = some y ∧ x.line + 2 ≤ y.line ∧
      a = ⟨x.line, y.line - 1, .region⟩ := by
  obtain ⟨x, hx, h⟩ := Option.bind_eq_some_iff.mp h
  obtain ⟨y, hy, h⟩ := Option.bind_eq_some_iff.mp h
  split at h
  · next hline => exact ⟨x, y, hx, hy, hline, (Option.some.inj h).symm⟩
  · cases h

theorem ofComment?_eq_some {text : Text} {s : Comment.Span} {a : Fold}
    (h : ofComment? text s = some a) :
    byte '\n' ∈ (text.drop s.start).take (s.stop - s.start) ∧
      a = ⟨(text.take s.start).count (byte '\n'), (text.take s.stop).count (byte '\n'),
        .comment⟩ := by
  unfold ofComment? at h
  split at h
  · next hnewline => exact ⟨hnewline, (Option.some.inj h).symm⟩
  · cases h

/-- What stands before the end of a comment is what stands before its start, and the comment. -/
theorem take_eq_append_span (text : Text) {s : Comment.Span} (h : s.start ≤ s.stop) :
    text.take s.stop = text.take s.start ++ (text.drop s.start).take (s.stop - s.start) := by
  rw [← List.take_add, Nat.add_sub_cancel' h]

/-- The blocks of the pass fold as the matching directives do. -/
theorem filterMap_ofBlock? (c : Checkup) (E : List Event) :
    (balance c E).pairs.filterMap ofBlock? = (Event.matched E).filterMap (ofPair? E) := by
  unfold Event.matched
  rw [Pass.pairs_eq_account, List.filterMap_filterMap, List.filterMap_filterMap]
  refine List.filterMap_congr fun v _ => ?_
  cases v with
  | paired i j =>
    change (E[i]?.bind fun x => E[j]?.map fun y => Block.mk x.name x.range y.range).bind ofBlock? =
      ofPair? E (i, j)
    unfold ofPair?
    cases E[i]? with
    | none => rfl
    | some x =>
      cases E[j]? with
      | none => rfl
      | some y =>
        -- a region of more than one line is one with a line to spare above the closer
        refine ite_congr (propext ?_) (fun _ => rfl) fun _ => rfl
        unfold Event.line
        dsimp only
        omega
  | _ => rfl

/-- A comment folds if it has a newline in it. -/
theorem ofSpan?_eq {text : Text} {s : Comment.Span} (h : s.start ≤ s.stop) :
    ofSpan? ⟨text⟩ s = ofComment? text s := by
  unfold ofSpan? ofComment? over?
  rw [Document.placeAt_eq, Document.placeAt_eq]
  unfold endPlace
  refine ite_congr (propext ?_) (fun _ => rfl) fun _ => rfl
  -- the newlines in the comment are those that its end has more before it than its start
  rw [take_eq_append_span text h, List.count_append, ← List.count_pos_iff]
  dsimp only
  omega

/-- The folds of a text, before they are sorted. -/
theorem perm_ofText (window : Int) (text : Text) :
    (ofText window text ⟨text⟩).Perm
      ((Event.matched (Event.ofText (Comment.strip text))).filterMap
          (ofPair? (Event.ofText (Comment.strip text))) ++
        (Comment.spans text).filterMap (ofComment? text)) := by
  have hspans : (Comment.spans text).filterMap (ofSpan? ⟨text⟩) =
      (Comment.spans text).filterMap (ofComment? text) := by
    refine List.filterMap_congr fun s hs => ofSpan?_eq (Nat.le_of_lt ?_)
    exact (Comment.bounds_spansFrom _ _ _ s hs).2
  rw [← hspans, ← filterMap_ofBlock?]
  exact List.mergeSort_perm _ le

/-- Of folds of two kinds, a filter leaves those of the one. -/
theorem filter_kind_append {kind : FoldKind} {own others : List Fold}
    (hown : ∀ a ∈ own, a.kind = kind) (hothers : ∀ a ∈ others, a.kind ≠ kind) :
    (own ++ others).filter (·.kind = kind) = own := by
  have hkept : own.filter (·.kind = kind) = own :=
    List.filter_eq_self.mpr fun a ha => decide_eq_true (hown a ha)
  have hdropped : others.filter (·.kind = kind) = [] :=
    List.filter_eq_nil_iff.mpr fun a ha => by simpa using hothers a ha
  rw [List.filter_append, hkept, hdropped, List.append_nil]

/-- Sorting keeps the folds of a kind. -/
theorem perm_filter_kind (window : Int) (text : Text) :
    ((ofText window text ⟨text⟩).filter (·.kind = .region)).Perm
        ((Event.matched (Event.ofText (Comment.strip text))).filterMap
          (ofPair? (Event.ofText (Comment.strip text)))) ∧
      ((ofText window text ⟨text⟩).filter (·.kind = .comment)).Perm
        ((Comment.spans text).filterMap (ofComment? text)) := by
  -- the folds of pairs are regions and those of comments comments, so the kind tells them apart
  have hregion : ∀ a ∈ (Event.matched (Event.ofText (Comment.strip text))).filterMap
      (ofPair? (Event.ofText (Comment.strip text))), a.kind = .region := by
    intro a ha
    obtain ⟨p, -, hp⟩ := List.mem_filterMap.mp ha
    obtain ⟨x, y, -, -, -, rfl⟩ := ofPair?_eq_some hp
    rfl
  have hcomment : ∀ a ∈ (Comment.spans text).filterMap (ofComment? text), a.kind = .comment := by
    intro a ha
    obtain ⟨s, -, hs⟩ := List.mem_filterMap.mp ha
    obtain ⟨-, rfl⟩ := ofComment?_eq_some hs
    rfl
  have hne : FoldKind.comment ≠ FoldKind.region := by decide
  have hperm := perm_ofText window text
  constructor
  · have hfilter := hperm.filter (·.kind = .region)
    rwa [filter_kind_append hregion fun a ha => by rw [hcomment a ha]; exact hne] at hfilter
  · have hfilter := (hperm.trans List.perm_append_comm).filter (·.kind = .comment)
    rwa [filter_kind_append hcomment fun a ha => by rw [hregion a ha]; exact hne.symm] at hfilter

/-! ### Where they are -/

/-- A fold hides at least one line, and all its lines are in the document. -/
def Inside (doc : Document) (a : Fold) : Prop :=
  0 ≤ a.startLine ∧ a.startLine < a.endLine ∧ a.endLine < doc.lineCount

theorem inside_ofPair? {text : Text} {p : Nat × Nat} {a : Fold}
    (h : ofPair? (Event.ofText (Comment.strip text)) p = some a) : a.Inside ⟨text⟩ := by
  obtain ⟨x, y, hx, hy, hline, rfl⟩ := ofPair?_eq_some h
  -- both directives stand in the text itself, on lines that there are
  obtain ⟨_, _, hopener⟩ := Event.exists_solidSpan_of_strip (List.mem_of_getElem? hx)
  obtain ⟨_, _, hcloser⟩ := Event.exists_solidSpan_of_strip (List.mem_of_getElem? hy)
  have hstart : 0 ≤ x.line := hopener.line_bounds.1
  have hstop : y.line < (Document.mk text).lineCount := hcloser.line_bounds.2
  unfold Inside
  dsimp only
  omega

theorem inside_ofComment? {text : Text} {s : Comment.Span} (hs : s.start ≤ s.stop) {a : Fold}
    (h : ofComment? text s = some a) : a.Inside ⟨text⟩ := by
  obtain ⟨hnewline, rfl⟩ := ofComment?_eq_some h
  have hsplit := take_eq_append_span text hs
  have hpos := List.count_pos_iff.mpr hnewline
  have hle := (List.take_sublist s.stop text).count_le (byte '\n')
  unfold Inside
  rw [Document.lineCount_eq]
  dsimp only
  rw [hsplit, List.count_append] at hle ⊢
  omega

/-- **The region of a pair leaves the line of the closer visible.** -/
theorem closer_not_mem_lines {E : List Event} {p : Nat × Nat} {a : Fold} (h : ofPair? E p = some a)
    {y : Event} (hy : E[p.2]? = some y) : y.line ∉ a.lines := by
  obtain ⟨x, y', -, hy', -, rfl⟩ := ofPair?_eq_some h
  obtain rfl := Option.some.inj (hy.symm.trans hy')
  rintro ⟨-, hle⟩
  dsimp only at hle
  omega

section

variable {text : Text} {f : Family} {p q : Nat × Nat} {a b : Fold}
  (hp : (Bracket.family f).Pairs (Event.ofText text) p.1 p.2)
  (hq : (Bracket.family f).Pairs (Event.ofText text) q.1 q.2)
  (ha : ofPair? (Event.ofText text) p = some a) (hb : ofPair? (Event.ofText text) q = some b)

include hp hq ha hb

/-- Of two regions of one family, the one that is closed first is apart from the other or inside it. -/
theorem lines_apart_or_inside (hlt : p.2 < q.2) : a.lines ∩ b.lines = ∅ ∨ a.lines ⊆ b.lines := by
  obtain ⟨x, y, hx, hy, -, rfl⟩ := ofPair?_eq_some ha
  obtain ⟨x', y', hx', hy', -, rfl⟩ := ofPair?_eq_some hb
  unfold lines
  rcases hp.apart_or_inside hq hlt with hapart | hinside
  · -- the second opener is no higher than the first closer, whose line is not in the region
    have hline := Event.line_le_of_lt hy hx' hapart
    left
    rw [Set.eq_empty_iff_forall_notMem]
    rintro line ⟨⟨-, hle⟩, hge, -⟩
    dsimp only at hle hge
    omega
  · have hopeners := Event.line_le_of_lt hx' hx hinside
    have hclosers := Event.line_le_of_lt hy hy' hlt
    right
    rintro line ⟨hge, hle⟩
    dsimp only at hle hge
    constructor
    · dsimp only
      omega
    · dsimp only
      omega

/-- **Regions of one family are apart or nested.** -/
theorem lines_apart_or_nested :
    a.lines ∩ b.lines = ∅ ∨ a.lines ⊆ b.lines ∨ b.lines ⊆ a.lines := by
  rcases Nat.lt_trichotomy p.2 q.2 with hlt | heq | hlt
  · exact (lines_apart_or_inside hp hq ha hb hlt).imp_right Or.inl
  · -- pairs with the same closer are the same
    have hpq : p = q := Prod.ext (hp.opener_unique (heq ▸ hq)) heq
    rw [hpq, hb] at ha
    obtain rfl := Option.some.inj ha
    exact Or.inr (Or.inl (Set.Subset.refl _))
  · exact (lines_apart_or_inside hq hp hb ha hlt).imp (fun h => (Set.inter_comm ..).trans h) Or.inr

end

/-! ### The order of the folds -/

theorem le_iff {a b : Fold} : le a b = true ↔
    a.startLine < b.startLine ∨ a.startLine = b.startLine ∧ b.endLine ≤ a.endLine := by
  unfold le
  by_cases hstart : a.startLine = b.startLine
  · simp [hstart]
  · simp [hstart]

theorem le_trans (a b c : Fold) (hab : le a b = true) (hbc : le b c = true) : le a c = true := by
  rw [le_iff] at *
  omega

theorem le_total (a b : Fold) : (le a b || le b a) = true := by
  rw [Bool.or_eq_true, le_iff, le_iff]
  omega

theorem pairwise_ofText (window : Int) (text : Text) :
    (ofText window text ⟨text⟩).Pairwise fun a b =>
      a.startLine < b.startLine ∨ a.startLine = b.startLine ∧ b.endLine ≤ a.endLine :=
  (List.pairwise_mergeSort le_trans le_total _).imp le_iff.mp

theorem inside_of_mem_ofText {window : Int} {text : Text} {a : Fold}
    (h : a ∈ ofText window text ⟨text⟩) : a.Inside ⟨text⟩ := by
  rcases List.mem_append.mp ((perm_ofText window text).mem_iff.mp h) with h | h
  · obtain ⟨p, -, hp⟩ := List.mem_filterMap.mp h
    exact inside_ofPair? hp
  · obtain ⟨s, hs, hfold⟩ := List.mem_filterMap.mp h
    exact inside_ofComment? (Nat.le_of_lt (Comment.bounds_spansFrom _ _ _ s hs).2) hfold

/-- **Well-formed folds** of a text with the events `E`. -/
structure WellFormed (text : Text) (E : List Event) (folds : List Fold) : Prop where
  /-- A fold hides at least one line, and all its lines are in the document. -/
  inside : ∀ a ∈ folds, a.Inside ⟨text⟩
  sorted : folds.Pairwise fun a b =>
    a.startLine < b.startLine ∨ a.startLine = b.startLine ∧ b.endLine ≤ a.endLine
  /-- There is one region for each pair of matching directives with a line to spare between them. -/
  regions : ∃ matched : List (Nat × Nat), matched.Nodup ∧
    (∀ i j, (i, j) ∈ matched ↔ ∃ f, (Bracket.family f).Pairs E i j) ∧
    (folds.filter (·.kind = .region)).Perm (matched.filterMap (ofPair? E))
  closer_visible : ∀ p a y, ofPair? E p = some a → E[p.2]? = some y → y.line ∉ a.lines
  apart_or_nested : ∀ f p q a b, (Bracket.family f).Pairs E p.1 p.2 →
    (Bracket.family f).Pairs E q.1 q.2 → ofPair? E p = some a → ofPair? E q = some b →
    a.lines ∩ b.lines = ∅ ∨ a.lines ⊆ b.lines ∨ b.lines ⊆ a.lines
  /-- There is one fold for each comment that contains a newline. -/
  comments : (folds.filter (·.kind = .comment)).Perm
    ((Comment.spans text).filterMap (ofComment? text))

theorem wellFormed_ofText (window : Int) (text : Text) :
    WellFormed text (Event.ofText (Comment.strip text)) (ofText window text ⟨text⟩) := by
  obtain ⟨hregions, hcomments⟩ := perm_filter_kind window text
  exact {
    inside := fun a => inside_of_mem_ofText
    sorted := pairwise_ofText window text
    regions := ⟨Event.matched _, Event.nodup_matched _, fun _ _ => Event.mem_matched_iff, hregions⟩
    closer_visible := fun p a y ha hy => closer_not_mem_lines ha hy
    apart_or_nested := fun f p q a b hp hq ha hb => lines_apart_or_nested hp hq ha hb
    comments := hcomments }

end Fold

/-- **The folds of an open template are well formed.** Each of them hides at least one line and lies in
the document, and they are sorted by their first lines, of two with the same first line the longer one
first. The regions are those of the matching directives whose closer is at least two lines below the
opener, one for each such pair, and the comment folds are those of the comments that contain a newline,
one for each. A region does not contain the line of its closer, and two regions of one family are disjoint
or one contains the other. The documents of the server are as a run leaves them. -/
theorem folds_well_formed (s : Server) (hagree : s.DocumentsAgree) {uri : Text} {doc : OpenDocument}
    (hdoc : s.template? uri = some doc) :
    ∃ folds, s.folds? uri = some folds ∧
      Fold.WellFormed doc.text (Event.ofText (Comment.strip doc.text)) folds := by
  refine ⟨_, ?_, Fold.wellFormed_ofText s.settings.unclosedWindow doc.text⟩
  unfold Server.folds?
  rw [hdoc, Option.map_some, (hagree.agrees_of_template? hdoc).lines_eq]

/-- Regions of two families that cross, two regions of one family that meet on a line, and a comment. -/
theorem folds_well_formed_crossing :
    let text := Text.ofString "@if\n@foreach\n@endif @if\n\n@endforeach\n@endif<!--\n-->"
    let item : DocumentItem := ⟨Text.ofString "file:///p/a.view.php", [], 1, text⟩
    let doc := OpenDocument.ofItem (Text.ofString "/") item
    let s := (Server.start (FileTree.host {}) (Text.ofString "/") [] none).after (.didOpen item)
    let folds : List Fold := [⟨0, 1, .region⟩, ⟨1, 3, .region⟩, ⟨2, 4, .region⟩, ⟨5, 6, .comment⟩]
    s.DocumentsAgree ∧ s.template? doc.uri = some doc ∧ s.folds? doc.uri = some folds ∧
      Fold.WellFormed text (Event.ofText (Comment.strip text)) folds := by
  intro text item doc s folds
  have hagree : s.DocumentsAgree :=
    Server.documentsAgree_after (Server.keysAgree_start _ _ _ none)
      (Server.documentsAgree_start _ _ _ none) _
  have hdoc : s.template? doc.uri = some doc := by decide +kernel
  -- the events and the folds are found in order, so that the sorts have nothing to do
  have hevents : Event.ofText (Comment.strip text) =
      [⟨.opener .conditional, Text.ofString "@if", .onLine 0 0 3⟩,
        ⟨.opener .loop, Text.ofString "@foreach", .onLine 1 0 8⟩,
        ⟨.closer .conditional, Text.ofString "@endif", .onLine 2 0 6⟩,
        ⟨.opener .conditional, Text.ofString "@if", .onLine 2 7 10⟩,
        ⟨.closer .loop, Text.ofString "@endforeach", .onLine 4 0 11⟩,
        ⟨.closer .conditional, Text.ofString "@endif", .onLine 5 0 6⟩] := by
    unfold Event.ofText
    rw [List.mergeSort_of_pairwise (by decide +kernel)]
    decide +kernel
  have hfolds : Fold.ofText s.settings.unclosedWindow doc.text doc.lines = folds := by
    change Fold.ofText _ text ⟨text⟩ = folds
    unfold Fold.ofText analyze
    rw [hevents, List.mergeSort_of_pairwise (by decide +kernel)]
    decide +kernel
  have hserved : s.folds? doc.uri = some folds := by
    unfold Server.folds?
    rw [hdoc, Option.map_some, hfolds]
  obtain ⟨served, hsome, hwell⟩ := folds_well_formed s hagree hdoc
  obtain rfl := Option.some.inj (hserved.symm.trans hsome)
  exact ⟨hagree, hdoc, hserved, hwell⟩

end ViewLint
