import ViewLint.Proofs.Balance.Clean
import ViewLint.Proofs.Outline.Events

/-!
# When an outline gets a report

An outline is nested, so one would expect that it never gets a report. It does, where markers share
a line: the events of one line are handled by construct, directives before tags, and not by column.
So a block is closed before the tags on the line of its closer are read, and a block on the line of
a tag is opened before the tag. `check_text_eq_nil_iff` says exactly when this goes wrong: if a
block and a component are such that, going by lines alone, the component is opened after the block
and before its closer, but not closed before it. Without directives and tags on one line this
cannot happen (`check_text_eq_nil_of_unmixed`).

The events of one construct keep the order of the text (`filter_rank_ofText`), so that the partners
stay the same (`matches_ofText`). What may change is who stands between two partners, and for a
directive and a tag that is a matter of lines (`cross_iff_lines`).
-/

namespace ViewLint

open Text (byte)
open scoped Text.Bytewise

/-! ### Balanced events with fences -/

/-- A component that is opened inside a block is closed inside it. -/
def Event.Fenced (E : List Event) : Prop :=
  ∀ f i j, (Bracket.family f).Pairs E i j → ∀ k e, i < k → k < j → E[k]? = some e →
    e.kind = .openTag → ∃ m, m < j ∧ (Bracket.component e.name).Pairs E k m

/-- **What a report depends on** if all brackets are balanced and there are only directives and tags
in pairs. -/
theorem balance_found_eq_nil_iff_fenced (c : Checkup) {E : List Event}
    (hkind : ∀ e ∈ E, e.kind ≠ .extendsMarker ∧ e.kind ≠ .doubleAt ∧ e.kind ≠ .elseBranch)
    (hfamily : ∀ f, (Bracket.family f).Balanced E)
    (hcomponent : ∀ n, (Bracket.component n).Balanced E) :
    (balance c E).found = [] ↔ Event.Fenced E := by
  obtain ⟨hquiet, htracks⟩ := Pass.run_reported_eq_nil_iff c E
  have hnof : ∀ f, (Bracket.family f).pending E = [] := fun f =>
    ((Bracket.balanced_iff_pending _ E).mp (hfamily f)).2
  have hnon : ∀ n, (Bracket.component n).pending E = [] := fun n =>
    ((Bracket.balanced_iff_pending _ E).mp (hcomponent n)).2
  unfold balance
  rw [Pass.finish_found_eq_nil_iff]
  constructor
  · rintro ⟨hr, -, -⟩
    exact (Event.clean_of_quiet (hquiet.mp hr) hnof hnon).fenced
  · intro hfenced
    -- of the conditions of a clean list the fences are the only one that is not given
    have hclean : Event.Clean E := by
      refine ⟨?_, fun e he => (hkind e he).2.1, hfamily, fun p e hp he => ?_, hcomponent, hfenced⟩
      · have hzero : Event.extendsCount E = 0 :=
          List.countP_eq_zero.mpr fun e he => by simpa using (hkind e he).1
        omega
      · exact absurd he (hkind e (hp.subset (by simp))).2.2
    have hr := hquiet.mpr fun p e hp => hclean.quiet hp
    exact ⟨hr, fun f => (Pass.run_blocks_eq_nil_iff c E f).mpr (hnof f),
      (htracks hr).tags_eq_nil_iff.mpr hnon⟩

namespace Outline

/-! ### The order of the events -/

/-- The markers of an outline start at increasing places. -/
theorem pairwise_eventsFrom (front : Text) (items : List Item) :
    (eventsFrom front items).Pairwise fun a b =>
      a.range.start.before b.range.start = true := by
  induction items generalizing front with
  | nil => exact List.Pairwise.nil
  | cons i items ih =>
    rw [eventsFrom]
    refine List.Pairwise.cons (fun e he => ?_) (ih _)
    obtain ⟨j, between, rfl⟩ := exists_item_of_mem he
    obtain ⟨first, tail, hmarker, -⟩ := i.marker.exists_cons
    change (endPlace (front ++ i.gap)).before (endPlace (front ++ i.text ++ between)) = true
    rw [Item.text, ← List.append_assoc, List.append_assoc _ i.marker.text]
    exact endPlace_before _ (by rw [hmarker]; exact List.cons_ne_nil _ _)

/-- **The events of one construct keep the order of the text.** -/
theorem filter_rank_ofText (o : Outline) (r : Nat) :
    (Event.ofText o.text).filter (fun e => e.kind.rank == r) =
      o.events.filter fun e => e.kind.rank == r := by
  have hplaces := pairwise_eventsFrom [] o.items
  -- no two events start at one place
  have hstart : ∀ a ∈ o.events, ∀ b ∈ o.events, a ≠ b → a.range.start ≠ b.range.start := by
    have hne := hplaces.imp fun h => Place.ne_of_before h
    have hsymm : Std.Symm fun a b : Event => a.range.start ≠ b.range.start := ⟨fun _ _ => Ne.symm⟩
    intro a ha b hb
    exact hne.forall ha hb
  have hrank : ∀ {l : List Event} {e : Event}, e ∈ l.filter (fun e => e.kind.rank == r) →
      e ∈ l ∧ e.kind.rank = r := by
    intro l e he
    obtain ⟨hmem, heq⟩ := List.mem_filter.mp he
    exact ⟨hmem, beq_iff_eq.mp heq⟩
  -- both sides are sorted lists of the same events
  refine List.Perm.eq_of_pairwise (fun a b ha hb hab hba => ?_)
    ((Event.pairwise_ofText _).filter _) ?_
    ((ofText_perm o).filter _)
  · obtain ⟨hamem, har⟩ := hrank ha
    obtain ⟨hbmem, hbr⟩ := hrank hb
    by_contra hne
    refine hstart a ((ofText_perm o).mem_iff.mp hamem) b hbmem hne ?_
    rw [Event.le_iff] at hab hba
    unfold Event.line at hab hba
    have hline : a.range.start.line = b.range.start.line := by omega
    have hcharacter : a.range.start.character = b.range.start.character := by omega
    exact (Place.mk.injEq ..).mpr ⟨hline, hcharacter⟩
  · refine (hplaces.filter _).imp_of_mem fun {a b} ha hb h => ?_
    exact Event.le_of_before ((hrank ha).2.trans (hrank hb).2.symm) h

/-! ### Partners stay partners -/

/-- The brackets of families and components look at events of one construct. -/
def OfRank (b : Bracket Event) (r : Nat) : Prop :=
  ∀ e, b.opens e = true ∨ b.closes e = true → e.kind.rank = r

theorem ofRank_family (f : Family) : OfRank (Bracket.family f) (Event.Kind.opener f).rank := by
  rintro e (h | h)
  · rw [of_decide_eq_true h]
  · rw [of_decide_eq_true h]
    cases f <;> rfl

theorem ofRank_component (n : Text) : OfRank (Bracket.component n) 5 := by
  rintro e (h | h) <;> rw [(of_decide_eq_true h).1] <;> rfl

section

variable {b : Bracket Event} {r : Nat} (hb : OfRank b r) (o : Outline)

include hb

theorem opens_or_closes_rank :
    (∀ e, b.opens e = true → (e.kind.rank == r) = true) ∧
      ∀ e, b.closes e = true → (e.kind.rank == r) = true :=
  ⟨fun e h => beq_iff_eq.mpr (hb e (Or.inl h)), fun e h => beq_iff_eq.mpr (hb e (Or.inr h))⟩

theorem matches_ofText (x y : Event) :
    b.Matches (Event.ofText o.text) x y ↔ b.Matches o.events x y := by
  obtain ⟨ho, hc⟩ := opens_or_closes_rank hb
  rw [← Bracket.matches_filter ho hc, filter_rank_ofText, Bracket.matches_filter ho hc]

theorem balanced_ofText (hrespects : Respects b) : b.Balanced (Event.ofText o.text) := by
  obtain ⟨ho, hc⟩ := opens_or_closes_rank hb
  rw [← Bracket.balanced_filter ho hc, filter_rank_ofText, Bracket.balanced_filter ho hc]
  exact balanced_eventsFrom hrespects o.nested []

end

theorem Pair.ofRank_bracket (p : Pair) : ∃ r, OfRank p.bracket r := by
  cases p with
  | block f => exact ⟨_, ofRank_family f⟩
  | component name => exact ⟨_, ofRank_component name.text⟩

/-- Every event of the text was read from a marker. -/
theorem exists_marker_of_mem {o : Outline} {e : Event} (h : e ∈ Event.ofText o.text) :
    ∃ (m : Marker) (line : Nat), e.kind = m.kind ∧ e.name = m.name ∧ e.line = line := by
  obtain ⟨i, front, rfl⟩ := exists_item_of_mem ((ofText_perm o).mem_iff.mp h)
  exact ⟨i.marker, _, rfl, rfl, rfl⟩

section

variable {o : Outline} {p : Pair} {first last : Nat}

/-- The pairs of an outline are partners among the events of its text. -/
theorem HasPair.exists_pairs (h : o.HasPair p first last) :
    ∃ i j x y, p.bracket.Pairs (Event.ofText o.text) i j ∧ (Event.ofText o.text)[i]? = some x ∧
      (Event.ofText o.text)[j]? = some y ∧ x.line = first ∧ y.line = last := by
  obtain ⟨x, y, hmatches, hx, hy⟩ := (hasPair_iff o p first last).mp h
  obtain ⟨r, hr⟩ := p.ofRank_bracket
  obtain ⟨i, j, hpairs, hi, hj⟩ :=
    (Bracket.matches_iff_pairs _ x y).mp ((matches_ofText hr o x y).mpr hmatches)
  exact ⟨i, j, x, y, hpairs, hi, hj, hx, hy⟩

/-- Partners among the events of the text are pairs of the outline. -/
theorem exists_hasPair {i j : Nat} (h : p.bracket.Pairs (Event.ofText o.text) i j) {x y : Event}
    (hx : (Event.ofText o.text)[i]? = some x) (hy : (Event.ofText o.text)[j]? = some y) :
    ∃ first last : Nat, o.HasPair p first last ∧ x.line = first ∧ y.line = last := by
  obtain ⟨-, first, -, -, hfirst⟩ := exists_marker_of_mem (List.mem_of_getElem? hx)
  obtain ⟨-, last, -, -, hlast⟩ := exists_marker_of_mem (List.mem_of_getElem? hy)
  obtain ⟨r, hr⟩ := p.ofRank_bracket
  have hmatches := (Bracket.matches_iff_pairs _ x y).mpr ⟨i, j, h, hx, hy⟩
  refine ⟨first, last, ?_, hfirst, hlast⟩
  exact (hasPair_iff o p first last).mpr ⟨x, y, (matches_ofText hr o x y).mp hmatches, hfirst, hlast⟩

end

/-! ### Blocks and components that cross -/

section

variable {E : List Event} {i j k m : Nat} {x y t u : Event}

theorem not_isTag_of_pairs {f : Family} (h : (Bracket.family f).Pairs E i j) (hx : E[i]? = some x)
    (hy : E[j]? = some y) : x.kind.isTag = false ∧ y.kind.isTag = false := by
  obtain ⟨-, ⟨x', hx', hox⟩, ⟨y', hy', hcy⟩, -⟩ := h
  obtain rfl := Option.some.inj (hx.symm.trans hx')
  obtain rfl := Option.some.inj (hy.symm.trans hy')
  rw [of_decide_eq_true hox, of_decide_eq_true hcy]
  exact ⟨rfl, rfl⟩

theorem isTag_of_pairs {n : Text} (h : (Bracket.component n).Pairs E k m) (ht : E[k]? = some t)
    (hu : E[m]? = some u) :
    t.kind = .openTag ∧ t.name = n ∧ t.kind.isTag = true ∧ u.kind.isTag = true := by
  obtain ⟨-, ⟨t', ht', hot⟩, ⟨u', hu', hcu⟩, -⟩ := h
  obtain rfl := Option.some.inj (ht.symm.trans ht')
  obtain rfl := Option.some.inj (hu.symm.trans hu')
  obtain ⟨hopen, hname⟩ := of_decide_eq_true hot
  obtain ⟨hclose, -⟩ := of_decide_eq_true hcu
  exact ⟨hopen, hname, by rw [hopen]; rfl, by rw [hclose]; rfl⟩

end

/-- A block and a component cross among the events of a text exactly if they do by their lines. -/
theorem cross_iff_lines {text : Text} {f : Family} {n : Text} {i j k m : Nat} {x y t u : Event}
    (hblock : (Bracket.family f).Pairs (Event.ofText text) i j)
    (hcomponent : (Bracket.component n).Pairs (Event.ofText text) k m)
    (hx : (Event.ofText text)[i]? = some x) (hy : (Event.ofText text)[j]? = some y)
    (ht : (Event.ofText text)[k]? = some t) (hu : (Event.ofText text)[m]? = some u) :
    i < k ∧ k < j ∧ j < m ↔ x.line ≤ t.line ∧ t.line < y.line ∧ y.line ≤ u.line := by
  obtain ⟨htagx, htagy⟩ := not_isTag_of_pairs hblock hx hy
  obtain ⟨-, -, htagt, htagu⟩ := isTag_of_pairs hcomponent ht hu
  -- each of the three comparisons is one of a directive and a tag
  have hxt := Event.lt_cases_of_isTag hx ht htagx htagt
  have hyt := Event.lt_cases_of_isTag hy ht htagy htagt
  have hyu := Event.lt_cases_of_isTag hy hu htagy htagu
  omega

/-- The outline has a block and a component that cross, going by their lines: the component is
opened on or behind the line of the opener and before that of the closer, and it is not closed
before that line. -/
def Crosses (o : Outline) : Prop :=
  ∃ f name a b c d, o.HasPair (.block f) a b ∧ o.HasPair (.component name) c d ∧
    a ≤ c ∧ c < b ∧ b ≤ d

/-- The fences tell whether the outline crosses. -/
theorem fenced_ofText_iff (o : Outline) : Event.Fenced (Event.ofText o.text) ↔ ¬ o.Crosses := by
  constructor
  · rintro hfenced ⟨f, name, a, b, c, d, hblock, hcomponent, hac, hcb, hbd⟩
    obtain ⟨i, j, x, y, hpairs, hx, hy, hlx, hly⟩ := hblock.exists_pairs
    obtain ⟨k, m, t, u, hpairs', ht, hu, hlt, hlu⟩ := hcomponent.exists_pairs
    obtain ⟨hik, hkj, hjm⟩ := (cross_iff_lines hpairs hpairs' hx hy ht hu).mpr (by omega)
    obtain ⟨hopen, hname, -, -⟩ := isTag_of_pairs hpairs' ht hu
    -- the fence asks for a partner before the closer, and there is only the one behind it
    obtain ⟨m', hm', hpairs''⟩ := hfenced f i j hpairs k t hik hkj ht hopen
    rw [hname] at hpairs''
    have hm := hpairs''.unique hpairs'
    omega
  · intro hcross f i j hpairs k t hik hkj ht hopen
    have hbalanced := balanced_ofText (ofRank_component t.name) o (respects_component t.name)
    obtain ⟨m, hpairs'⟩ := hbalanced.exists_pairs ht (decide_eq_true ⟨hopen, rfl⟩)
    refine ⟨m, ?_, hpairs'⟩
    by_contra hmj
    obtain ⟨x, y, -, hx, hy, -⟩ := hpairs.cut
    obtain ⟨-, u, -, -, hu, -⟩ := hpairs'.cut
    -- the closer is a directive, so that it is not the partner of the tag
    have hne : j ≠ m := by
      rintro rfl
      obtain rfl := Option.some.inj (hy.symm.trans hu)
      have hy' := (not_isTag_of_pairs hpairs hx hy).2
      rw [(isTag_of_pairs hpairs' ht hu).2.2.2] at hy'
      cases hy'
    obtain ⟨marker, -, hkind, hname, -⟩ := exists_marker_of_mem (List.mem_of_getElem? ht)
    have hisName : Event.IsName t.name := by
      rw [hname]
      exact (Marker.text_openTag (hkind.symm.trans hopen)).1
    have hlines := (cross_iff_lines hpairs hpairs' hx hy ht hu).mp ⟨hik, hkj, by omega⟩
    obtain ⟨a, b, hblock, hlx, hly⟩ := @exists_hasPair o (.block f) i j hpairs x y hx hy
    obtain ⟨c, d, hcomponent, hlt, hlu⟩ :=
      @exists_hasPair o (.component ⟨t.name, hisName⟩) k m hpairs' t u ht hu
    refine hcross ⟨f, ⟨t.name, hisName⟩, a, b, c, d, hblock, hcomponent, ?_⟩
    omega

/-! ### The report -/

theorem check_text_eq_nil_iff_fenced (o : Outline) (window : Int) :
    check window o.text = [] ↔ Event.Fenced (Event.ofText o.text) := by
  -- an outline has openers and closers only
  have hkind : ∀ e ∈ Event.ofText o.text,
      e.kind ≠ .extendsMarker ∧ e.kind ≠ .doubleAt ∧ e.kind ≠ .elseBranch := by
    intro e he
    obtain ⟨m, -, hm, -, -⟩ := exists_marker_of_mem he
    rw [hm]
    match m with
    | .opener (.block _) | .closer (.block _) => exact ⟨nofun, nofun, nofun⟩
    | .opener (.component _) | .closer (.component _) => exact ⟨nofun, nofun, nofun⟩
  -- and sorting finds as many as there are
  have hsort : ∀ l, Diagnostic.sort l = [] ↔ l = [] := by
    intro l
    unfold Diagnostic.sort
    rw [← List.length_eq_zero_iff, List.length_mergeSort, List.length_eq_zero_iff]
  unfold check analyze
  rw [strip_text, hsort]
  exact balance_found_eq_nil_iff_fenced _ hkind
    (fun f => balanced_ofText (ofRank_family f) o (respects_family f))
    fun n => balanced_ofText (ofRank_component n) o (respects_component n)

/-- **An outline gets no report exactly if no block and component cross by their lines.** -/
theorem check_text_eq_nil_iff (o : Outline) (window : Int) :
    check window o.text = [] ↔ ¬ o.Crosses := by
  rw [check_text_eq_nil_iff_fenced, fenced_ofText_iff]

/-- A component in a conditional block, with one line for the openers and one for the closers. -/
def twoLines : Outline where
  items :=
    let name : ComponentName := ⟨[byte 'a'], by decide, by decide⟩
    [⟨[], by decide, .opener (.block .conditional)⟩,
      ⟨[byte ' '], by decide, .opener (.component name)⟩,
      ⟨[byte '\n'], by decide, .closer (.component name)⟩,
      ⟨[byte ' '], by decide, .closer (.block .conditional)⟩]
  nested := .pair (.block .conditional) (.pair (.component _) .nil .nil) .nil
  apart := by decide

theorem crosses_twoLines : twoLines.Crosses := by
  have hblock : twoLines.HasPair (.block .conditional) 0 1 :=
    ⟨[], _, [_, _], _, [], rfl, rfl, rfl, .pair _ .nil .nil, by decide, by decide⟩
  have hcomponent : twoLines.HasPair (.component ⟨[byte 'a'], by decide, by decide⟩) 0 1 :=
    ⟨[_], _, [], _, [_], rfl, rfl, rfl, .nil, by decide, by decide⟩
  exact ⟨_, _, 0, 1, 0, 1, hblock, hcomponent, by decide⟩

/-- **Nested markers may get a report.** -/
theorem check_text_twoLines :
    twoLines.text = Text.ofString "@if <c-a>\n</c-a> @endif" ∧
      check defaultWindow twoLines.text ≠ [] := by
  refine ⟨by decide, fun hnil => ?_⟩
  rw [check_text_eq_nil_iff_fenced, fenced_ofText_iff] at hnil
  exact hnil crosses_twoLines

/-! ### Directives and tags on lines of their own -/

/-- No line has both a directive and a tag. -/
def Unmixed (o : Outline) : Prop :=
  ∀ x ∈ o.events, ∀ t ∈ o.events, x.kind.isTag = false → t.kind.isTag = true → x.line ≠ t.line

/-- In the order of the text the lines increase. -/
theorem line_le_of_lt {o : Outline} {i j : Nat} {x y : Event} (hx : o.events[i]? = some x)
    (hy : o.events[j]? = some y) (hij : i < j) : x.line ≤ y.line := by
  obtain ⟨hi, rfl⟩ := List.getElem?_eq_some_iff.mp hx
  obtain ⟨hj, rfl⟩ := List.getElem?_eq_some_iff.mp hy
  have hbefore := List.pairwise_iff_getElem.mp (pairwise_eventsFrom [] o.items) i j hi hj hij
  unfold Place.before at hbefore
  split at hbefore
  · next hline => exact hline.le
  · exact (of_decide_eq_true hbefore).le

/-- **Nested markers do not cross**, unless directives share lines with tags. -/
theorem Unmixed.not_crosses {o : Outline} (h : o.Unmixed) : ¬ o.Crosses := by
  rintro ⟨f, name, a, b, c, d, hblock, hcomponent, hac, hcb, hbd⟩
  obtain ⟨x, y, hmatches, hlx, hly⟩ := (hasPair_iff o _ a b).mp hblock
  obtain ⟨t, u, hmatches', hlt, hlu⟩ := (hasPair_iff o _ c d).mp hcomponent
  obtain ⟨i, j, hpairs, hx, hy⟩ := (Bracket.matches_iff_pairs _ x y).mp hmatches
  obtain ⟨k, m, hpairs', ht, hu⟩ := (Bracket.matches_iff_pairs _ t u).mp hmatches'
  obtain ⟨htagx, htagy⟩ := not_isTag_of_pairs hpairs hx hy
  obtain ⟨hopen, hname, htagt, htagu⟩ := isTag_of_pairs hpairs' ht hu
  -- the lines are different, so that they give the order of the text
  have hxt := h x (List.mem_of_getElem? hx) t (List.mem_of_getElem? ht) htagx htagt
  have hyu := h y (List.mem_of_getElem? hy) u (List.mem_of_getElem? hu) htagy htagu
  have horder : ∀ {i j : Nat} {x y : Event}, o.events[i]? = some x → o.events[j]? = some y →
      x.line < y.line → i < j := by
    intro i j x y hx hy hlt
    by_contra hij
    rcases Nat.lt_or_eq_of_le (Nat.le_of_not_lt hij) with hji | rfl
    · have hle := line_le_of_lt hy hx hji
      omega
    · obtain rfl := Option.some.inj (hx.symm.trans hy)
      omega
  have hik : i < k := horder hx ht (by omega)
  have hkj : k < j := horder ht hy (by omega)
  have hjm : j < m := horder hy hu (by omega)
  obtain ⟨m', hm', hpairs''⟩ := exists_pairs_inside o (.block f) hpairs hik hkj
    (respects_component name.text) ht (decide_eq_true ⟨hopen, hname⟩)
  have hm := hpairs''.unique hpairs'
  omega

/-- **Nested markers are not reported** if no line has both a directive and a tag. -/
theorem check_text_eq_nil_of_unmixed {o : Outline} (h : o.Unmixed) (window : Int) :
    check window o.text = [] := by
  rw [check_text_eq_nil_iff_fenced, fenced_ofText_iff]
  exact h.not_crosses

end Outline

end ViewLint
