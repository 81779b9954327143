import ViewLint.Proofs.Event.Order

/-!
# The markers of a text

A marker is a directive that carries structure, or a run of `@`. `DirectiveAt` and `RepeatedAt` say
where a marker stands by looking at the bytes around an offset, without any search: a directive is an
`@` that no `@` precedes, with the longest word behind it, and the word is a keyword; a repeated
marker is a longest run of two or more `@`. `markers_exact` says that the events of a text are exactly
these, one at each offset, and that the list of all events is strictly ordered.

Two searches have to be read offset by offset for that. A search hides a match only behind another
one that it starts in (`mem_searchFrom_or_inside`). The word of a directive holds no `@`, so the
search for directives hides none (`mem_occurrences_directive`); a run of `@` hides its own later
parts, so the search finds the runs at their first `@` and nowhere else
(`mem_occurrences_doubleAt`).

The order of the events is a sort by line, construct and column. No two events tie in it
(`pairwise_precedes_ofText`): within a search the places increase, different searches give different
constructs, and an opening and a closing tag cannot start at one byte.
-/

namespace ViewLint

open Text (byte Pattern Occurrence searchFrom occurrences)

/-! ### Runs of a text -/

namespace Text

/-- The longest run of bytes of a class from an offset on. -/
def LongestRun (cls : UInt8 → Bool) (text : Text) (start : Nat) (run : Text) : Prop :=
  ∃ rest, text.drop start = run ++ rest ∧ (∀ b ∈ run, cls b = true) ∧
    ∀ b, rest.head? = some b → cls b = false

/-- An `@` that no `@` precedes. -/
def FirstAtSign (text : Text) (p : Nat) : Prop :=
  text[p]? = some (byte '@') ∧ (p = 0 ∨ text[p - 1]? ≠ some (byte '@'))

theorem FirstAtSign.lt_length {text : Text} {p : Nat} (h : FirstAtSign text p) :
    p < text.length :=
  (List.getElem?_eq_some_iff.mp h.1).1

theorem drop_eq_cons_iff {text : Text} {p : Nat} {b : UInt8} {rest : Text} :
    text.drop p = b :: rest ↔ text[p]? = some b ∧ text.drop (p + 1) = rest := by
  rw [← List.head?_drop, ← List.tail_drop]
  constructor
  · intro h
    rw [h]
    exact ⟨rfl, rfl⟩
  · rintro ⟨hhead, rfl⟩
    obtain ⟨tail, htail⟩ := List.head?_eq_some_iff.mp hhead
    rw [htail]
    rfl

namespace LongestRun

variable {cls : UInt8 → Bool} {text run : Text} {start : Nat}

theorem unique {run' : Text} (h : LongestRun cls text start run)
    (h' : LongestRun cls text start run') : run = run' := by
  obtain ⟨rest, hdrop, hrun, hstop⟩ := h
  obtain ⟨rest', hdrop', hrun', hstop'⟩ := h'
  rw [← takeWhile_append_of_stop hrun hstop, ← hdrop, hdrop', takeWhile_append_of_stop hrun' hstop']

theorem getElem? (h : LongestRun cls text start run) {i : Nat} (hstart : start ≤ i)
    (hi : i < start + run.length) : ∃ b, text[i]? = some b ∧ cls b = true := by
  obtain ⟨rest, hdrop, hrun, -⟩ := h
  obtain ⟨k, rfl⟩ : ∃ k, i = start + k := ⟨i - start, by omega⟩
  have hk : k < run.length := by omega
  have hget : text[start + k]? = some run[k] := by
    rw [← List.getElem?_drop, hdrop, List.getElem?_append_left hk, List.getElem?_eq_getElem hk]
  exact ⟨run[k], hget, hrun _ (List.getElem_mem hk)⟩

theorem le_length (h : LongestRun cls text start run) (hne : run ≠ []) :
    start + run.length ≤ text.length := by
  obtain ⟨rest, hdrop, -, -⟩ := h
  have hlen := congrArg List.length hdrop
  have hpos := List.length_pos_iff.mpr hne
  rw [List.length_drop, List.length_append] at hlen
  omega

theorem getElem?_stop (h : LongestRun cls text start run) {b : UInt8}
    (hb : text[start + run.length]? = some b) : cls b = false := by
  obtain ⟨rest, hdrop, -, hstop⟩ := h
  refine hstop b ?_
  rw [← hb, ← List.getElem?_drop, hdrop, List.getElem?_append_right (Nat.le_refl _), Nat.sub_self,
    List.head?_eq_getElem?]

end LongestRun

end Text

namespace Event

open Text (LongestRun FirstAtSign)

/-! ### Where markers stand -/

/-- **A directive stands at an offset**: its `@` is not part of a run of several, and the longest word
behind it is a keyword, which has the kind. The name is the `@` and the word. -/
inductive DirectiveAt (text : Text) (p : Nat) : Kind → Text → Prop
  | intro {word : Text} {kind : Kind} : FirstAtSign text p →
      LongestRun Text.isWordByte text (p + 1) word → (word, kind) ∈ keywords →
      DirectiveAt text p kind (byte '@' :: word)

/-- **A repeated marker stands at an offset**: a run of two or more `@` that goes on neither to the
left nor to the right. -/
inductive RepeatedAt (text : Text) (p : Nat) : Kind → Text → Prop
  | intro {n : Nat} : FirstAtSign text p → 2 ≤ n →
      LongestRun (· == byte '@') text p (List.replicate n (byte '@')) →
      RepeatedAt text p .doubleAt (List.replicate n (byte '@'))

/-- The event that covers the bytes of a name from an offset on. -/
def marker (text : Text) (p : Nat) (kind : Kind) (name : Text) : Event :=
  ofOccurrence ⟨text⟩ kind name ⟨p, p + name.length⟩

/-- The kinds of directives with structure. -/
def Kind.isDirective : Kind → Bool
  | opener _ | elseBranch | closer _ | extendsMarker => true
  | doubleAt | openTag | closeTag | selfClosedTag => false

/-- The family of a directive that opens, divides or closes a block. -/
def Kind.family? : Kind → Option Family
  | opener f | closer f => some f
  | elseBranch => some .conditional
  | _ => none

theorem mem_keywords_iff {word : Text} {kind : Kind} :
    keywords.lookup word = some kind ↔ (word, kind) ∈ keywords := by
  have hall : ∀ entry ∈ keywords, keywords.lookup entry.1 = some entry.2 := by decide
  constructor
  · intro h
    obtain ⟨before, behind, hsplit, -⟩ := List.lookup_eq_some_iff.mp h
    rw [hsplit]
    exact List.mem_append_right _ List.mem_cons_self
  · exact hall (word, kind)

theorem ne_nil_of_mem_keywords {word : Text} {kind : Kind} (h : (word, kind) ∈ keywords) :
    word ≠ [] := by
  have hall : ∀ entry ∈ keywords, entry.1 ≠ [] := by decide
  exact hall (word, kind) h

/-! ### Directives -/

theorem directivePattern_drop_iff {text : Text} {p n : Nat} :
    directivePattern (text.drop p) = some n ↔
      ∃ word, text[p]? = some (byte '@') ∧ word ≠ [] ∧
        LongestRun Text.isWordByte text (p + 1) word ∧ n = word.length + 1 := by
  rw [directivePattern_eq_some_iff]
  constructor
  · rintro ⟨word, rest, hdrop, hne, hword, hstop, rfl⟩
    obtain ⟨hat, hrest⟩ := Text.drop_eq_cons_iff.mp hdrop
    exact ⟨word, hat, hne, ⟨rest, hrest, hword, hstop⟩, rfl⟩
  · rintro ⟨word, hat, hne, ⟨rest, hrest, hword, hstop⟩, rfl⟩
    exact ⟨word, rest, Text.drop_eq_cons_iff.mpr ⟨hat, hrest⟩, hne, hword, hstop, rfl⟩

/-- **The search for directives hides none.** -/
theorem mem_occurrences_directive {text : Text} {p n : Nat}
    (h : directivePattern (text.drop p) = some n) :
    ⟨p, p + n⟩ ∈ occurrences directivePattern text := by
  have hfound := anchored_directive.mem_searchFrom_or_inside h 0
  rw [Nat.zero_add] at hfound
  rcases hfound with hmem | ⟨o, ho, hstart, hstop⟩
  · exact hmem
  -- an `@` inside another directive would be a byte of its word
  obtain ⟨-, hat, -, -, -⟩ := directivePattern_drop_iff.mp h
  have hmatch := anchored_directive.some_of_mem_searchFrom ho
  rw [Nat.sub_zero] at hmatch
  obtain ⟨word, -, -, hrun, hlen⟩ := directivePattern_drop_iff.mp hmatch
  obtain ⟨b, hb, hword⟩ := hrun.getElem? (i := p) (by omega) (by omega)
  rw [hat] at hb
  obtain rfl := Option.some.inj hb
  exact absurd hword (by decide)

theorem getLast?_take_eq_at_iff {text : Text} {p : Nat} (hp : p < text.length) :
    (text.take p).getLast? = some (byte '@') ↔ ¬ (p = 0 ∨ text[p - 1]? ≠ some (byte '@')) := by
  cases p with
  | zero => simp
  | succ p =>
    rw [List.getLast?_take, if_neg (Nat.succ_ne_zero p), Nat.add_sub_cancel,
      List.getElem?_eq_getElem (by omega)]
    simp

theorem mem_directives_iff {text : Text} {e : Event} :
    e ∈ directives text ↔
      ∃ p kind name, DirectiveAt text p kind name ∧ e = marker text p kind name := by
  -- the match of a directive is the `@` and the word after it, which is what `keywords` is asked
  -- for
  have hlookup : ∀ {p : Nat} {word : Text}, text[p]? = some (byte '@') →
      LongestRun Text.isWordByte text (p + 1) word →
      (⟨p, p + (word.length + 1)⟩ : Occurrence).text text = byte '@' :: word := by
    rintro p word hat ⟨rest, hrest, -, -⟩
    unfold Occurrence.text
    dsimp only
    rw [Text.drop_eq_cons_iff.mpr ⟨hat, hrest⟩, Nat.add_sub_cancel_left, List.take_succ_cons,
      List.take_left]
  unfold directives
  rw [List.mem_filterMap]
  constructor
  · -- a directive found: its match begins at `p`, and it is not dropped for an `@` before it
    rintro ⟨o, ho, hevent⟩
    have hbounds := (anchored_directive.bounds_searchFrom 0 text).1 o ho
    have hmatch := anchored_directive.some_of_mem_searchFrom ho
    rw [Nat.sub_zero] at hmatch
    obtain ⟨word, hat, -, hrun, hlen⟩ := directivePattern_drop_iff.mp hmatch
    obtain ⟨p, stop⟩ := o
    dsimp only at hbounds hat hrun hlen hevent
    obtain rfl : stop = p + (word.length + 1) := by omega
    split at hevent
    · cases hevent
    next hfirst =>
    rw [getLast?_take_eq_at_iff (by omega), Classical.not_not] at hfirst
    rw [hlookup hat hrun, List.drop_succ_cons, List.drop_zero] at hevent
    obtain ⟨kind, hkind, rfl⟩ := Option.map_eq_some_iff.mp hevent
    exact ⟨p, kind, _, ⟨⟨hat, hfirst⟩, hrun, mem_keywords_iff.mp hkind⟩, rfl⟩
  · -- the first `@` of a run with a keyword after it: it is found, kept and looked up
    rintro ⟨p, kind, name, ⟨⟨hat, hfirst⟩, hrun, hkind⟩, rfl⟩
    rename_i word
    have hmatch : directivePattern (text.drop p) = some (word.length + 1) :=
      directivePattern_drop_iff.mpr ⟨word, hat, ne_nil_of_mem_keywords hkind, hrun, rfl⟩
    refine ⟨_, mem_occurrences_directive hmatch, ?_⟩
    obtain ⟨hlt, -⟩ := List.getElem?_eq_some_iff.mp hat
    rw [if_neg fun h => (getLast?_take_eq_at_iff hlt).mp h hfirst, hlookup hat hrun,
      List.drop_succ_cons, List.drop_zero, mem_keywords_iff.mpr hkind]
    rfl

/-! ### Runs of `@` -/

theorem doubleAtPattern_drop_iff {text : Text} {p n : Nat} :
    doubleAtPattern (text.drop p) = some n ↔
      2 ≤ n ∧ LongestRun (· == byte '@') text p (List.replicate n (byte '@')) := by
  rw [doubleAtPattern_eq_some_iff]
  constructor
  · rintro ⟨rest, hdrop, htwo, hstop⟩
    refine ⟨htwo, rest, hdrop, fun b hb => ?_, fun b hb => beq_false_of_ne (hstop b hb)⟩
    exact beq_iff_eq.mpr (List.eq_of_mem_replicate hb)
  · rintro ⟨htwo, rest, hdrop, -, hstop⟩
    exact ⟨rest, hdrop, htwo, fun b hb => ne_of_beq_false (hstop b hb)⟩

theorem getElem?_of_atRun {text : Text} {p n i : Nat}
    (h : LongestRun (· == byte '@') text p (List.replicate n (byte '@'))) (hp : p ≤ i)
    (hi : i < p + n) : text[i]? = some (byte '@') := by
  obtain ⟨b, hb, hat⟩ := h.getElem? hp (by rwa [List.length_replicate])
  rwa [beq_iff_eq.mp hat] at hb

/-- A run of `@` goes on to the left as a run of `@`. -/
theorem atRun_pred {text : Text} {p n : Nat} (hat : text[p]? = some (byte '@'))
    (h : LongestRun (· == byte '@') text (p + 1) (List.replicate n (byte '@'))) :
    LongestRun (· == byte '@') text p (List.replicate (n + 1) (byte '@')) := by
  obtain ⟨rest, hdrop, -, hstop⟩ := h
  refine ⟨rest, ?_, fun b hb => beq_iff_eq.mpr (List.eq_of_mem_replicate hb), hstop⟩
  rw [List.replicate_succ, List.cons_append]
  exact Text.drop_eq_cons_iff.mpr ⟨hat, hdrop⟩

/-- **The search for runs finds each run at its first `@`, and nothing else.** -/
theorem mem_occurrences_doubleAt {text : Text} {o : Occurrence} :
    o ∈ occurrences doubleAtPattern text ↔
      ∃ p n, FirstAtSign text p ∧ 2 ≤ n ∧
        LongestRun (· == byte '@') text p (List.replicate n (byte '@')) ∧ o = ⟨p, p + n⟩ := by
  have hfound : ∀ {o : Occurrence}, o ∈ occurrences doubleAtPattern text →
      o.start < o.stop ∧ 2 ≤ o.stop - o.start ∧ LongestRun (· == byte '@') text o.start
        (List.replicate (o.stop - o.start) (byte '@')) := by
    intro o ho
    have hmatch := anchored_doubleAt.some_of_mem_searchFrom ho
    rw [Nat.sub_zero] at hmatch
    exact ⟨((anchored_doubleAt.bounds_searchFrom 0 text).1 o ho).2.1,
      doubleAtPattern_drop_iff.mp hmatch⟩
  constructor
  · intro ho
    obtain ⟨hlt, htwo, hrun⟩ := hfound ho
    have hat : text[o.start]? = some (byte '@') :=
      getElem?_of_atRun hrun (Nat.le_refl _) (by omega)
    refine ⟨o.start, o.stop - o.start, ⟨hat, ?_⟩, htwo, hrun, ?_⟩
    · -- if an `@` stood before it, the search would have found a run there or further to the left
      by_contra hnot
      rw [not_or, Classical.not_not] at hnot
      obtain ⟨hpos, hbefore⟩ := hnot
      obtain ⟨p, hp⟩ : ∃ p, o.start = p + 1 := ⟨o.start - 1, by omega⟩
      rw [hp] at hrun
      rw [hp, Nat.add_sub_cancel] at hbefore
      have hmatch := doubleAtPattern_drop_iff.mpr ⟨by omega, atRun_pred hbefore hrun⟩
      have hor := anchored_doubleAt.mem_searchFrom_or_inside hmatch 0
      rw [Nat.zero_add] at hor
      rcases hor with hmem | ⟨o', ho', hstart', hstop'⟩
      · have heq := anchored_doubleAt.eq_of_overlap ho hmem (by dsimp only; omega)
          (by dsimp only; omega)
        rw [heq] at hp
        dsimp only at hp
        omega
      · -- that run does not end before the `@` of this one, so that the two overlap
        obtain ⟨hlt', -, hrun'⟩ := hfound ho'
        have hend : o'.stop ≠ o.start := by
          intro heq
          have hstop : text[o'.start + (o'.stop - o'.start)]? = some (byte '@') := by
            rwa [Nat.add_sub_cancel' (Nat.le_of_lt hlt'), heq]
          have hnot := hrun'.getElem?_stop (by rwa [List.length_replicate])
          simp at hnot
        have heq := anchored_doubleAt.eq_of_overlap ho ho' (by omega) (by omega)
        rw [heq] at hp
        omega
    · rw [Nat.add_sub_cancel' (Nat.le_of_lt hlt)]
  · rintro ⟨p, n, hfirst, htwo, hrun, rfl⟩
    have hor := anchored_doubleAt.mem_searchFrom_or_inside
      (doubleAtPattern_drop_iff.mpr ⟨htwo, hrun⟩) 0
    rw [Nat.zero_add] at hor
    rcases hor with hmem | ⟨o, ho, hstart, hstop⟩
    · exact hmem
    · -- inside another run an `@` stands before it
      obtain ⟨hlt, -, hrun'⟩ := hfound ho
      have hbefore : text[p - 1]? = some (byte '@') :=
        getElem?_of_atRun hrun' (by omega) (by omega)
      rcases hfirst.2 with hzero | hne
      · omega
      · exact absurd hbefore hne

theorem mem_doubleAts_iff {text : Text} {e : Event} :
    e ∈ doubleAts text ↔
      ∃ p kind name, RepeatedAt text p kind name ∧ e = marker text p kind name := by
  -- the text of a run is all `@`, so its event is the marker
  have hevent : ∀ {p n : Nat},
      LongestRun (· == byte '@') text p (List.replicate n (byte '@')) →
      ofOccurrence ⟨text⟩ .doubleAt ((⟨p, p + n⟩ : Occurrence).text text) ⟨p, p + n⟩ =
        marker text p .doubleAt (List.replicate n (byte '@')) := by
    rintro p n ⟨rest, hdrop, -, -⟩
    unfold ofOccurrence Occurrence.text marker
    dsimp only
    rw [Nat.add_sub_cancel_left, hdrop, List.take_left' List.length_replicate,
      List.length_replicate]
    rfl
  unfold doubleAts
  rw [List.mem_map]
  constructor
  · rintro ⟨o, ho, rfl⟩
    obtain ⟨p, n, hfirst, htwo, hrun, rfl⟩ := mem_occurrences_doubleAt.mp ho
    exact ⟨p, _, _, ⟨hfirst, htwo, hrun⟩, hevent hrun⟩
  · rintro ⟨p, kind, name, ⟨hfirst, htwo, hrun⟩, rfl⟩
    exact ⟨_, mem_occurrences_doubleAt.mpr ⟨p, _, hfirst, htwo, hrun, rfl⟩, hevent hrun⟩

/-! ### The order is strict -/

/-- The event comes first: by its line, then by its construct, then by its column. -/
def Precedes (a b : Event) : Prop :=
  a.line < b.line ∨ a.line = b.line ∧ (a.kind.rank < b.kind.rank ∨
    a.kind.rank = b.kind.rank ∧ a.range.start.character < b.range.start.character)

/-- Two events that cannot tie: different constructs, or different starts. -/
def Apart (a b : Event) : Prop := a.kind.rank ≠ b.kind.rank ∨ a.range.start ≠ b.range.start

theorem precedes_of_le {a b : Event} (hle : le a b = true) (h : Apart a b) : Precedes a b := by
  rw [le_iff] at hle
  unfold Precedes
  rcases hle with hline | ⟨hline, hrank | ⟨hrank, hcolumn⟩⟩
  · exact Or.inl hline
  · exact Or.inr ⟨hline, Or.inl hrank⟩
  · refine Or.inr ⟨hline, Or.inr ⟨hrank, Int.lt_iff_le_and_ne.mpr ⟨hcolumn, fun heq => ?_⟩⟩⟩
    rcases h with h | h
    · exact h hrank
    · exact h ((Place.mk.injEq ..).mpr ⟨hline, heq⟩)

theorem apart_of_search {p : Pattern} {head : UInt8} (hp : p.Anchored head) (text : Text)
    {event : Occurrence → Event}
    (hevent : ∀ o, (event o).range.start = (Document.mk text).placeAt o.start) :
    ((occurrences p text).map event).Pairwise Apart := by
  refine List.pairwise_map.mpr ((pairwise_placeAt hp text).imp fun {o o'} h => Or.inr ?_)
  rw [hevent, hevent]
  exact Place.ne_of_before h

theorem apart_directives (text : Text) : (directives text).Pairwise Apart := by
  unfold directives
  refine List.Pairwise.filterMap _ (fun o o' h e he e' he' => Or.inr ?_)
    (pairwise_placeAt anchored_directive text)
  -- both events start where their occurrences do
  have hstart : ∀ {o : Occurrence} {e : Event},
      (if (text.take o.start).getLast? = some (byte '@') then none
        else (keywords.lookup ((o.text text).drop 1)).map fun kind =>
          ofOccurrence ⟨text⟩ kind (o.text text) o) = some e →
      e.range.start = (Document.mk text).placeAt o.start := by
    intro o e he
    split at he
    · cases he
    · obtain ⟨kind, -, rfl⟩ := Option.map_eq_some_iff.mp he
      rfl
  rw [hstart he, hstart he']
  exact Place.ne_of_before h

theorem rank_of_mem_directives {text : Text} {e : Event} (h : e ∈ directives text) :
    e.kind.rank ≠ 1 ∧ e.kind.rank < 5 := by
  have hall : ∀ k ∈ keywords.map (·.2), k.rank ≠ 1 ∧ k.rank < 5 := by decide
  exact hall _ (kind_of_mem_directives h)

theorem rank_of_mem_openTags {text : Text} {e : Event} (h : e ∈ openTags text) :
    e.kind.rank = 5 := by
  rcases kind_of_mem_openTags h with hkind | hkind <;> rw [hkind] <;> rfl

/-- An opening and a closing tag do not start at one byte. -/
theorem openTag_closeTag_apart {text : Text} {a b : Event} (ha : a ∈ openTags text)
    (hb : b ∈ closeTags text) : Apart a b := by
  obtain ⟨o, ho, rfl⟩ := List.mem_map.mp ha
  obtain ⟨o', ho', rfl⟩ := List.mem_map.mp hb
  have hbounds := (anchored_openTag.bounds_searchFrom 0 text).1 o ho
  have hbounds' := (anchored_closeTag.bounds_searchFrom 0 text).1 o' ho'
  refine Or.inr fun heq => ?_
  have hstart : o.start = o'.start := Document.placeAt_inj (by omega) (by omega) heq
  -- the byte behind the `<` is a letter in the one and a slash in the other
  obtain ⟨-, rest, hopen, ⟨name, -, tail, -, rfl⟩, -⟩ :=
    decides_openTag.mp (anchored_openTag.some_of_mem_searchFrom ho)
  obtain ⟨-, rest', hclose, ⟨name', -, blanks, -, rfl⟩, -⟩ :=
    decides_closeTag.mp (anchored_closeTag.some_of_mem_searchFrom ho')
  rw [hstart, hclose] at hopen
  have hsecond := congrArg (fun t : Text => t[1]?) hopen
  exact absurd (Option.some.inj hsecond) (by decide)

/-- **No two events tie.** -/
theorem apart_searches (text : Text) :
    (doubleAts text ++ directives text ++ openTags text ++ closeTags text).Pairwise Apart := by
  -- a search finds no overlaps, so each of the four lists is apart in itself
  have hdouble : (doubleAts text).Pairwise Apart :=
    apart_of_search anchored_doubleAt text fun _ => rfl
  have hopen : (openTags text).Pairwise Apart :=
    apart_of_search anchored_openTag text fun _ => rfl
  have hclose : (closeTags text).Pairwise Apart :=
    apart_of_search anchored_closeTag text fun _ => rfl
  -- the ranks tell the markers from the tags
  have hrank : ∀ {a b : Event}, a ∈ doubleAts text ++ directives text → b.kind.rank = 5 →
      Apart a b := by
    intro a b ha hb
    refine Or.inl ?_
    rcases List.mem_append.mp ha with ha | ha
    · rw [kind_of_mem_doubleAts ha, hb]
      decide
    · have hlt := (rank_of_mem_directives ha).2
      omega
  refine List.pairwise_append.mpr ⟨List.pairwise_append.mpr ⟨List.pairwise_append.mpr
    ⟨hdouble, apart_directives text, ?_⟩, hopen, ?_⟩, hclose, ?_⟩
  · -- two kinds of marker have two ranks
    intro a ha b hb
    refine Or.inl ?_
    rw [kind_of_mem_doubleAts ha]
    exact (rank_of_mem_directives hb).1.symm
  · intro a ha b hb
    exact hrank ha (rank_of_mem_openTags hb)
  · -- an opening and a closing tag share a rank: they end at different places
    intro a ha b hb
    rcases List.mem_append.mp ha with ha | ha
    · exact hrank ha (by rw [kind_of_mem_closeTags hb]; rfl)
    · exact openTag_closeTag_apart ha hb

/-- **The events are strictly ordered.** -/
theorem pairwise_precedes_ofText (text : Text) : (ofText text).Pairwise Precedes := by
  have hsymm : ∀ {a b : Event}, Apart a b → Apart b a := fun h => h.imp Ne.symm Ne.symm
  have hapart : (ofText text).Pairwise Apart :=
    ((List.mergeSort_perm _ le).pairwise_iff hsymm).mpr (apart_searches text)
  exact ((pairwise_ofText text).and hapart).imp fun h => precedes_of_le h.1 h.2

theorem not_precedes_self (e : Event) : ¬ Precedes e e := by
  unfold Precedes
  omega

theorem nodup_ofText (text : Text) : (ofText text).Nodup := by
  refine (pairwise_precedes_ofText text).imp fun {a b} h => ?_
  rintro rfl
  exact not_precedes_self a h

theorem before_of_precedes {a b : Event} (h : Precedes a b) (hrank : a.kind.rank = b.kind.rank) :
    a.range.start.before b.range.start = true := by
  unfold Precedes line at h
  unfold Place.before
  split
  · next hline => exact decide_eq_true (by omega)
  · next hline => exact decide_eq_true (by omega)

/-! ### The markers are exact -/

/-- **The events of a class are the markers of a form.** An event of the class starts at an offset if
and only if a marker of the form stands there, and then exactly one does, which has the kind and
the name of the marker and covers its bytes. -/
structure AreMarkers (form : Nat → Kind → Text → Prop) (cls : Kind → Bool) (text : Text) :
    Prop where
  starts_iff : ∀ p : Nat, (∃ e ∈ ofText text, cls e.kind = true ∧
    e.range.start = (Document.mk text).placeAt p) ↔ ∃ kind name, form p kind name
  once : ∀ (p : Nat) kind name, form p kind name → (ofText text).filter (fun e => cls e.kind &&
    e.range.start == (Document.mk text).placeAt p) = [marker text p kind name]

/-- A form whose markers are the events of a class, as sets, is exact: no two events are equal. -/
theorem areMarkers_of_mem_iff {form : Nat → Kind → Text → Prop} {cls : Kind → Bool} {text : Text}
    (hmem : ∀ e, e ∈ ofText text ∧ cls e.kind = true ↔
      ∃ p kind name, form p kind name ∧ e = marker text p kind name)
    (hlt : ∀ {p kind name}, form p kind name → p < text.length)
    (hunique : ∀ {p kind kind' name name'}, form p kind name → form p kind' name' →
      kind = kind' ∧ name = name') :
    AreMarkers form cls text := by
  -- an event that starts where a marker does is that marker
  have hstart : ∀ {e : Event} {p : Nat}, e ∈ ofText text → cls e.kind = true →
      e.range.start = (Document.mk text).placeAt p →
      ∃ kind name, form p kind name ∧ e = marker text p kind name := by
    intro e p he hcls hplace
    obtain ⟨q, kind, name, hform, rfl⟩ := (hmem e).mp ⟨he, hcls⟩
    have hq := hlt hform
    rcases Nat.lt_or_ge text.length p with hbeyond | hp
    · -- an offset behind the end has the place of the end
      have hend : (Document.mk text).placeAt p = (Document.mk text).placeAt text.length := by
        rw [Document.placeAt_eq, Document.placeAt_eq, List.take_of_length_le (Nat.le_of_lt hbeyond),
          List.take_length]
      have heq := Document.placeAt_inj (Nat.le_of_lt hq) (Nat.le_refl _) (hplace.trans hend)
      omega
    · obtain rfl : q = p := Document.placeAt_inj (Nat.le_of_lt hq) hp hplace
      exact ⟨kind, name, hform, rfl⟩
  constructor
  · intro p
    constructor
    · rintro ⟨e, he, hcls, hplace⟩
      obtain ⟨kind, name, hform, -⟩ := hstart he hcls hplace
      exact ⟨kind, name, hform⟩
    · rintro ⟨kind, name, hform⟩
      obtain ⟨he, hcls⟩ := (hmem _).mpr ⟨p, kind, name, hform, rfl⟩
      exact ⟨_, he, hcls, rfl⟩
  · intro p kind name hform
    have hnodup := (nodup_ofText text).filter fun e => cls e.kind &&
      e.range.start == (Document.mk text).placeAt p
    refine List.perm_singleton.mp ((List.perm_ext_iff_of_nodup hnodup (List.pairwise_singleton _ _)).mpr
      fun e => ?_)
    rw [List.mem_filter, Bool.and_eq_true, beq_iff_eq, List.mem_singleton]
    constructor
    · rintro ⟨he, hcls, hplace⟩
      obtain ⟨kind', name', hform', rfl⟩ := hstart he hcls hplace
      obtain ⟨rfl, rfl⟩ := hunique hform hform'
      rfl
    · rintro rfl
      obtain ⟨he, hcls⟩ := (hmem _).mpr ⟨p, kind, name, hform, rfl⟩
      exact ⟨he, hcls, rfl⟩

theorem mem_ofText_iff {text : Text} {e : Event} :
    e ∈ ofText text ↔
      e ∈ doubleAts text ∨ e ∈ directives text ∨ e ∈ openTags text ∨ e ∈ closeTags text := by
  unfold ofText
  rw [List.mem_mergeSort, List.mem_append, List.mem_append, List.mem_append, or_assoc, or_assoc]

theorem mem_ofText_isDirective_iff {text : Text} {e : Event} :
    e ∈ ofText text ∧ e.kind.isDirective = true ↔ e ∈ directives text := by
  rw [mem_ofText_iff]
  constructor
  · -- one case per search: only the directives have a kind of that sort
    rintro ⟨he | he | he | he, hkind⟩
    · rw [kind_of_mem_doubleAts he] at hkind
      cases hkind
    · exact he
    · rcases kind_of_mem_openTags he with h | h <;> rw [h] at hkind <;> cases hkind
    · rw [kind_of_mem_closeTags he] at hkind
      cases hkind
  · intro he
    have hall : ∀ k ∈ keywords.map (·.2), k.isDirective = true := by decide
    exact ⟨Or.inr (Or.inl he), hall _ (kind_of_mem_directives he)⟩

theorem mem_ofText_doubleAt_iff {text : Text} {e : Event} :
    e ∈ ofText text ∧ e.kind = .doubleAt ↔ e ∈ doubleAts text := by
  rw [mem_ofText_iff]
  constructor
  · -- one case per search: only the runs have this kind
    rintro ⟨he | he | he | he, hkind⟩
    · exact he
    · have hrank := (rank_of_mem_directives he).1
      rw [hkind] at hrank
      exact absurd rfl hrank
    · rcases kind_of_mem_openTags he with h | h <;> rw [h] at hkind <;> cases hkind
    · rw [kind_of_mem_closeTags he] at hkind
      cases hkind
  · intro he
    exact ⟨Or.inl he, kind_of_mem_doubleAts he⟩

theorem areMarkers_directives (text : Text) :
    AreMarkers (DirectiveAt text) Kind.isDirective text := by
  refine areMarkers_of_mem_iff (fun e => mem_ofText_isDirective_iff.trans mem_directives_iff) ?_ ?_
  · rintro p kind name ⟨hfirst, -, -⟩
    exact Text.FirstAtSign.lt_length hfirst
  · rintro p kind kind' name name' ⟨-, hrun, hkind⟩ ⟨-, hrun', hkind'⟩
    obtain rfl := hrun.unique hrun'
    have hlookup := (mem_keywords_iff.mpr hkind).symm.trans (mem_keywords_iff.mpr hkind')
    exact ⟨Option.some.inj hlookup, rfl⟩

theorem areMarkers_doubleAts (text : Text) :
    AreMarkers (RepeatedAt text) (· == .doubleAt) text := by
  refine areMarkers_of_mem_iff (fun e => ?_) ?_ ?_
  · rw [beq_iff_eq]
    exact mem_ofText_doubleAt_iff.trans mem_doubleAts_iff
  · rintro p kind name ⟨hfirst, -, -⟩
    exact Text.FirstAtSign.lt_length hfirst
  · rintro p kind kind' name name' ⟨-, -, hrun⟩ ⟨-, -, hrun'⟩
    exact ⟨rfl, hrun.unique hrun'⟩

end Event

/-- Two ranges share a byte. -/
def Range.Overlaps (r s : Range) : Prop :=
  r.start.before s.stop = true ∧ s.start.before r.stop = true

namespace Event

/-- A directive and a repeated marker share no byte. -/
theorem not_overlaps_of_markers {text : Text} {p q : Nat} {kind kind' : Kind} {name name' : Text}
    (hd : DirectiveAt text p kind name) (hm : RepeatedAt text q kind' name') :
    ¬ (marker text p kind name).range.Overlaps (marker text q kind' name').range := by
  obtain ⟨hfirst, hword, hkind⟩ := hd
  obtain ⟨-, htwo, hrun⟩ := hm
  rename_i word n
  have hne := ne_nil_of_mem_keywords hkind
  have hpos := List.length_pos_iff.mpr hne
  have hp := hword.le_length hne
  have hq := hrun.le_length (List.ne_nil_of_length_pos (by rw [List.length_replicate]; omega))
  rintro ⟨hstart, hstop⟩
  unfold marker ofOccurrence at hstart hstop
  dsimp only at hstart hstop
  rw [List.length_replicate] at hq
  rw [List.length_replicate, Document.placeAt_before_iff (by omega) hq] at hstart
  rw [List.length_cons, Document.placeAt_before_iff (by omega) (by omega)] at hstop
  have hat : ∀ i, q ≤ i → i < q + n → text[i]? = some (byte '@') := fun i =>
    getElem?_of_atRun hrun
  -- a byte of the word that belongs to the run would be an `@`
  have hapart : ∀ i, p + 1 ≤ i → i < p + 1 + word.length → q ≤ i → i < q + n → False := by
    intro i hlo hhi hlo' hhi'
    obtain ⟨b, hb, hbyte⟩ := hword.getElem? hlo hhi
    rw [hat i hlo' hhi'] at hb
    obtain rfl := Option.some.inj hb
    exact absurd hbyte (by decide)
  rcases Nat.lt_trichotomy p q with hpq | rfl | hqp
  · exact hapart q (by omega) (by omega) (Nat.le_refl _) (by omega)
  · exact hapart (p + 1) (Nat.le_refl _) (by omega) (by omega) (by omega)
  · -- the `@` of the directive would not be the first of its run
    rcases hfirst.2 with hzero | hbefore
    · omega
    · exact hbefore (hat (p - 1) (by omega) (by omega))

/-- **Markers are read exactly as they stand, and the events are strictly ordered.**

* Directive events start exactly at the offsets at which a directive stands, one at each, with the
  kind of its keyword, and cover the `@` and the word.
* Repeated markers are exactly the longest runs of two or more `@`.
* No directive overlaps a repeated marker.
* The list of all events is strictly increasing by line, construct and column, so that no two events
  tie, and the events of one family come in the order of the text. -/
theorem markers_exact (text : Text) :
    AreMarkers (DirectiveAt text) Kind.isDirective text ∧
    AreMarkers (RepeatedAt text) (· == .doubleAt) text ∧
    (∀ d ∈ ofText text, ∀ m ∈ ofText text, d.kind.isDirective = true → m.kind = .doubleAt →
      ¬ d.range.Overlaps m.range) ∧
    (ofText text).Pairwise Precedes ∧
    ∀ f : Family, ((ofText text).filter fun e => e.kind.family? == some f).Pairwise fun a b =>
      a.range.start.before b.range.start = true := by
  refine ⟨areMarkers_directives text, areMarkers_doubleAts text, ?_, pairwise_precedes_ofText text,
    fun f => ?_⟩
  · intro d hd m hm hdirective hdouble
    obtain ⟨p, kind, name, hat, rfl⟩ :=
      mem_directives_iff.mp (mem_ofText_isDirective_iff.mp ⟨hd, hdirective⟩)
    obtain ⟨q, kind', name', hat', rfl⟩ :=
      mem_doubleAts_iff.mp (mem_ofText_doubleAt_iff.mp ⟨hm, hdouble⟩)
    exact not_overlaps_of_markers hat hat'
  · -- the events of a family have one rank
    have hrank : ∀ {k : Kind}, (k.family? == some f) = true → k.rank = (Kind.opener f).rank := by
      intro k hk
      cases k with
      | opener g | closer g =>
        obtain rfl : g = f := by simpa [Kind.family?] using hk
        cases g <;> rfl
      | elseBranch =>
        obtain rfl : Family.conditional = f := by simpa [Kind.family?] using hk
        rfl
      | extendsMarker | doubleAt | openTag | closeTag | selfClosedTag => cases hk
    refine ((pairwise_precedes_ofText text).filter _).imp_of_mem fun {a b} ha hb h => ?_
    have hkind := hrank (List.mem_filter.mp ha).2
    have hkind' := hrank (List.mem_filter.mp hb).2
    exact before_of_precedes h (hkind.trans hkind'.symm)

end Event

end ViewLint
