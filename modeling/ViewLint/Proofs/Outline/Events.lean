import ViewLint.Proofs.Comment.Strip
import ViewLint.Proofs.Event.Tags
import ViewLint.Proofs.Outline.Basic

/-!
# Reading an outline

What the library reads off the text of an outline: there is no comment in it (`strip_text`), and
the four searches find the markers and nothing else, so that the events of the text are those of the
outline, in another order (`ofText_perm`).

A search passes over the gaps, and at a marker it finds the whole marker or nothing
(`filterMap_searchFrom`). What each of the four patterns does at a marker is all that is left.
-/

namespace ViewLint.Outline

open Text (byte Pattern Occurrence searchFrom occurrences)
open Comment (stripFrom isQuote)
open scoped Text.Bytewise

/-! ### No comments -/

/-- A scan of the text, from outside comments and strings on, blanks nothing. -/
def Uncommented (text : Text) : Prop := ∀ previous offset, stripFrom (.code previous) offset text = text

theorem Uncommented.cons {b : UInt8} {rest : Text} (h : Uncommented rest) (hb : ¬ isQuote b = true)
    (hat : ∀ kind : Comment.Kind, ¬ kind.opener <+: b :: rest) : Uncommented (b :: rest) := by
  intro previous offset
  rw [Comment.stripFrom_of_no_opener hb hat, h]

/-- The bytes that start neither a comment nor a string. -/
def Inert (b : UInt8) : Prop := b ∉ [byte '\x7b', byte '<', byte '/', byte '#', byte '"', byte '\'']

instance (b : UInt8) : Decidable (Inert b) := inferInstanceAs (Decidable (¬ _))

theorem Uncommented.append {front rest : Text} (h : Uncommented rest) (hfront : ∀ b ∈ front, Inert b) :
    Uncommented (front ++ rest) := by
  induction front with
  | nil => exact h
  | cons b front ih =>
    obtain ⟨hb, hfront⟩ := List.forall_mem_cons.mp hfront
    refine (ih hfront).cons ?_ ?_
    · intro hquote
      rw [Comment.isQuote_iff] at hquote
      rcases hquote with rfl | rfl <;> exact hb (by decide)
    · rintro kind ⟨tail, htail⟩
      cases kind <;> obtain ⟨rfl, -⟩ := List.cons.inj htail <;> exact hb (by decide)

theorem inert_of_isNameByte {b : UInt8} (h : Event.isNameByte b = true) : Inert b := by
  unfold Inert
  simp only [List.mem_cons, List.not_mem_nil, or_false]
  rintro (rfl | rfl | rfl | rfl | rfl | rfl) <;> revert h <;> decide

/-- A name and the `>` behind it. -/
theorem Uncommented.name {rest name : Text} (h : Uncommented rest) (hname : Event.IsName name) :
    Uncommented (byte 'c' :: byte '-' :: (name ++ byte '>' :: rest)) := by
  have hgt : Uncommented ([byte '>'] ++ rest) := h.append (by decide)
  have hrest := hgt.append fun b hb => inert_of_isNameByte (hname.2 b hb)
  have hhead : ∀ b ∈ [byte 'c', byte '-'], Inert b := by decide
  exact hrest.append hhead

/-- A `<` or a slash starts a comment only with another byte behind it. -/
theorem Uncommented.cons_cons {b c : UInt8} {tail : Text} (h : Uncommented (c :: tail))
    (hbc : (b, c) ∈ [(byte '<', byte 'c'), (byte '<', byte '/'), (byte '/', byte 'c')]) :
    Uncommented (b :: c :: tail) := by
  have hopener : ∀ kind : Comment.Kind, kind.opener.isPrefixOf (b :: c :: tail) = false := by
    simp only [List.mem_cons, Prod.mk.injEq, List.not_mem_nil, or_false] at hbc
    intro kind
    rcases hbc with ⟨rfl, rfl⟩ | ⟨rfl, rfl⟩ | ⟨rfl, rfl⟩ <;> cases kind <;> rfl
  refine h.cons ?_ fun kind hat => ?_
  · have hquote : ∀ x ∈ [(byte '<', byte 'c'), (byte '<', byte '/'), (byte '/', byte 'c')],
        ¬ isQuote x.1 = true := by decide
    exact hquote _ hbc
  · rw [← List.isPrefixOf_iff_prefix, hopener kind] at hat
    cases hat

theorem Uncommented.marker {rest : Text} (h : Uncommented rest) (m : Marker) :
    Uncommented (m.text ++ rest) := by
  rcases m.kind_cases with hkind | hkind | hkind
  · -- a directive: `@` and a word
    obtain ⟨word, htext, -, hword, -, -⟩ := Marker.exists_word hkind
    rw [htext]
    refine h.append fun b hb => ?_
    rcases List.mem_cons.mp hb with rfl | hb
    · decide
    · exact inert_of_isNameByte (Event.isNameByte_of_isWordByte (hword b hb))
  · -- an opening tag: its name, and the two bytes before it
    obtain ⟨hname, htext⟩ := Marker.text_openTag hkind
    rw [htext, List.append_assoc, List.append_assoc]
    exact (h.name hname).cons_cons (by decide)
  · -- a closing tag: the same after a slash
    obtain ⟨hname, htext⟩ := Marker.text_closeTag hkind
    rw [htext, List.append_assoc, List.append_assoc]
    exact ((h.name hname).cons_cons (by decide)).cons_cons (by decide)

theorem uncommented_textOf (items : List Item) : Uncommented (textOf items) := by
  induction items with
  | nil => exact fun previous offset => Comment.stripFrom_nil _ _
  | cons i items ih =>
    rw [textOf_cons, Item.text, List.append_assoc]
    refine (ih.marker i.marker).append fun b hb => ?_
    rcases i.blank b hb with rfl | rfl <;> decide

/-- **An outline has no comments.** -/
theorem strip_text (o : Outline) : Comment.strip o.text = o.text :=
  uncommented_textOf o.items none 0

/-! ### Searches -/

/-- A text that starts with a gap, or is empty. -/
def StartsApart (rest : Text) : Prop := ∀ b, rest.head? = some b → b = byte ' ' ∨ b = byte '\n'

theorem startsApart_textOf {items : List Item} (h : ∀ i ∈ items, i.gap ≠ []) :
    StartsApart (textOf items) := by
  intro b hb
  cases items with
  | nil => cases hb
  | cons i items =>
    obtain ⟨c, gap, hgap⟩ := List.exists_cons_of_ne_nil (h i List.mem_cons_self)
    rw [textOf_cons, Item.text, hgap] at hb
    obtain rfl := Option.some.inj hb
    exact i.blank c (by rw [hgap]; exact List.mem_cons_self)

/-- There is a gap before every item, but for the first one at the start of the text. -/
def Apart (front : Text) (items : List Item) : Prop :=
  (∀ i ∈ items.tail, i.gap ≠ []) ∧ (front ≠ [] → ∀ i ∈ items, i.gap ≠ [])

/-- No marker has an `@` right before it. -/
theorem getLast?_ne_at {front : Text} {i : Item} {items : List Item} (h : Apart front (i :: items)) :
    (front ++ i.gap).getLast? ≠ some (byte '@') := by
  intro hlast
  by_cases hgap : i.gap = []
  · have hfront : front = [] := by
      by_contra hne
      exact h.2 hne i List.mem_cons_self hgap
    rw [hgap, hfront] at hlast
    cases hlast
  · rw [List.getLast?_append_of_ne_nil _ hgap] at hlast
    rcases i.blank _ (List.mem_of_getLast? hlast) with hb | hb <;> revert hb <;> decide

/-- What a pattern finds at the markers of an outline, and what is made of it. -/
structure Finds (p : Pattern) (head : UInt8) (sel : Event.Kind → Bool) (text : Text)
    (make : Occurrence → Option Event) : Prop where
  anchored : p.Anchored head
  special : head = byte '@' ∨ head = byte '<'
  /-- The pattern matches the whole marker or nothing. -/
  whole : ∀ (m : Marker) (rest : Text), StartsApart rest →
    p (m.text ++ rest) = if sel m.kind then some m.text.length else none
  /-- What is made of a match is the event of the marker. -/
  made : ∀ (i : Item) (front back : Text), text = front ++ (i.marker.text ++ back) →
    front.getLast? ≠ some (byte '@') → sel i.marker.kind = true →
    make ⟨front.length, front.length + i.marker.text.length⟩ = some (i.event front)

/-- **A search finds the events of the markers that the pattern selects.** -/
theorem Finds.filterMap_searchFrom {p : Pattern} {head : UInt8} {sel : Event.Kind → Bool}
    {text : Text} {make : Occurrence → Option Event} (h : Finds p head sel text make)
    {items : List Item} {front : Text} (htext : text = front ++ textOf items)
    (hapart : Apart front items) :
    (searchFrom p front.length (textOf items)).filterMap make =
      (eventsFrom front items).filter fun e => sel e.kind := by
  induction items generalizing front with
  | nil =>
    rw [textOf, List.flatMap_nil, h.anchored.searchFrom_nil]
    rfl
  | cons i items ih =>
    have hgap : head ∉ i.gap := by
      intro hmem
      rcases i.blank head hmem with hb | hb <;> rcases h.special with hs | hs <;>
        rw [hs] at hb <;> revert hb <;> decide
    have hrest : ∀ j ∈ items, j.gap ≠ [] := hapart.1
    have hlength : (front ++ i.text).length = front.length + i.gap.length + i.marker.text.length := by
      rw [Item.text, List.length_append, List.length_append, Nat.add_assoc]
    have hih := @ih (front ++ i.text) (by rw [htext, textOf_cons, List.append_assoc])
      ⟨fun j hj => hrest j (List.mem_of_mem_tail hj), fun _ => hrest⟩
    rw [hlength] at hih
    have hwhole := h.whole i.marker (textOf items) (startsApart_textOf hrest)
    rw [textOf_cons, Item.text, List.append_assoc, h.anchored.searchFrom_append hgap, eventsFrom]
    by_cases hsel : sel i.marker.kind = true
    · rw [if_pos hsel] at hwhole
      have hmade := h.made i (front ++ i.gap) (textOf items)
        (by rw [htext, textOf_cons, Item.text]; simp) (getLast?_ne_at hapart) hsel
      rw [List.length_append] at hmade
      rw [h.anchored.searchFrom_of_some hwhole, List.drop_left, List.filterMap_cons_some hmade, hih,
        List.filter_cons_of_pos (by exact hsel)]
    · -- nothing matches at the first byte of the marker, and the others start no match
      rw [if_neg hsel] at hwhole
      obtain ⟨first, tail, hmarker, -⟩ := i.marker.exists_cons
      have htail : head ∉ tail := by
        rcases h.special with rfl | rfl <;>
          exact Marker.not_mem_tail hmarker (by decide) (by decide) (by decide)
      rw [hmarker, List.cons_append] at hwhole ⊢
      rw [h.anchored.searchFrom_cons hwhole, h.anchored.searchFrom_append htail,
        List.filter_cons_of_neg (by exact hsel), ← hih, hmarker, List.length_cons,
        Nat.add_assoc _ 1, Nat.add_comm 1]

/-! ### The four searches -/

section

variable {text front back : Text}

theorem ofOccurrence_at {m : Text} (htext : text = front ++ (m ++ back)) (kind : Event.Kind)
    (name : Text) :
    Event.ofOccurrence ⟨text⟩ kind name ⟨front.length, front.length + m.length⟩ =
      ⟨kind, name, ⟨endPlace front, endPlace (front ++ m)⟩⟩ := by
  unfold Event.ofOccurrence
  dsimp only
  have hstop : (Document.mk text).placeAt (front.length + m.length : Nat) =
      endPlace (front ++ m) := by
    rw [htext, ← List.append_assoc]
    exact Document.placeAt_append back List.length_append.symm
  rw [hstop, htext, Document.placeAt_append _ rfl]

theorem text_at {m : Text} (htext : text = front ++ (m ++ back)) :
    (Occurrence.mk front.length (front.length + m.length)).text text = m := by
  unfold Occurrence.text
  dsimp only
  rw [Nat.add_sub_cancel_left, htext, List.drop_left, List.take_left]

/-- Nothing that starts with another byte than the marker matches. -/
theorem none_of_first {p : Pattern} {head first : UInt8} {tail : Text} {m : Marker}
    (hp : p.Anchored head) (hm : m.text = first :: tail) (hne : first ≠ head) (rest : Text) :
    p (m.text ++ rest) = none := by
  rw [hm, List.cons_append]
  exact hp.cons_of_ne hne _

theorem finds_doubleAt (text : Text) :
    Finds Event.doubleAtPattern (byte '@') (fun _ => false) text fun o =>
      some (Event.ofOccurrence ⟨text⟩ .doubleAt (o.text text) o) where
  anchored := Event.anchored_doubleAt
  special := Or.inl rfl
  made _ _ _ _ _ h := by cases h
  whole m rest hrest := by
    rw [if_neg Bool.false_ne_true]
    rcases m.kind_cases with hkind | hkind | hkind
    · obtain ⟨word, hm, hne, hword, -, -⟩ := Marker.exists_word hkind
      obtain ⟨c, word, rfl⟩ := List.exists_cons_of_ne_nil hne
      -- a letter follows the `@`, so there is no run of two
      have hc : c ≠ byte '@' := by
        rintro rfl
        exact absurd (hword _ List.mem_cons_self) (by decide)
      rw [hm]
      unfold Event.doubleAtPattern
      simp [hc]
    · exact none_of_first Event.anchored_doubleAt (Marker.text_openTag hkind).2 (by decide) rest
    · exact none_of_first Event.anchored_doubleAt (Marker.text_closeTag hkind).2 (by decide) rest

theorem finds_directive (text : Text) :
    Finds Event.directivePattern (byte '@') (fun k => !k.isTag) text fun o =>
      if (text.take o.start).getLast? = some (byte '@') then none
      else (Event.keywords.lookup ((o.text text).drop 1)).map fun kind =>
        Event.ofOccurrence ⟨text⟩ kind (o.text text) o where
  anchored := Event.anchored_directive
  special := Or.inl rfl
  whole m rest hrest := by
    rcases m.kind_cases with hkind | hkind | hkind
    · -- the directive itself is found whole: its word ends where the gap begins
      obtain ⟨word, hm, hne, hword, -, -⟩ := Marker.exists_word hkind
      rw [hm, hkind]
      refine Event.directivePattern_eq_some_iff.mpr ⟨word, rest, rfl, hne, hword, fun b hb => ?_, rfl⟩
      rcases hrest b hb with rfl | rfl <;> decide
    · -- a tag does not begin with `@`
      rw [hkind]
      exact none_of_first Event.anchored_directive (Marker.text_openTag hkind).2 (by decide) rest
    · rw [hkind]
      exact none_of_first Event.anchored_directive (Marker.text_closeTag hkind).2 (by decide) rest
  made i front back htext hlast hsel := by
    have hkind : i.marker.kind.isTag = false := by simpa using hsel
    obtain ⟨word, hm, -, -, hlookup, hname⟩ := Marker.exists_word hkind
    have htake : text.take front.length = front := by rw [htext, List.take_left]
    have hword : i.marker.text.drop 1 = word := by rw [hm]; rfl
    dsimp only
    rw [htake, if_neg hlast, text_at htext, hword, hlookup, Option.map_some, ofOccurrence_at htext]
    unfold Item.event
    rw [hname]

theorem kind_ne_of_not_isTag {k : Event.Kind} (h : k.isTag = false) :
    (k == .openTag) = false ∧ (k == .closeTag) = false := by
  cases k <;> first | exact ⟨rfl, rfl⟩ | cases h

theorem finds_openTag (text : Text) :
    Finds Event.openTagPattern (byte '<') (fun k => k == .openTag) text fun o =>
      some (Event.ofOccurrence ⟨text⟩
        (if Event.isSelfClosed (o.text text) then .selfClosedTag else .openTag)
        (((o.text text).drop 3).takeWhile Event.isNameByte) o) where
  anchored := Event.anchored_openTag
  special := Or.inr rfl
  whole m rest hrest := by
    rcases m.kind_cases with hkind | hkind | hkind
    · obtain ⟨word, hm, -⟩ := Marker.exists_word hkind
      rw [(kind_ne_of_not_isTag hkind).1]
      exact none_of_first Event.anchored_openTag hm (by decide) rest
    · obtain ⟨hname, hm⟩ := Marker.text_openTag hkind
      rw [hkind]
      refine Event.decides_openTag.mpr ⟨m.text, rest, rfl, ⟨m.name, hname, [], .bare, ?_⟩, rfl⟩
      rw [hm, List.append_nil]
    · -- a slash where the `c` of an opening tag should be
      obtain ⟨-, hm⟩ := Marker.text_closeTag hkind
      rw [hkind]
      change _ = none
      cases hfound : Event.openTagPattern (m.text ++ rest) with
      | none => rfl
      | some n =>
        obtain ⟨tag, rest', heq, ⟨name, -, tail, -, rfl⟩, -⟩ := Event.decides_openTag.mp hfound
        rw [hm] at heq
        exact absurd (List.cons.inj (List.cons.inj heq).2).1 (by decide)
  made i front back htext hlast hsel := by
    have hkind : i.marker.kind = .openTag := beq_iff_eq.mp hsel
    obtain ⟨hname, hm⟩ := Marker.text_openTag hkind
    have hslash : byte '/' ∉ i.marker.text := by
      rw [hm, List.mem_append, List.mem_append, not_or, not_or]
      refine ⟨⟨by decide, fun hmem => ?_⟩, by decide⟩
      exact absurd (hname.2 _ hmem) (by decide)
    have hself : Event.isSelfClosed i.marker.text = false := by
      refine Bool.eq_false_iff.mpr fun h => ?_
      rw [hm, Event.isSelfClosed_iff, ← hm] at h
      obtain ⟨before, white, heq, -⟩ := h
      exact hslash (by rw [heq]; simp)
    have hnamed : (i.marker.text.drop 3).takeWhile Event.isNameByte = i.marker.name := by
      rw [hm]
      exact Event.takeWhile_name hname (Event.TagTail.bare.head_not_name []) (Text.ofString "<c-")
    rw [text_at htext, ofOccurrence_at htext, hself, hnamed]
    unfold Item.event
    rw [hkind]
    rfl

theorem finds_closeTag (text : Text) :
    Finds Event.closeTagPattern (byte '<') (fun k => k == .closeTag) text fun o =>
      some (Event.ofOccurrence ⟨text⟩ .closeTag
        (((o.text text).drop 4).takeWhile Event.isNameByte) o) where
  anchored := Event.anchored_closeTag
  special := Or.inr rfl
  whole m rest hrest := by
    rcases m.kind_cases with hkind | hkind | hkind
    · obtain ⟨word, hm, -⟩ := Marker.exists_word hkind
      rw [(kind_ne_of_not_isTag hkind).2]
      exact none_of_first Event.anchored_closeTag hm (by decide) rest
    · -- a `c` where the slash of a closing tag should be
      obtain ⟨-, hm⟩ := Marker.text_openTag hkind
      rw [hkind]
      change _ = none
      cases hfound : Event.closeTagPattern (m.text ++ rest) with
      | none => rfl
      | some n =>
        obtain ⟨tag, rest', heq, ⟨name, -, blanks, -, rfl⟩, -⟩ := Event.decides_closeTag.mp hfound
        rw [hm] at heq
        exact absurd (List.cons.inj (List.cons.inj heq).2).1 (by decide)
    · obtain ⟨hname, hm⟩ := Marker.text_closeTag hkind
      rw [hkind]
      refine Event.decides_closeTag.mpr ⟨m.text, rest, rfl, ⟨m.name, hname, [], by simp, ?_⟩, rfl⟩
      rw [hm, List.append_nil]
  made i front back htext hlast hsel := by
    have hkind : i.marker.kind = .closeTag := beq_iff_eq.mp hsel
    obtain ⟨hname, hm⟩ := Marker.text_closeTag hkind
    have hnamed : (i.marker.text.drop 4).takeWhile Event.isNameByte = i.marker.name := by
      rw [hm]
      exact Event.takeWhile_name hname (Event.TagTail.bare.head_not_name []) (Text.ofString "</c-")
    rw [text_at htext, ofOccurrence_at htext, hnamed]
    unfold Item.event
    rw [hkind]

end

/-! ### All events -/

theorem exists_item_of_mem {front : Text} {items : List Item} {e : Event}
    (h : e ∈ eventsFrom front items) : ∃ (i : Item) (between : Text), e = i.event (front ++ between) := by
  induction items generalizing front with
  | nil =>
    rw [eventsFrom] at h
    cases h
  | cons i items ih =>
    rw [eventsFrom] at h
    rcases List.mem_cons.mp h with rfl | h
    · exact ⟨i, i.gap, rfl⟩
    · obtain ⟨j, between, rfl⟩ := ih h
      exact ⟨j, i.text ++ between, by rw [List.append_assoc]⟩

/-- **The events of the text are those of the outline**, in another order. -/
theorem ofText_perm (o : Outline) : (Event.ofText o.text).Perm o.events := by
  have hapart : Apart [] o.items := ⟨o.apart, fun h => absurd rfl h⟩
  have hdouble : Event.doubleAts o.text = [] := by
    have h := (finds_doubleAt o.text).filterMap_searchFrom rfl hapart
    rw [List.filter_eq_nil_iff.mpr fun e _ => Bool.false_ne_true] at h
    unfold Event.doubleAts
    rw [← List.filterMap_eq_map]
    exact h
  have hdirective : Event.directives o.text = o.events.filter fun e => !e.kind.isTag :=
    (finds_directive o.text).filterMap_searchFrom rfl hapart
  have hopen : Event.openTags o.text = o.events.filter fun e => e.kind == .openTag := by
    unfold Event.openTags
    rw [← List.filterMap_eq_map]
    exact (finds_openTag o.text).filterMap_searchFrom rfl hapart
  have hclose : Event.closeTags o.text = o.events.filter fun e => e.kind == .closeTag := by
    unfold Event.closeTags
    rw [← List.filterMap_eq_map]
    exact (finds_closeTag o.text).filterMap_searchFrom rfl hapart
  unfold Event.ofText
  refine (List.mergeSort_perm _ _).trans ?_
  rw [hdouble, hdirective, hopen, hclose, List.nil_append, List.append_assoc]
  -- the directives and the two kinds of tags are all the events there are
  have htags : ((o.events.filter fun e => e.kind == .openTag) ++
      o.events.filter fun e => e.kind == .closeTag).Perm
      (o.events.filter fun e => !!e.kind.isTag) := by
    have hsplit := List.filter_append_perm (fun e : Event => e.kind == .openTag)
      (o.events.filter fun e => !!e.kind.isTag)
    rw [List.filter_filter, List.filter_filter] at hsplit
    have hfirst : (o.events.filter fun e => e.kind == .openTag && !!e.kind.isTag) =
        o.events.filter fun e => e.kind == .openTag := by
      refine List.filter_congr fun e he => ?_
      cases e.kind <;> rfl
    have hsecond : (o.events.filter fun e => !(e.kind == .openTag) && !!e.kind.isTag) =
        o.events.filter fun e => e.kind == .closeTag := by
      refine List.filter_congr fun e he => ?_
      obtain ⟨i, front, rfl⟩ := exists_item_of_mem he
      have hkind : (i.event ([] ++ front)).kind = i.marker.kind := rfl
      rw [hkind]
      rcases i.marker.kind_cases with hm | hm | hm
      · rw [hm, (kind_ne_of_not_isTag hm).2]
        exact Bool.and_false _
      · rw [hm]
        rfl
      · rw [hm]
        rfl
    rwa [hfirst, hsecond] at hsplit
  exact (htags.append_left _).trans (List.filter_append_perm _ _)

end ViewLint.Outline
