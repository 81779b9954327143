import ViewLint.Proofs.Balance.Stacks
import ViewLint.Proofs.Bracket.Matches
import ViewLint.Proofs.Event.Pattern
import ViewLint.Proofs.Text.Places

/-!
# Outlines

An outline is a document that is right by construction: pairs of markers, nested in each other and
put one after the other in any way, with spaces and newlines between them. Several markers may
share a line.

`Outline.events` are the events of an outline in the order in which they stand in the text, each
with the place that the bytes before it give. In that order every bracket is balanced
(`balanced_eventsFrom`), and its partners are the pairs of the outline (`hasPair_iff`).
-/

namespace ViewLint

open Text (byte)
open scoped Text.Bytewise

namespace Outline

/-- The name of a component. -/
structure ComponentName where
  text : Text
  isName : Event.IsName text

/-- What two markers delimit: a block of a directive family, or a component. -/
inductive Pair where
  | block (family : Family)
  | component (name : ComponentName)

/-- One of the two markers of a pair. -/
inductive Marker where
  | opener (pair : Pair)
  | closer (pair : Pair)

namespace Marker

/-- How a marker is written. -/
def text : Marker → Text
  | opener (.block .conditional) => Text.ofString "@if"
  | closer (.block .conditional) => Text.ofString "@endif"
  | opener (.block .loop) => Text.ofString "@foreach"
  | closer (.block .loop) => Text.ofString "@endforeach"
  | opener (.block .sections) => Text.ofString "@section"
  | closer (.block .sections) => Text.ofString "@endsection"
  | opener (.component name) => Text.ofString "<c-" ++ name.text ++ [byte '>']
  | closer (.component name) => Text.ofString "</c-" ++ name.text ++ [byte '>']

/-- The kind of event that a marker is read as. -/
def kind : Marker → Event.Kind
  | opener (.block f) => .opener f
  | closer (.block f) => .closer f
  | opener (.component _) => .openTag
  | closer (.component _) => .closeTag

/-- The name of that event. -/
def name : Marker → Text
  | opener (.component name) => name.text
  | closer (.component name) => name.text
  | m => m.text

end Marker

/-- A marker and the spaces and newlines before it. -/
structure Item where
  gap : Text
  blank : ∀ b ∈ gap, b = byte ' ' ∨ b = byte '\n'
  marker : Marker

/-- The bytes of an item. -/
def Item.text (i : Item) : Text := i.gap ++ i.marker.text

/-- The bytes of a list of items. -/
def textOf (items : List Item) : Text := items.flatMap Item.text

/-- **Markers that are nested.** Pairs stand one after the other, and each is around such a list. -/
inductive Nested : List Marker → Prop
  | nil : Nested []
  | pair (p : Pair) {inner rest : List Marker} : Nested inner → Nested rest →
      Nested (.opener p :: (inner ++ .closer p :: rest))

end Outline

/-- **An outline**: nested markers with a gap between each two of them. -/
structure Outline where
  items : List Outline.Item
  nested : Outline.Nested (items.map (·.marker))
  apart : ∀ i ∈ items.tail, i.gap ≠ []

namespace Outline

/-- The text of an outline. -/
def text (o : Outline) : Text := textOf o.items

/-- The line on which the last of the items stands. -/
def lineOf (items : List Item) : Nat := (textOf items).count (byte '\n')

/-- The outline has a pair that is opened on the line `first` and closed on the line `last`. -/
def HasPair (o : Outline) (p : Pair) (first last : Nat) : Prop :=
  ∃ before x inner y after, o.items = before ++ x :: (inner ++ y :: after) ∧
    x.marker = .opener p ∧ y.marker = .closer p ∧ Nested (inner.map (·.marker)) ∧
    first = lineOf (before ++ [x]) ∧ last = lineOf (before ++ x :: (inner ++ [y]))

/-! ### Events -/

/-- The event of an item behind the bytes `front`. -/
def Item.event (i : Item) (front : Text) : Event :=
  ⟨i.marker.kind, i.marker.name, ⟨endPlace front, endPlace (front ++ i.marker.text)⟩⟩

/-- The events of items behind the bytes `front`. -/
def eventsFrom : Text → List Item → List Event
  | _, [] => []
  | front, i :: items => i.event (front ++ i.gap) :: eventsFrom (front ++ i.text) items

/-- The events of an outline in the order of the text. -/
def events (o : Outline) : List Event := eventsFrom [] o.items

theorem textOf_cons (i : Item) (items : List Item) : textOf (i :: items) = i.text ++ textOf items :=
  List.flatMap_cons

theorem textOf_append (items items' : List Item) :
    textOf (items ++ items') = textOf items ++ textOf items' := List.flatMap_append

theorem eventsFrom_append (front : Text) (items items' : List Item) :
    eventsFrom front (items ++ items') =
      eventsFrom front items ++ eventsFrom (front ++ textOf items) items' := by
  induction items generalizing front with
  | nil => rw [textOf, List.flatMap_nil, List.append_nil]; rfl
  | cons i items ih =>
    rw [List.cons_append, eventsFrom, eventsFrom, ih, textOf_cons, List.append_assoc]
    rfl

/-! ### How markers are written -/

namespace Marker

/-- A directive is an `@` and a keyword. -/
theorem exists_word {m : Marker} (h : m.kind.isTag = false) :
    ∃ word, m.text = byte '@' :: word ∧ word ≠ [] ∧ (∀ b ∈ word, Text.isWordByte b = true) ∧
      Event.keywords.lookup word = some m.kind ∧ m.name = m.text := by
  match m, h with
  | opener (.block .conditional), _ =>
    exact ⟨Text.ofString "if", rfl, by decide, by decide, by decide, rfl⟩
  | closer (.block .conditional), _ =>
    exact ⟨Text.ofString "endif", rfl, by decide, by decide, by decide, rfl⟩
  | opener (.block .loop), _ =>
    exact ⟨Text.ofString "foreach", rfl, by decide, by decide, by decide, rfl⟩
  | closer (.block .loop), _ =>
    exact ⟨Text.ofString "endforeach", rfl, by decide, by decide, by decide, rfl⟩
  | opener (.block .sections), _ =>
    exact ⟨Text.ofString "section", rfl, by decide, by decide, by decide, rfl⟩
  | closer (.block .sections), _ =>
    exact ⟨Text.ofString "endsection", rfl, by decide, by decide, by decide, rfl⟩

theorem text_openTag {m : Marker} (h : m.kind = .openTag) :
    Event.IsName m.name ∧ m.text = Text.ofString "<c-" ++ m.name ++ [byte '>'] := by
  match m, h with
  | opener (.component name), _ => exact ⟨name.isName, rfl⟩

theorem text_closeTag {m : Marker} (h : m.kind = .closeTag) :
    Event.IsName m.name ∧ m.text = Text.ofString "</c-" ++ m.name ++ [byte '>'] := by
  match m, h with
  | closer (.component name), _ => exact ⟨name.isName, rfl⟩

/-- A marker is a directive or one of the two tags. -/
theorem kind_cases (m : Marker) :
    m.kind.isTag = false ∨ m.kind = .openTag ∨ m.kind = .closeTag := by
  match m with
  | opener (.block _) => exact Or.inl rfl
  | closer (.block _) => exact Or.inl rfl
  | opener (.component _) => exact Or.inr (Or.inl rfl)
  | closer (.component _) => exact Or.inr (Or.inr rfl)

/-- Behind its first byte a marker has name bytes, and a slash or a `>`. -/
theorem exists_cons (m : Marker) :
    ∃ first tail, m.text = first :: tail ∧ (first = byte '@' ∨ first = byte '<') ∧
      ∀ b ∈ tail, Event.isNameByte b = true ∨ b = byte '/' ∨ b = byte '>' := by
  -- the bytes of a tag, whatever stands before its name
  have htag : ∀ {head name : Text}, Event.IsName name →
      (∀ b ∈ head, Event.isNameByte b = true ∨ b = byte '/' ∨ b = byte '>') →
      ∀ b ∈ head ++ name ++ [byte '>'],
        Event.isNameByte b = true ∨ b = byte '/' ∨ b = byte '>' := by
    intro head name hname hhead b hb
    rw [List.mem_append, List.mem_append, List.mem_singleton] at hb
    rcases hb with (hb | hb) | rfl
    · exact hhead b hb
    · exact Or.inl (hname.2 b hb)
    · exact Or.inr (Or.inr rfl)
  rcases m.kind_cases with hkind | hkind | hkind
  · obtain ⟨word, htext, -, hword, -, -⟩ := exists_word hkind
    exact ⟨_, word, htext, Or.inl rfl, fun b hb => Or.inl (Event.isNameByte_of_isWordByte (hword b hb))⟩
  · obtain ⟨hname, htext⟩ := text_openTag hkind
    have hhead : ∀ b ∈ Text.ofString "c-", Event.isNameByte b = true ∨ b = byte '/' ∨ b = byte '>' :=
      by decide
    exact ⟨_, _, htext, Or.inr rfl, htag hname hhead⟩
  · obtain ⟨hname, htext⟩ := text_closeTag hkind
    have hhead : ∀ b ∈ Text.ofString "/c-", Event.isNameByte b = true ∨ b = byte '/' ∨ b = byte '>' :=
      by decide
    exact ⟨_, _, htext, Or.inr rfl, htag hname hhead⟩

theorem not_mem_tail {m : Marker} {first : UInt8} {tail : Text} (h : m.text = first :: tail)
    {b : UInt8} (hname : Event.isNameByte b = false) (hslash : b ≠ byte '/')
    (hgt : b ≠ byte '>') : b ∉ tail := by
  obtain ⟨first', tail', h', -, htail⟩ := m.exists_cons
  obtain ⟨-, rfl⟩ := List.cons.inj (h.symm.trans h')
  intro hmem
  rcases htail b hmem with hb | hb | hb
  · rw [hname] at hb
    cases hb
  · exact hslash hb
  · exact hgt hb

theorem newline_not_mem (m : Marker) : byte '\n' ∉ m.text := by
  obtain ⟨first, tail, htext, hfirst, -⟩ := m.exists_cons
  rw [htext, List.mem_cons, not_or]
  refine ⟨?_, not_mem_tail htext (by decide) (by decide) (by decide)⟩
  rcases hfirst with rfl | rfl <;> decide

end Marker

/-! ### Lines -/

theorem line_event (i : Item) (front : Text) :
    (i.event (front ++ i.gap)).line = (front ++ i.text).count (byte '\n') := by
  have hnone := List.count_eq_zero_of_not_mem i.marker.newline_not_mem
  have hcount : (front ++ i.gap ++ i.marker.text).count (byte '\n') =
      (front ++ i.gap).count (byte '\n') := by rw [List.count_append, hnone, Nat.add_zero]
  unfold Item.text
  rw [← List.append_assoc, hcount]
  rfl

/-! ### Nested markers are balanced -/

/-- The bracket of a pair. -/
def Pair.bracket : Pair → Bracket Event
  | block f => Bracket.family f
  | component name => Bracket.component name.text

/-- The bracket does not tear pairs apart: it takes both markers of a pair or none. -/
def Respects (b : Bracket Event) : Prop :=
  ∀ (p : Pair) (x y : Item) (front front' : Text), x.marker = .opener p → y.marker = .closer p →
    b.opens (x.event front) = true ∧ b.closes (y.event front') = true ∨
      (b.opens (x.event front) = false ∧ b.closes (x.event front) = false) ∧
        b.opens (y.event front') = false ∧ b.closes (y.event front') = false

theorem respects_family (f : Family) : Respects (Bracket.family f) := by
  intro p x y front front' hx hy
  unfold Bracket.family Item.event
  rw [hx, hy]
  cases p with
  | block g => by_cases h : g = f <;> simp [Marker.kind, h]
  | component name => exact Or.inr (by simp [Marker.kind])

theorem respects_component (n : Text) : Respects (Bracket.component n) := by
  intro p x y front front' hx hy
  unfold Bracket.component Item.event
  rw [hx, hy]
  cases p with
  | block g => exact Or.inr (by simp [Marker.kind])
  | component name => by_cases h : name.text = n <;> simp [Marker.kind, Marker.name, h]

/-- **The events of nested markers are balanced** for every bracket that respects pairs. -/
theorem balanced_eventsFrom {b : Bracket Event} (hb : Respects b) {items : List Item}
    (h : Nested (items.map (·.marker))) (front : Text) : b.Balanced (eventsFrom front items) := by
  generalize hms : items.map (·.marker) = ms at h
  induction h generalizing items front with
  | nil =>
    obtain rfl := List.map_eq_nil_iff.mp hms
    exact b.balanced_nil
  | pair p _ _ ihinner ihrest =>
    obtain ⟨x, items, rfl, hx, hms⟩ := List.map_eq_cons_iff.mp hms
    obtain ⟨inner, items, rfl, hinner, hms⟩ := List.map_eq_append_iff.mp hms
    obtain ⟨y, rest, rfl, hy, hrest⟩ := List.map_eq_cons_iff.mp hms
    rw [eventsFrom, eventsFrom_append, eventsFrom]
    have hin := ihinner (front ++ x.text) hinner
    have hout := ihrest (front ++ x.text ++ textOf inner ++ y.text) hrest
    -- the bracket takes the pair around the inner events, or passes over both markers
    rcases hb p x y (front ++ x.gap) (front ++ x.text ++ textOf inner ++ y.gap) hx hy with
      ⟨ho, hc⟩ | ⟨⟨ho, hc⟩, ho', hc'⟩
    · simpa using (hin.wrap ho hc).append hout
    · simpa using ((Bracket.Balanced.singleton ho hc).append hin).append
        ((Bracket.Balanced.singleton ho' hc').append hout)

/-! ### The pairs of an outline -/

/-- Every opener has its closer, with nested markers between them. -/
theorem Nested.exists_closer {ms before rest : List Marker} {p : Pair} (h : Nested ms)
    (hms : ms = before ++ .opener p :: rest) :
    ∃ inner after, rest = inner ++ .closer p :: after ∧ Nested inner := by
  induction h generalizing before rest with
  | nil => simp at hms
  | @pair q inner tail hinner _ ihinner ihtail =>
    rcases List.cons_eq_append_iff.mp hms with ⟨-, heq⟩ | ⟨before', -, heq⟩
    · -- the opener is the first marker
      obtain ⟨hp, rfl⟩ := List.cons.inj heq
      obtain rfl := Marker.opener.inj hp
      exact ⟨inner, tail, rfl, hinner⟩
    rcases List.append_eq_append_iff.mp heq with ⟨s, -, hs⟩ | ⟨s, hs, hs'⟩
    · -- it stands behind the closer of the first pair
      rcases List.cons_eq_append_iff.mp hs with ⟨-, hbad⟩ | ⟨s', -, htail⟩
      · cases (List.cons.inj hbad).1
      · exact ihtail htail
    · -- it stands inside the first pair
      rcases List.cons_eq_append_iff.mp hs' with ⟨-, hbad⟩ | ⟨s', rfl, hrest⟩
      · cases (List.cons.inj hbad).1
      · obtain ⟨inner', after, rfl, hnested⟩ := ihinner hs
        exact ⟨inner', after ++ .closer q :: tail, by rw [hrest]; simp, hnested⟩

theorem Pair.respects_bracket (p : Pair) : Respects p.bracket := by
  cases p with
  | block f => exact respects_family f
  | component name => exact respects_component name.text

theorem Pair.bracket_opens {p : Pair} {x : Item} {front : Text} :
    p.bracket.opens (x.event front) = true ↔ x.marker = .opener p := by
  obtain ⟨gap, blank, m⟩ := x
  cases p with
  | block f =>
    rcases m with ⟨g | name⟩ | ⟨g | name⟩ <;>
      simp [bracket, Bracket.family, Item.event, Marker.kind]
  | component name =>
    obtain ⟨n, hn⟩ := name
    rcases m with ⟨g | ⟨n', hn'⟩⟩ | ⟨g | ⟨n', hn'⟩⟩ <;>
      simp [bracket, Bracket.component, Item.event, Marker.kind, Marker.name]

theorem Pair.bracket_closes {p : Pair} {y : Item} {front : Text} (h : y.marker = .closer p) :
    p.bracket.closes (y.event front) = true := by
  cases p <;> simp [bracket, Bracket.family, Bracket.component, Item.event, Marker.kind,
    Marker.name, h]

/-- The events of items that are cut at two of them. -/
theorem eventsFrom_cut (front : Text) (before inner after : List Item) (x y : Item) :
    eventsFrom front (before ++ x :: (inner ++ y :: after)) =
      eventsFrom front before ++ x.event (front ++ textOf before ++ x.gap) ::
        (eventsFrom (front ++ textOf before ++ x.text) inner ++
          y.event (front ++ textOf (before ++ x :: inner) ++ y.gap) ::
            eventsFrom (front ++ textOf (before ++ x :: inner) ++ y.text) after) := by
  rw [eventsFrom_append, eventsFrom, eventsFrom_append, eventsFrom]
  simp [textOf_append, textOf_cons]

/-- A cut of the events is a cut of the items. -/
theorem exists_item_of_eventsFrom {items : List Item} {front : Text} {F R : List Event} {X : Event}
    (h : eventsFrom front items = F ++ X :: R) :
    ∃ before x rest, items = before ++ x :: rest ∧ eventsFrom front before = F ∧
      X = x.event (front ++ textOf before ++ x.gap) := by
  induction items generalizing front F with
  | nil =>
    rw [eventsFrom] at h
    simp at h
  | cons i items ih =>
    rw [eventsFrom] at h
    -- the event is that of the first item, or comes from the items after it
    rcases List.cons_eq_append_iff.mp h with ⟨rfl, heq⟩ | ⟨F', rfl, heq⟩
    · refine ⟨[], i, items, rfl, rfl, ?_⟩
      rw [(List.cons.inj heq).1, textOf, List.flatMap_nil, List.append_nil]
    · obtain ⟨before, x, rest, rfl, hF, hX⟩ := ih heq
      refine ⟨i :: before, x, rest, rfl, by rw [eventsFrom, hF], ?_⟩
      rw [hX, textOf_cons, List.append_assoc front]

/-- Partners are the two markers of a pair, and the markers between them are nested. -/
theorem exists_items_of_partners {o : Outline} {p : Pair} {F I B : List Event} {X Y : Event}
    (heq : o.events = F ++ X :: (I ++ Y :: B)) (ho : p.bracket.opens X = true)
    (hc : p.bracket.closes Y = true) (hI : p.bracket.Balanced I) :
    ∃ before x inner y after, o.items = before ++ x :: (inner ++ y :: after) ∧
      x.marker = .opener p ∧ y.marker = .closer p ∧ Nested (inner.map (·.marker)) ∧
      X = x.event ([] ++ textOf before ++ x.gap) ∧
      I = eventsFrom ([] ++ textOf before ++ x.text) inner ∧
      Y = y.event ([] ++ textOf (before ++ x :: inner) ++ y.gap) := by
  obtain ⟨before, x, rest, hitems, hF, rfl⟩ := exists_item_of_eventsFrom heq
  have hx : x.marker = .opener p := Pair.bracket_opens.mp ho
  -- the outline has a closer for the opener, and there is one partner at most
  have hnested := o.nested
  rw [hitems, List.map_append, List.map_cons, hx] at hnested
  obtain ⟨ms, ms', hms, hinner⟩ := hnested.exists_closer rfl
  obtain ⟨inner, rest, rfl, rfl, hms'⟩ := List.map_eq_append_iff.mp hms
  obtain ⟨y, after, rfl, hy, -⟩ := List.map_eq_cons_iff.mp hms'
  have heq' := eventsFrom_cut [] before inner after x y
  rw [← hitems, hF] at heq'
  have hcut := (List.cons.inj (List.append_cancel_left (heq.symm.trans heq'))).2
  obtain ⟨rfl, rfl⟩ := hI.cut_unique (balanced_eventsFrom p.respects_bracket hinner _) hc
    (Pair.bracket_closes hy) hcut
  exact ⟨before, x, inner, y, after, hitems, hx, hy, hinner, rfl, rfl, rfl⟩

/-- **The pairs of an outline are the partners among its events.** -/
theorem hasPair_iff (o : Outline) (p : Pair) (first last : Nat) :
    o.HasPair p first last ↔
      ∃ x y, p.bracket.Matches o.events x y ∧ x.line = first ∧ y.line = last := by
  -- an event stands on the line its item ends on
  have hfirst : ∀ (before : List Item) (x : Item),
      (x.event ([] ++ textOf before ++ x.gap)).line = lineOf (before ++ [x]) := by
    intro before x
    rw [line_event, lineOf, textOf_append]
    simp [textOf]
  have hlast : ∀ (before inner : List Item) (x y : Item),
      (y.event ([] ++ textOf (before ++ x :: inner) ++ y.gap)).line =
        lineOf (before ++ x :: (inner ++ [y])) := by
    intro before inner x y
    rw [hfirst, List.append_assoc]
    rfl
  constructor
  · -- a pair of the outline: what stands between is balanced, so the events match
    rintro ⟨before, x, inner, y, after, hitems, hx, hy, hinner, rfl, rfl⟩
    have heq := eventsFrom_cut [] before inner after x y
    rw [← hitems] at heq
    exact ⟨_, _, ⟨_, _, _, heq, Pair.bracket_opens.mpr hx, Pair.bracket_closes hy,
      balanced_eventsFrom p.respects_bracket hinner _⟩, hfirst before x, hlast before inner x y⟩
  · -- a match of the events: they are the events of two items, which pair
    rintro ⟨X, Y, ⟨F, I, B, heq, ho, hc, hI⟩, hX, hY⟩
    obtain ⟨before, x, inner, y, after, hitems, hx, hy, hinner, rfl, -, rfl⟩ :=
      exists_items_of_partners heq ho hc hI
    refine ⟨before, x, inner, y, after, hitems, hx, hy, hinner, ?_, ?_⟩
    · exact Int.ofNat.inj (hX.symm.trans (hfirst before x))
    · exact Int.ofNat.inj (hY.symm.trans (hlast before inner x y))

/-- **Pairs do not cross** in the order of the text: between two partners everything is balanced, so
that a tag opened there has its partner there. -/
theorem exists_pairs_inside (o : Outline) (p : Pair) {i j k : Nat}
    (h : p.bracket.Pairs o.events i j) (hik : i < k) (hkj : k < j) {b : Bracket Event}
    (hb : Respects b) {t : Event} (ht : o.events[k]? = some t) (ho : b.opens t = true) :
    ∃ m, m < j ∧ b.Pairs o.events k m := by
  obtain ⟨x, y, heq, -, -, hx, hy, hinner⟩ := h.cut
  obtain ⟨before, z, inner, -, -, -, -, -, hnested, -, hI, -⟩ :=
    exists_items_of_partners heq hx hy hinner
  -- what stands between the two is balanced for `b` too, so its opener there has a partner
  have hbalanced : b.Balanced ((o.events.take j).drop (i + 1)) := by
    rw [hI]
    exact balanced_eventsFrom hb hnested _
  have hk : ((o.events.take j).drop (i + 1))[k - (i + 1)]? = some t := by
    rw [List.getElem?_drop, Nat.add_sub_cancel' hik, List.getElem?_take_of_lt hkj, ht]
  obtain ⟨m, hm⟩ := hbalanced.exists_pairs hk ho
  obtain ⟨hpairs, hlt⟩ := hm.of_take_drop
  rw [Nat.add_sub_cancel' hik] at hpairs
  exact ⟨_, hlt, hpairs⟩

end Outline

end ViewLint
