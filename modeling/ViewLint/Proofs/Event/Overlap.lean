import ViewLint.Proofs.Event.Markers
import ViewLint.Proofs.Event.Tags
import ViewLint.Proofs.Text.Search

/-!
# Where component tags overlap

`tags_disjoint_iff`: two tags of a text share a byte if and only if one of them is a closing tag
that stands in a quoted value of the other, and every closing tag that stands there is read.

Opening and closing tags are searched for separately, and a search goes on behind what it has found.
So two tags of one search are apart (`eq_of_overlaps`), and an opening tag in a quoted value is
passed over. The search for closing tags does not know of the values (`tags_overlap_in_value`).

Two tags of different searches can only meet in one way. A closing tag has no `<` behind its first
byte and no quote (`IsCloseTag.exists_plain`); an opening tag has a `<` behind its first byte only
in a quoted value (`IsOpenTag.exists_inValue`). So the closing tag starts in a value, and it ends
there, for it does not reach over the quote (`InValue.extend`).
-/

namespace ViewLint

open Text (byte Pattern Occurrence occurrences)

namespace Text

theorem Occurrence.Matches.length_text {form : Text → Prop} {text : Text} {o : Occurrence}
    (h : o.Matches form text) : (o.text text).length = o.stop - o.start := by
  obtain ⟨hle, hstop, -⟩ := h
  unfold Occurrence.text
  rw [List.length_take, List.length_drop]
  omega

end Text

namespace Event

/-! ### Angle brackets and quotes in a tag -/

/-- Behind its first byte a closing tag has neither a `<` nor a quote. -/
theorem IsCloseTag.exists_plain {name tag : Text} (h : IsCloseTag name tag) :
    ∃ rest, tag = byte '<' :: rest ∧
      byte '<' ∉ rest ∧ byte '"' ∉ rest ∧ byte '\'' ∉ rest := by
  obtain ⟨⟨-, hname⟩, blanks, hblanks, rfl⟩ := h
  -- what is neither a name byte nor a blank is in the tag only if it is one of its marks
  have hplain : ∀ b, isNameByte b = false → Text.isBlank b = false →
      b ∉ Text.ofString "/c-" → b ≠ byte '>' →
      b ∉ Text.ofString "/c-" ++ name ++ blanks ++ [byte '>'] := by
    intro b hb hb' hhead hgt hmem
    simp only [List.mem_append, List.mem_singleton] at hmem
    rcases hmem with ((hmem | hmem) | hmem) | hmem
    · exact hhead hmem
    · exact Bool.eq_false_iff.mp hb (hname b hmem)
    · exact Bool.eq_false_iff.mp hb' (hblanks b hmem)
    · exact hgt hmem
  exact ⟨_, rfl, hplain _ (by decide) (by decide) (by decide) (by decide),
    hplain _ (by decide) (by decide) (by decide) (by decide),
    hplain _ (by decide) (by decide) (by decide) (by decide)⟩

/-- **The piece stands in a quoted value of attributes**, between a first and a last part. -/
inductive InValue (piece : Text) : Text → Text → Prop
  | intro {front value value' back : Text} {quote : UInt8} : Attributes front →
      quote = byte '"' ∨ quote = byte '\'' → quote ∉ value ++ piece ++ value' → Attributes back →
      InValue piece (front ++ quote :: value) (value' ++ quote :: back)

/-- **A `<` in attributes stands in a quoted value.** -/
theorem Attributes.inValue {attrs before after : Text} (h : Attributes attrs)
    (hattrs : attrs = before ++ byte '<' :: after) : InValue [byte '<'] before after := by
  induction h generalizing before with
  | nil => cases before <;> cases hattrs
  | @quoted quote value rest hquote hvalue hrest ih =>
    have hlt : quote ≠ byte '<' := by rcases hquote with rfl | rfl <;> decide
    rw [List.cons_append] at hattrs
    rcases List.cons_eq_append_iff.mp hattrs with ⟨rfl, heq⟩ | ⟨before, rfl, hsplit⟩
    · exact absurd (List.cons.inj heq).1.symm hlt
    rcases List.append_eq_append_iff.mp hsplit with ⟨s, rfl, hs⟩ | ⟨s, rfl, hs⟩
    · -- the `<` stands behind the value, or is its quote
      rcases List.cons_eq_append_iff.mp hs with ⟨rfl, heq⟩ | ⟨s, rfl, htail⟩
      · exact absurd (List.cons.inj heq).1.symm hlt
      obtain ⟨hfront, hquote', hvalue', hback⟩ := ih htail
      have hinside := InValue.intro (.quoted hquote hvalue hfront) hquote' hvalue' hback
      rwa [List.append_assoc (quote :: value)] at hinside
    · -- the `<` stands in the value
      rcases List.cons_eq_append_iff.mp hs with ⟨rfl, heq⟩ | ⟨s, rfl, rfl⟩
      · exact absurd (List.cons.inj heq).1 hlt
      rw [List.append_cons] at hvalue
      exact .intro .nil hquote hvalue hrest
  | @plain b rest hb hrest ih =>
    -- the `<` is no plain byte, so it stands behind this one
    rcases List.cons_eq_append_iff.mp hattrs with ⟨rfl, heq⟩ | ⟨before, rfl, htail⟩
    · obtain ⟨rfl, -⟩ := List.cons.inj heq
      exact absurd List.mem_cons_self hb
    obtain ⟨hfront, hquote, hvalue, hback⟩ := ih htail
    exact .intro (.plain hb hfront) hquote hvalue hback

/-- **A `<` behind the first byte of an opening tag stands in a quoted value.** -/
theorem IsOpenTag.exists_inValue {name before after : Text} (hne : before ≠ [])
    (h : IsOpenTag name (before ++ byte '<' :: after)) :
    ∃ blank front back, Text.isBlank blank = true ∧ InValue [byte '<'] front back ∧
      before = Text.ofString "<c-" ++ name ++ blank :: front ∧ after = back ++ [byte '>'] := by
  obtain ⟨⟨-, hname⟩, tail, htail, heq⟩ := h
  obtain ⟨b, before, rfl⟩ := List.exists_cons_of_ne_nil hne
  obtain ⟨rfl, -⟩ := List.cons.inj heq
  have htext : Text.ofString "c-" ++ name ++ tail ++ [byte '>'] = before ++ byte '<' :: after :=
    (List.cons.inj heq).2.symm
  -- neither the `>` at the end nor the name is the `<`
  obtain ⟨after, hinner, rfl⟩ :=
    Text.exists_of_append_right htext (by decide : byte '<' ∉ [byte '>'])
  have hname : byte '<' ∉ Text.ofString "c-" ++ name := by
    rw [List.mem_append, not_or]
    exact ⟨by decide, fun hmem => absurd (hname _ hmem) (by decide)⟩
  obtain ⟨before, rfl, htail'⟩ := Text.exists_of_append_left hinner hname
  cases htail with
  | bare => cases before <;> cases htail'
  | slash => exact absurd (htail' ▸ by simp : byte '<' ∈ [byte '/']) (by decide)
  | @attributes blank attrs hblank hattrs =>
    rcases List.cons_eq_append_iff.mp htail' with ⟨rfl, hhead⟩ | ⟨before, rfl, hsplit⟩
    · obtain ⟨rfl, -⟩ := List.cons.inj hhead
      exact absurd hblank (by decide)
    exact ⟨blank, before, after, hblank, hattrs.inValue hsplit, rfl, rfl⟩

/-- A piece that starts in a quoted value and has no quote ends there. -/
theorem InValue.extend {piece before after behind : Text} {b : UInt8}
    (h : InValue [b] before after) (hpiece : piece <+: b :: (after ++ behind))
    (hdouble : byte '"' ∉ piece) (hsingle : byte '\'' ∉ piece) :
    ∃ rest, InValue piece before rest ∧ b :: after = piece ++ rest := by
  obtain @⟨front, value, value', back, quote, hfront, hquote, hvalue, hback⟩ := h
  -- the value goes on to its closing quote, so a piece without quotes ends before that
  have hplain : quote ∉ piece := by
    rcases hquote with rfl | rfl
    · exact hdouble
    · exact hsingle
  rw [List.append_assoc, List.cons_append, ← List.cons_append] at hpiece
  obtain ⟨rest, hrest⟩ := Text.prefix_of_not_mem hpiece hplain
  rw [List.append_assoc, List.singleton_append, ← hrest, ← List.append_assoc] at hvalue
  refine ⟨rest ++ quote :: back, .intro hfront hquote hvalue hback, ?_⟩
  rw [← List.append_assoc, hrest, List.cons_append]

/-! ### Where a tag stands -/

/-- **The piece stands in a quoted value of the opening tag**, `offset` bytes behind the start of
the tag. -/
def QuotedIn (tag : Text) (offset : Nat) (piece : Text) : Prop :=
  ∃ name blank front back, IsName name ∧ Text.isBlank blank = true ∧ InValue piece front back ∧
    tag = (Text.ofString "<c-" ++ name ++ blank :: front) ++ piece ++ (back ++ [byte '>']) ∧
    offset = (Text.ofString "<c-" ++ name ++ blank :: front).length

/-- **The event is that of the piece** which stands in the text at the offset `p`. -/
structure StandsAt (text : Text) (e : Event) (p : Nat) (piece : Text) : Prop where
  bytes : piece <+: text.drop p
  le : p + piece.length ≤ text.length
  range : e.range =
    ⟨(Document.mk text).placeAt p, (Document.mk text).placeAt (p + piece.length : Nat)⟩

namespace StandsAt

variable {text x y : Text} {a b : Event} {p q : Nat}

theorem overlaps_iff (ha : StandsAt text a p x) (hb : StandsAt text b q y) :
    a.range.Overlaps b.range ↔ p < q + y.length ∧ q < p + x.length := by
  have hp := ha.le
  have hq := hb.le
  unfold Range.Overlaps
  rw [ha.range, hb.range]
  rw [Document.placeAt_before_iff (by omega) hq, Document.placeAt_before_iff (by omega) hp]

end StandsAt

theorem standsAt_of_matches {form : Text → Prop} {text : Text} {o : Occurrence} {e : Event}
    (h : o.Matches form text)
    (hrange : e.range = ⟨(Document.mk text).placeAt o.start, (Document.mk text).placeAt o.stop⟩) :
    StandsAt text e o.start (o.text text) := by
  have hstop : o.start + (o.text text).length = o.stop := by
    rw [h.length_text, Nat.add_sub_cancel' h.1]
  refine ⟨List.take_prefix _ _, hstop ▸ h.2.1, ?_⟩
  rw [hstop]
  exact hrange

namespace AreMatches

variable {form : Text → Text → Prop} {text : Text} {os : List Occurrence} {events : List Event}

theorem exists_of_mem (h : AreMatches form text os events) {e : Event} (he : e ∈ events) :
    ∃ p tag, StandsAt text e p tag ∧ form e.name tag := by
  obtain ⟨i, hi, rfl⟩ := List.getElem_of_mem he
  have hi' : i < os.length := h.events.length_eq ▸ hi
  obtain ⟨hform, hrange⟩ := h.events.get hi' hi
  have hmatch := (h.scan.matches_of_mem (List.getElem_mem hi')).2
  exact ⟨_, _, standsAt_of_matches hmatch hrange, hform⟩

/-- Where a tag of the form stands, there is an event, unless the tag starts inside another one. -/
theorem exists_or_inside (h : AreMatches form text os events) {p : Nat} {name tag : Text}
    (htag : form name tag) (hpos : 0 < tag.length) (hbytes : tag <+: text.drop p) :
    (∃ e ∈ events, StandsAt text e p tag ∧ form e.name tag) ∨
      ∃ q outer name', q < p ∧ p < q + outer.length ∧ outer <+: text.drop q ∧ form name' outer := by
  have hle := hbytes.length_le
  rw [List.length_drop] at hle
  have htext : Occurrence.text ⟨p, p + tag.length⟩ text = tag := by
    unfold Occurrence.text
    rw [Nat.add_sub_cancel_left]
    exact (List.prefix_iff_eq_take.mp hbytes).symm
  have hmatch : Occurrence.Matches (fun tag => ∃ name, form name tag) text
      ⟨p, p + tag.length⟩ := by
    refine ⟨Nat.le_add_right _ _, (by omega : p + tag.length ≤ text.length), name, ?_⟩
    rwa [htext]
  rcases h.complete _ hmatch with hmem | ⟨o, ho, hbefore, hafter⟩
  · -- matches and events go in step
    obtain ⟨⟨i, hi⟩, hget⟩ := List.get_of_mem hmem
    have hi' : i < events.length := h.events.length_eq ▸ hi
    have hevent := h.events.get hi hi'
    rw [hget] at hevent
    have hat := standsAt_of_matches hmatch hevent.2
    rw [htext] at hat hevent
    exact Or.inl ⟨_, List.get_mem events _, hat, hevent.1⟩
  · have hmatch' := (h.scan.matches_of_mem ho).2
    obtain ⟨name', hform⟩ := hmatch'.2.2
    refine Or.inr ⟨o.start, o.text text, name', hbefore, ?_, List.take_prefix _ _, hform⟩
    rw [hmatch'.length_text]
    dsimp only at hafter
    omega

end AreMatches

/-- Two events of one search that share a byte are the same. -/
theorem eq_of_overlaps {p : Pattern} {head : UInt8} (hp : p.Anchored head) {text : Text}
    {event : Occurrence → Event} (hevent : ∀ o, (event o).range =
      ⟨(Document.mk text).placeAt o.start, (Document.mk text).placeAt o.stop⟩) {a b : Event}
    (ha : a ∈ (occurrences p text).map event) (hb : b ∈ (occurrences p text).map event)
    (h : a.range.Overlaps b.range) : a = b := by
  obtain ⟨o, ho, rfl⟩ := List.mem_map.mp ha
  obtain ⟨o', ho', rfl⟩ := List.mem_map.mp hb
  obtain ⟨-, hlt, hle⟩ := (hp.bounds_searchFrom 0 text).1 o ho
  obtain ⟨-, hlt', hle'⟩ := (hp.bounds_searchFrom 0 text).1 o' ho'
  unfold Range.Overlaps at h
  rw [hevent, hevent, Document.placeAt_before_iff (by omega) (by omega),
    Document.placeAt_before_iff (by omega) (by omega)] at h
  rw [hp.eq_of_overlap ho ho' h.1 h.2]

/-! ### A closing tag and an opening tag -/

/-- No `<` stands inside a closing tag. -/
theorem IsCloseTag.le_of_lt_sign {text piece name : Text} {p q : Nat} (h : IsCloseTag name piece)
    (hpiece : piece <+: text.drop p) (hpq : p < q) (hq : text[q]? = some (byte '<')) :
    p + piece.length ≤ q := by
  by_contra hlt
  obtain ⟨k, rfl⟩ : ∃ k, q = p + (k + 1) := ⟨q - p - 1, by omega⟩
  rw [Text.getElem?_of_prefix_drop hpiece (by omega)] at hq
  obtain ⟨rest, rfl, hrest, -⟩ := h.exists_plain
  exact hrest (List.mem_of_getElem? hq)

/-- An opening and a closing tag do not start at one offset. -/
theorem IsCloseTag.start_ne {text tag piece name name' : Text} {p q : Nat}
    (hclose : IsCloseTag name piece) (hopen : IsOpenTag name' tag) (hpiece : piece <+: text.drop p)
    (htag : tag <+: text.drop q) : p ≠ q := by
  rintro rfl
  obtain ⟨-, blanks, -, rfl⟩ := hclose
  obtain ⟨-, tail, -, rfl⟩ := hopen
  -- the byte behind the `<` is a slash in the one and a letter in the other
  have hslash : text[p + 1]? = some (byte '/') :=
    Text.getElem?_of_prefix_drop hpiece (Nat.succ_lt_succ (Nat.zero_lt_succ _))
  have hletter : text[p + 1]? = some (byte 'c') :=
    Text.getElem?_of_prefix_drop htag (Nat.succ_lt_succ (Nat.zero_lt_succ _))
  exact absurd (hslash.symm.trans hletter) (by decide)

/-- **A closing tag that starts inside an opening tag stands in a quoted value.** -/
theorem IsCloseTag.quotedIn {text tag piece name name' : Text} {q i : Nat}
    (hclose : IsCloseTag name piece) (hopen : IsOpenTag name' tag) (htag : tag <+: text.drop q)
    (hpiece : piece <+: text.drop (q + i)) (hpos : 0 < i) (hi : i < tag.length) :
    QuotedIn tag i piece := by
  obtain ⟨plain, rfl, -, hdouble, hsingle⟩ := hclose.exists_plain
  -- the opening tag is cut at the first byte of the closing tag
  have hbyte : tag[i] = byte '<' := by
    have hhead : text[q + i]? = some (byte '<') :=
      Text.getElem?_of_prefix_drop hpiece (Nat.zero_lt_succ _)
    rw [Text.getElem?_of_prefix_drop htag hi, List.getElem?_eq_getElem hi] at hhead
    exact Option.some.inj hhead
  have hcut : tag = tag.take i ++ byte '<' :: tag.drop (i + 1) := by
    rw [← hbyte, ← List.drop_eq_getElem_cons hi, List.take_append_drop]
  have hne : tag.take i ≠ [] := by
    refine List.ne_nil_of_length_pos ?_
    rw [List.length_take]
    omega
  obtain ⟨blank, front, back, hblank, hvalue, hbefore, hafter⟩ := (hcut ▸ hopen).exists_inValue hne
  -- the closing tag has no quote, so it ends before the value does
  obtain ⟨behind, hbehind⟩ := htag
  have hdrop : text.drop (q + i) = byte '<' :: (back ++ (byte '>' :: behind)) := by
    rw [← List.drop_drop, ← hbehind, List.drop_append_of_le_length (Nat.le_of_lt hi),
      List.drop_eq_getElem_cons hi, hbyte, hafter, List.cons_append, List.append_assoc,
      List.singleton_append]
  obtain ⟨rest, hvalue', hrest⟩ := hvalue.extend (hdrop ▸ hpiece)
    (List.not_mem_cons_of_ne_of_not_mem (by decide) hdouble)
    (List.not_mem_cons_of_ne_of_not_mem (by decide) hsingle)
  refine ⟨name', blank, front, rest, hopen.1, hblank, hvalue', ?_, ?_⟩
  · rw [← hbefore]
    calc tag = tag.take i ++ byte '<' :: tag.drop (i + 1) := hcut
      _ = tag.take i ++ (byte '<' :: back ++ [byte '>']) := by rw [hafter, List.cons_append]
      _ = tag.take i ++ byte '<' :: plain ++ (rest ++ [byte '>']) := by
        rw [hrest, List.append_assoc, List.append_assoc]
  · rw [← hbefore, List.length_take]
    omega

theorem QuotedIn.exists_split {tag piece : Text} {i : Nat} (h : QuotedIn tag i piece) :
    ∃ stem rest, tag = stem ++ piece ++ rest ∧ i = stem.length ∧ 0 < stem.length ∧
      0 < rest.length := by
  obtain ⟨name, blank, front, back, -, -, -, rfl, rfl⟩ := h
  refine ⟨_, _, rfl, rfl, ?_, ?_⟩
  all_goals
    simp only [List.length_append, List.length_cons]
    omega

/-- **The opening tag has the piece in a quoted value**, at the offset `p` of the text. -/
structure HasInValue (text : Text) (e : Event) (p : Nat) (piece : Text) : Prop where
  opens : e.kind = .openTag ∨ e.kind = .selfClosedTag
  quoted : ∃ q tag i, StandsAt text e q tag ∧ IsOpenTag e.name tag ∧ QuotedIn tag i piece ∧
    p = q + i

/-- **The closing tag stands in a quoted value of the opening tag.** -/
structure StandsInValue (text : Text) (c e : Event) : Prop where
  closes : c.kind = .closeTag
  inside : ∃ p piece, HasInValue text e p piece ∧ StandsAt text c p piece ∧ IsCloseTag c.name piece

theorem HasInValue.bytes {text piece : Text} {e : Event} {p : Nat}
    (h : HasInValue text e p piece) : piece <+: text.drop p := by
  obtain ⟨-, q, tag, i, hat, -, hquoted, rfl⟩ := h
  obtain ⟨rest, hrest⟩ := hat.bytes
  obtain ⟨stem, rest', rfl, rfl, -, -⟩ := hquoted.exists_split
  rw [← List.drop_drop, ← hrest, List.append_assoc, List.append_assoc, List.drop_left]
  exact List.prefix_append _ _

theorem StandsInValue.overlaps {text : Text} {c e : Event} (h : StandsInValue text c e) :
    c.range.Overlaps e.range := by
  obtain ⟨-, p, piece, ⟨-, q, tag, i, he, -, hquoted, rfl⟩, hc, -⟩ := h
  obtain ⟨stem, rest, rfl, rfl, hstem, hrest⟩ := hquoted.exists_split
  rw [hc.overlaps_iff he, List.length_append, List.length_append]
  omega

theorem standsInValue_of_overlaps {text : Text} {c e : Event} (hc : c ∈ closeTags text)
    (he : e ∈ openTags text) (h : c.range.Overlaps e.range) : StandsInValue text c e := by
  obtain ⟨p, piece, hpiece, hclose⟩ := (areMatches_closeTags text).exists_of_mem hc
  obtain ⟨q, tag, htag, hopen⟩ := (areMatches_openTags text).exists_of_mem he
  obtain ⟨hpq, hqp⟩ := (hpiece.overlaps_iff htag).mp h
  -- the two start apart, and the opening tag is not the one that starts inside the other
  have hne : p ≠ q := hclose.start_ne hopen hpiece.bytes htag.bytes
  have hlt : text[q]? = some (byte '<') := by
    obtain ⟨-, tail, -, rfl⟩ := hopen
    exact Text.getElem?_of_prefix_drop htag.bytes (Nat.zero_lt_succ _)
  have hle : q ≤ p := by
    by_contra hpq'
    have hend := hclose.le_of_lt_sign hpiece.bytes (Nat.not_le.mp hpq') hlt
    omega
  obtain ⟨i, rfl⟩ := Nat.exists_eq_add_of_le hle
  have hquoted : QuotedIn tag i piece :=
    hclose.quotedIn hopen htag.bytes hpiece.bytes (by omega) (by omega)
  exact ⟨kind_of_mem_closeTags hc, _, piece,
    ⟨kind_of_mem_openTags he, q, tag, i, htag, hopen, hquoted, rfl⟩, hpiece, hclose⟩

/-- **No closing tag is passed over.** -/
theorem exists_closeTag_of_prefix {text piece name : Text} {p : Nat} (h : IsCloseTag name piece)
    (hpiece : piece <+: text.drop p) :
    ∃ c ∈ closeTags text, c.name = name ∧ StandsAt text c p piece := by
  obtain ⟨plain, hplain, -⟩ := h.exists_plain
  have hpos : 0 < piece.length := by
    rw [hplain]
    exact Nat.zero_lt_succ _
  rcases (areMatches_closeTags text).exists_or_inside h hpos hpiece with
    ⟨c, hc, hat, hname⟩ | ⟨q, outer, name', hbefore, hafter, hbytes, houter⟩
  · exact ⟨c, hc, hname.takeWhile_eq.symm.trans h.takeWhile_eq, hat⟩
  · -- its `<` would stand inside another closing tag
    have hlt : text[p]? = some (byte '<') := by
      rw [hplain] at hpiece
      exact Text.getElem?_of_prefix_drop hpiece (Nat.zero_lt_succ _)
    have hend := houter.le_of_lt_sign hbytes hbefore hlt
    omega

theorem mem_openTags_iff {text : Text} {e : Event} :
    e ∈ openTags text ↔ e ∈ ofText text ∧ (e.kind = .openTag ∨ e.kind = .selfClosedTag) := by
  rw [← filter_openTag_ofText, List.mem_filter, decide_eq_true_eq]

theorem mem_closeTags_iff {text : Text} {e : Event} :
    e ∈ closeTags text ↔ e ∈ ofText text ∧ e.kind = .closeTag := by
  rw [← filter_closeTag_ofText, List.mem_filter, decide_eq_true_eq]

theorem mem_tags_iff {text : Text} {e : Event} :
    e ∈ ofText text ∧ e.kind.isTag = true ↔ e ∈ openTags text ∨ e ∈ closeTags text := by
  rw [mem_openTags_iff, mem_closeTags_iff, ← and_or_left]
  refine and_congr_right fun _ => ?_
  cases e.kind <;> simp [Kind.isTag]

/-- **Where component tags overlap.** Two tags share a byte if and only if one of them is a closing
tag that stands in a quoted value of the other. Every closing tag that stands in a quoted value is
read as an event. So the tags of a text are disjoint if and only if none of its opening tags has a
closing tag in a quoted value. -/
theorem tags_disjoint_iff (text : Text) :
    (∀ a ∈ ofText text, ∀ b ∈ ofText text, a.kind.isTag = true → b.kind.isTag = true → a ≠ b →
      (a.range.Overlaps b.range ↔ StandsInValue text a b ∨ StandsInValue text b a)) ∧
    (∀ e ∈ ofText text, ∀ p name piece, HasInValue text e p piece → IsCloseTag name piece →
      ∃ c ∈ ofText text, c.name = name ∧ StandsAt text c p piece ∧ StandsInValue text c e) ∧
    ((∀ a ∈ ofText text, ∀ b ∈ ofText text, a.kind.isTag = true → b.kind.isTag = true → a ≠ b →
        ¬ a.range.Overlaps b.range) ↔
      ∀ e ∈ ofText text, ∀ p name piece, HasInValue text e p piece → ¬ IsCloseTag name piece) := by
  have hoverlaps : ∀ a ∈ ofText text, ∀ b ∈ ofText text, a.kind.isTag = true →
      b.kind.isTag = true → a ≠ b →
      (a.range.Overlaps b.range ↔ StandsInValue text a b ∨ StandsInValue text b a) := by
    intro a ha b hb hatag hbtag hne
    refine ⟨fun h => ?_, fun h => ?_⟩
    · -- tags of one search are apart, so one of them opens and the other one closes
      rcases mem_tags_iff.mp ⟨ha, hatag⟩ with ha | ha <;>
        rcases mem_tags_iff.mp ⟨hb, hbtag⟩ with hb | hb
      · exact absurd (eq_of_overlaps anchored_openTag (fun _ => rfl) ha hb h) hne
      · exact .inr (standsInValue_of_overlaps hb ha h.symm)
      · exact .inl (standsInValue_of_overlaps ha hb h)
      · exact absurd (eq_of_overlaps anchored_closeTag (fun _ => rfl) ha hb h) hne
    · rcases h with h | h
      · exact h.overlaps
      · exact h.overlaps.symm
  have hread : ∀ e ∈ ofText text, ∀ p name piece, HasInValue text e p piece →
      IsCloseTag name piece →
      ∃ c ∈ ofText text, c.name = name ∧ StandsAt text c p piece ∧ StandsInValue text c e := by
    intro e _ p name piece hvalue hclose
    obtain ⟨c, hc, hname, hat⟩ := exists_closeTag_of_prefix hclose hvalue.bytes
    obtain ⟨hc, hkind⟩ := mem_closeTags_iff.mp hc
    exact ⟨c, hc, hname, hat, hkind, p, piece, hvalue, hat, hname ▸ hclose⟩
  refine ⟨hoverlaps, hread, fun hdisjoint e he p name piece hvalue hclose => ?_,
    fun hnone a ha b hb hatag hbtag hne h => ?_⟩
  · obtain ⟨c, hc, -, -, hstands⟩ := hread e he p name piece hvalue hclose
    have hctag : c.kind.isTag = true := by
      rw [hstands.closes]
      rfl
    have hetag : e.kind.isTag = true := by
      rcases hvalue.opens with h | h <;> rw [h] <;> rfl
    have hne : c ≠ e := by
      rintro rfl
      rcases hvalue.opens with h | h <;> exact absurd (hstands.closes.symm.trans h) (by decide)
    exact hdisjoint c hc e he hctag hetag hne hstands.overlaps
  · rcases (hoverlaps a ha b hb hatag hbtag hne).mp h with h | h
    · obtain ⟨-, p, piece, hvalue, -, hclose⟩ := h
      exact hnone b hb p _ piece hvalue hclose
    · obtain ⟨-, p, piece, hvalue, -, hclose⟩ := h
      exact hnone a ha p _ piece hvalue hclose

/-- Tags do overlap: the closing tag in the value of `<c-a x="</c-b>">` is an event of its own. -/
theorem tags_overlap_in_value :
    ¬ ∀ (text : Text), ∀ a ∈ ofText text, ∀ b ∈ ofText text, a.kind.isTag = true →
      b.kind.isTag = true → a ≠ b → ¬ a.range.Overlaps b.range := by
  intro hlaw
  let text := Text.ofString "<c-a x=\"</c-b>\">"
  let outer : Event := ⟨.openTag, Text.ofString "a", .onLine 0 0 16⟩
  let inner : Event := ⟨.closeTag, Text.ofString "b", .onLine 0 8 14⟩
  -- the events in their order, as the sort leaves them
  have hevents : ofText text = [outer, inner] := by
    unfold ofText
    rw [List.mergeSort_of_pairwise (by decide +kernel)]
    decide +kernel
  have houter : outer ∈ ofText text := hevents ▸ List.mem_cons_self
  have hinner : inner ∈ ofText text := hevents ▸ List.mem_cons_of_mem _ List.mem_cons_self
  exact hlaw text outer houter inner hinner rfl rfl (by decide) ⟨rfl, rfl⟩

end Event

end ViewLint
