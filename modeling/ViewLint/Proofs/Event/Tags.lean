import Mathlib.Data.List.Forall2
import ViewLint.Proofs.Event.Order

/-!
# The component tags of a text

`componentTags_exact`: the tag events of a text are the matches of the grammar of tags
(`IsOpenTag`, `IsCloseTag`), found from left to right. Each event has the name and the place of its
match, and a tag is self-closed exactly if a slash stands before its `>`, white space apart
(`SlashLast`).
-/

namespace ViewLint

open Text (byte Scan Occurrence searchFrom occurrences runes width)

/-! ### Self-closed tags -/

namespace Event

/-- A slash is the last character before the `>` of a tag, once the white space before the `>` is
taken away. -/
def SlashLast (tag : Text) : Prop :=
  ∃ front white, tag = front ++ byte '/' :: white ++ [byte '>'] ∧
    ∀ r ∈ runes white, Text.isUnicodeSpace r.code = true

end Event

namespace Text

theorem runes_concat_ascii (text : Text) {c : UInt8} (hc : c < 0x80) :
    runes (text ++ [c]) = runes text ++ [⟨c.toNat, 1⟩] := by
  have hhead : ∀ x, [c].head? = some x → isContinuation x = false := by
    intro x hx
    obtain rfl := Option.some.inj hx
    exact not_isContinuation_of_ascii hc
  have hone : runes [c] = [⟨c.toNat, 1⟩] := by
    rw [runes_cons, runeAt, if_pos hc]
    rfl
  rw [runes_append_of_not_continuation text hhead, hone]

theorem width_reverse (rs : List Rune) : width rs.reverse = width rs := by
  induction rs with
  | nil => rfl
  | cons r rs ih =>
    rw [List.reverse_cons, width_append, ih, width_cons, width_cons, width_nil]
    omega

/-- Behind the first `k` characters stand the others. -/
theorem runes_drop_width (text : Text) (k : Nat) :
    runes (text.drop (width ((runes text).take k))) = (runes text).drop k := by
  -- induction along the runes: the first one is `w + 1` bytes, and `ih` drops the rest
  induction text using runes_induction generalizing k with
  | nil => simp
  | cons b rest ih =>
    cases k with
    | zero => rfl
    | succ k =>
      obtain ⟨w, hwidth⟩ := exists_width_runeAt b rest
      have hih := ih k
      rw [runes_cons, List.take_succ_cons, width_cons, hwidth, Nat.add_sub_cancel,
        List.drop_succ_cons]
      rw [hwidth, Nat.add_sub_cancel] at hih
      rw [Nat.add_right_comm, List.drop_succ_cons, ← List.drop_drop, hih]

/-- What trimming takes away is white. -/
theorem exists_trimSpaceEnd (text : Text) :
    ∃ white, text = trimSpaceEnd text ++ white ∧
      ∀ r ∈ runes white, isUnicodeSpace r.code = true := by
  unfold trimSpaceEnd
  have hspaces : ∀ r ∈ (runes text).reverse.takeWhile (fun r => isUnicodeSpace r.code),
      isUnicodeSpace r.code = true := fun r hr =>
    List.all_eq_true.mp List.all_takeWhile r hr
  have hsplit := List.takeWhile_append_dropWhile (p := fun r : Rune => isUnicodeSpace r.code)
    (l := (runes text).reverse)
  generalize (runes text).reverse.dropWhile (fun r => isUnicodeSpace r.code) = keep at hsplit ⊢
  generalize (runes text).reverse.takeWhile (fun r => isUnicodeSpace r.code) = spaces
    at hsplit hspaces
  -- the characters of the text are those that are kept, and the white ones behind them
  have hrunes : runes text = keep.reverse ++ spaces.reverse := by
    rw [← List.reverse_append, hsplit, List.reverse_reverse]
  have hwhite := runes_drop_width text keep.reverse.length
  rw [hrunes, List.take_left, List.drop_left, width_reverse] at hwhite
  refine ⟨text.drop (width keep), (List.take_append_drop _ _).symm, fun r hr => ?_⟩
  rw [hwhite, List.mem_reverse] at hr
  exact hspaces r hr

/-- Trimming stops at an ASCII byte that is not white. -/
theorem trimSpaceEnd_append {c : UInt8} (hc : c < 0x80) (hblack : isUnicodeSpace c.toNat = false)
    (front : Text) {white : Text} (hwhite : ∀ r ∈ runes white, isUnicodeSpace r.code = true) :
    trimSpaceEnd (front ++ [c] ++ white) = front ++ [c] := by
  have hdrop : (runes (front ++ [c] ++ white)).reverse.dropWhile
      (fun r => isUnicodeSpace r.code) = (runes (front ++ [c])).reverse := by
    rw [runes_append_of_ascii front hc, List.reverse_append,
      List.dropWhile_append_of_pos fun r hr => hwhite r (List.mem_reverse.mp hr),
      runes_concat_ascii front hc, List.reverse_append, List.reverse_singleton,
      List.singleton_append, List.dropWhile_cons_of_neg (by simp [hblack])]
  unfold trimSpaceEnd
  rw [hdrop, width_reverse, width_runes, List.take_left]

end Text

namespace Event

theorem isSelfClosed_iff (inner : Text) :
    isSelfClosed (inner ++ [byte '>']) = true ↔ SlashLast (inner ++ [byte '>']) := by
  unfold isSelfClosed
  rw [List.dropLast_concat, beq_iff_eq]
  constructor
  · -- the last byte left after trimming is the slash, and what was trimmed is white
    intro h
    obtain ⟨front, hfront⟩ := List.getLast?_eq_some_iff.mp h
    obtain ⟨white, hsplit, hwhite⟩ := Text.exists_trimSpaceEnd inner
    refine ⟨front, white, ?_, hwhite⟩
    rw [hfront] at hsplit
    rw [hsplit, List.append_assoc front, List.singleton_append]
  · -- trimming stops at the slash, which is no white byte
    rintro ⟨front, white, hsplit, hwhite⟩
    obtain rfl := List.append_cancel_right hsplit
    rw [List.append_cons, Text.trimSpaceEnd_append (by decide) (by decide) front hwhite,
      List.getLast?_concat]

/-! ### The events of a grammar -/

/-- **The events are the matches of a form**, found from left to right, each with its name and its
place. -/
structure AreMatches (form : Text → Text → Prop) (text : Text) (os : List Occurrence)
    (events : List Event) : Prop where
  /-- The matches are found from left to right. -/
  scan : Scan (fun tag => ∃ name, form name tag) text 0 os
  /-- No other list is found so. -/
  unique : ∀ os', Scan (fun tag => ∃ name, form name tag) text 0 os' → os' = os
  /-- An event has the name and the place of its match. -/
  events : List.Forall₂ (fun o e => form e.name (o.text text) ∧
    e.range = ⟨(Document.mk text).placeAt o.start, (Document.mk text).placeAt o.stop⟩) os events
  /-- At most one match starts at an offset. -/
  once : ∀ start stop stop', Occurrence.Matches (fun tag => ∃ name, form name tag) text
    ⟨start, stop⟩ → Occurrence.Matches (fun tag => ∃ name, form name tag) text ⟨start, stop'⟩ →
    stop = stop'
  /-- No match is hidden but one that starts inside another. -/
  complete : ∀ o, Occurrence.Matches (fun tag => ∃ name, form name tag) text o →
    o ∈ os ∨ ∃ o' ∈ os, o'.start < o.start ∧ o.start < o'.stop

/-- A pattern that decides a form finds its matches. -/
theorem areMatches_occurrences {p : Text.Pattern} {head : UInt8} {form : Text → Text → Prop}
    (hp : p.Anchored head) (hd : p.Decides fun tag => ∃ name, form name tag) (text : Text)
    {event : Occurrence → Event}
    (hevent : ∀ o name, form name (o.text text) → (event o).name = name ∧ (event o).range =
      ⟨(Document.mk text).placeAt o.start, (Document.mk text).placeAt o.stop⟩) :
    AreMatches form text (occurrences p text) ((occurrences p text).map event) := by
  -- the search yields the leftmost matches, one after the other
  have hscan : Scan (fun tag => ∃ name, form name tag) text 0 (occurrences p text) :=
    hd.scan_searchFrom hp text (Nat.zero_le _)
  -- a match is not empty, which is what makes the scan unique
  have hne : ∀ {start stop}, Occurrence.Matches (fun tag => ∃ name, form name tag) text
      ⟨start, stop⟩ → start < stop := by
    intro start stop hmatch
    obtain ⟨-, hpos, -⟩ := hp.starts (hd.some_of_matches hmatch)
    omega
  refine ⟨hscan, fun os' hscan' => hscan'.unique hd.stop_unique hne hscan, ?_,
    fun _ _ _ => hd.stop_unique,
    fun o ho => hscan.mem_or_inside hd.stop_unique hne ho (Nat.zero_le _)⟩
  rw [List.forall₂_map_right_iff, List.forall₂_same]
  intro o ho
  obtain ⟨-, -, -, name, hname⟩ := hscan.matches_of_mem ho
  obtain ⟨heq, hrange⟩ := hevent o name hname
  exact ⟨heq ▸ hname, hrange⟩

/-- A `>` inside a quoted value ends no tag. -/
theorem not_isOpenTag_quoted {name attrs value : Text} {blank quote : UInt8} (hname : IsName name)
    (hblank : Text.isBlank blank = true) (hattrs : Attributes attrs)
    (hquote : quote = byte '"' ∨ quote = byte '\'') (hvalue : quote ∉ value) (name' : Text) :
    ¬ IsOpenTag name'
      (Text.ofString "<c-" ++ name ++ blank :: attrs ++ quote :: value ++ [byte '>']) := by
  intro htag
  -- the pattern would find the tag, but it looks for the end of the value and there is none
  have hfound := decides_openTag.mpr ⟨_, [], (List.append_nil _).symm, ⟨name', htag⟩, rfl⟩
  have hopen : quote ∉ value ++ [byte '>'] := by
    rw [List.mem_append, not_or, List.mem_singleton]
    refine ⟨hvalue, ?_⟩
    rcases hquote with rfl | rfl <;> decide
  have hstem : Text.afterHead (Text.ofString "<c-") isNameByte
      (Text.ofString "<c-" ++ name ++ blank :: attrs ++ quote :: value ++ [byte '>']) =
        some (Text.ofString "<c-" ++ name).length := by
    refine Text.afterHead_eq_some_iff.mpr ⟨name, blank :: attrs ++ quote :: value ++ [byte '>'],
      by simp, hname.1, hname.2, fun b hb => ?_, rfl⟩
    obtain rfl := Option.some.inj hb
    exact not_isNameByte_of_isBlank hblank
  have htail : tagTail (blank :: attrs ++ (quote :: value ++ [byte '>'])) = none := by
    rw [List.cons_append, tagTail_of_isBlank hblank, attributes_append hattrs, List.cons_append,
      attributes_quote hquote, attributes_unclosed hopen]
    rfl
  have hnone : openTagPattern
      (Text.ofString "<c-" ++ name ++ blank :: attrs ++ quote :: value ++ [byte '>']) = none := by
    unfold openTagPattern
    rw [hstem]
    simp only [Option.bind_eq_bind, Option.bind_some]
    rw [List.append_assoc, List.append_assoc, List.drop_left, htail]
    rfl
  rw [hnone] at hfound
  cases hfound

/-! ### The main result -/

theorem takeWhile_name {name rest : Text} (hname : IsName name)
    (hstop : ∀ b, rest.head? = some b → isNameByte b = false) (head : Text) :
    ((head ++ name ++ rest).drop head.length).takeWhile isNameByte = name := by
  rw [List.append_assoc, List.drop_left, Text.takeWhile_append_of_stop hname.2 hstop]

/-- The name that is read off an opening tag is the one of the grammar. -/
theorem IsOpenTag.takeWhile_eq {name tag : Text} (h : IsOpenTag name tag) :
    (tag.drop 3).takeWhile isNameByte = name := by
  obtain ⟨hname, tail, htail, rfl⟩ := h
  rw [List.append_assoc _ tail]
  exact takeWhile_name hname (htail.head_not_name []) (Text.ofString "<c-")

/-- The name that is read off a closing tag is the one of the grammar. -/
theorem IsCloseTag.takeWhile_eq {name tag : Text} (h : IsCloseTag name tag) :
    (tag.drop 4).takeWhile isNameByte = name := by
  obtain ⟨hname, blanks, hblanks, rfl⟩ := h
  rw [List.append_assoc _ blanks]
  exact takeWhile_name hname (head_not_name_of_blanks hblanks []) (Text.ofString "</c-")

theorem areMatches_openTags (text : Text) :
    AreMatches IsOpenTag text (occurrences openTagPattern text) (openTags text) :=
  areMatches_occurrences anchored_openTag decides_openTag text fun _ _ htag =>
    ⟨htag.takeWhile_eq, rfl⟩

theorem areMatches_closeTags (text : Text) :
    AreMatches IsCloseTag text (occurrences closeTagPattern text) (closeTags text) :=
  areMatches_occurrences anchored_closeTag decides_closeTag text fun _ _ htag =>
    ⟨htag.takeWhile_eq, rfl⟩

/-- **Component tags are read exactly as they are written.** The opening and self-closed tags of a
text are the matches of their grammar from left to right, the closing tags those of theirs. A tag is
self-closed exactly if a slash is the last thing before its `>`, white space apart, and a `>` inside
a quoted value never ends a tag. -/
theorem componentTags_exact (text : Text) :
    (∃ os, AreMatches IsOpenTag text os
        ((ofText text).filter fun e => e.kind = .openTag ∨ e.kind = .selfClosedTag) ∧
      List.Forall₂ (fun o e => e.kind = .selfClosedTag ↔ SlashLast (o.text text)) os
        ((ofText text).filter fun e => e.kind = .openTag ∨ e.kind = .selfClosedTag)) ∧
    (∃ os, AreMatches IsCloseTag text os ((ofText text).filter fun e => e.kind = .closeTag)) ∧
    ∀ (name attrs value : Text) (blank quote : UInt8), IsName name → Text.isBlank blank = true →
      Attributes attrs → quote = byte '"' ∨ quote = byte '\'' → quote ∉ value →
      ∀ name', ¬ IsOpenTag name'
        (Text.ofString "<c-" ++ name ++ blank :: attrs ++ quote :: value ++ [byte '>']) := by
  refine ⟨⟨occurrences openTagPattern text, ?_, ?_⟩, ⟨occurrences closeTagPattern text, ?_⟩,
    fun _ _ _ _ _ hname hblank hattrs hquote hvalue =>
      not_isOpenTag_quoted hname hblank hattrs hquote hvalue⟩
  · rw [filter_openTag_ofText]
    exact areMatches_openTags text
  · -- whether a tag is self-closed is asked of its bytes
    rw [filter_openTag_ofText]
    unfold openTags
    rw [List.forall₂_map_right_iff, List.forall₂_same]
    intro o ho
    have hscan := decides_openTag.scan_searchFrom anchored_openTag text (Nat.zero_le _)
    obtain ⟨-, -, -, name, -, tail, -, heq⟩ := hscan.matches_of_mem ho
    rw [heq, ← isSelfClosed_iff]
    change (if isSelfClosed _ then Kind.selfClosedTag else Kind.openTag) = _ ↔ _
    split <;> simp_all
  · rw [filter_closeTag_ofText]
    exact areMatches_closeTags text

end Event

end ViewLint
