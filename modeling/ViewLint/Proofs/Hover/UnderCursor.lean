import ViewLint.FileTree.Host
import ViewLint.Hover
import ViewLint.Proofs.Event.Source
import ViewLint.Proofs.Text.Columns

/-!
# The tag under the cursor is the tag that is checked

The checker reads its tags off the whole text, with the comments blanked. A hover reads a tag off one
line of the text as it was given, with a pattern of its own that knows neither `<` nor attributes.
`hover_sees_checked_tag` says that from all columns of a tag that the checker sees, the hover sees the
same tag.

A search for tags on a line can go astray in two ways. It may find something that starts before the
tag and runs into it, or it may find the tag too long or too short. Neither happens to a name with a
`c-` before it that has no byte of a name on either side (`Resolver.wordAt_tag`): nothing that is found
reaches over the byte in front of it, and the name is the longest one there. In front of the `c-` of a
checked tag stands the `<` or the slash of the tag. Behind the name the checker saw no byte of a name
either, but it saw the blanked text, where a comment may be glued to the name. The comment starts
there, so what stands in the text is the first byte of its opener (`Event.TagStart.of_strip`).
-/

namespace ViewLint

open Text (byte Solid Pattern Occurrence)
open Event (IsName isNameByte)
open scoped Text.Bytewise

/-! ### The word at a column -/

namespace Text

/-- **A column resolves to the occurrence that it touches**, unless another one ends where that one
starts. -/
theorem Pattern.Anchored.wordAt_eq {p : Pattern} {head : UInt8} (hp : p.Anchored head) {line : Text}
    {o : Occurrence} (ho : o ∈ occurrences p line)
    (hgap : ∀ o' ∈ occurrences p line, o'.stop ≠ o.start) {column : Int}
    (hle : (o.start : Int) ≤ column) (hge : column ≤ o.stop) : wordAt line column p = some o := by
  obtain ⟨hbounds, hpairs⟩ := hp.bounds_searchFrom 0 line
  change ∀ o ∈ occurrences p line, _ at hbounds
  change (occurrences p line).Pairwise _ at hpairs
  unfold wordAt
  obtain ⟨front, back, hsplit⟩ := List.append_of_mem ho
  rw [hsplit] at hbounds hpairs hgap ⊢
  -- what is found earlier is over before the column
  have hfront : ∀ o' ∈ front, o'.start < o'.stop ∧ o'.stop < o.start := by
    intro o' ho'
    have hmem := List.mem_append_left (o :: back) ho'
    have hapart := (List.pairwise_append.mp hpairs).2.2 o' ho' o List.mem_cons_self
    exact ⟨(hbounds o' hmem).2.1, Nat.lt_of_le_of_ne hapart (hgap o' hmem)⟩
  have hpassed : ∀ o' ∈ front, decide ((o'.start : Int) ≤ column) = true := by
    intro o' ho'
    have hlt := hfront o' ho'
    rw [decide_eq_true_eq]
    omega
  have huntouched : ∀ o' ∈ front, ¬ o'.touches column = true := by
    intro o' ho'
    have hlt := hfront o' ho'
    unfold Occurrence.touches
    rw [Bool.and_eq_true, decide_eq_true_eq, decide_eq_true_eq]
    omega
  have htouched : o.touches column = true := by
    unfold Occurrence.touches
    rw [Bool.and_eq_true, decide_eq_true_eq, decide_eq_true_eq]
    exact ⟨hle, hge⟩
  have hreached : decide ((o.start : Int) ≤ column) = true := decide_eq_true hle
  rw [List.takeWhile_append_of_pos hpassed,
    List.takeWhile_cons_of_pos (p := fun o : Occurrence => decide ((o.start : Int) ≤ column))
      hreached,
    List.find?_append, List.find?_eq_none.mpr huntouched, Option.none_or]
  exact List.find?_cons_of_pos (p := fun o : Occurrence => o.touches column) htouched

end Text

/-! ### Tags on a line -/

namespace Resolver

theorem tagPattern_eq_some_iff {text : Text} {n : Nat} :
    tagPattern text = some n ↔ ∃ name rest, text = tagHead ++ name ++ rest ∧ IsName name ∧
      (∀ b, rest.head? = some b → isNameByte b = false) ∧ n = (tagHead ++ name).length := by
  unfold tagPattern
  rw [Text.afterHead_eq_some_iff]
  simp only [IsName, and_assoc]

theorem anchored_tag : tagPattern.Anchored (byte 'c') where
  ascii := by decide
  starts h := by
    obtain ⟨name, rest, rfl, -, -, rfl⟩ := tagPattern_eq_some_iff.mp h
    exact ⟨rfl, Nat.succ_pos _, (List.prefix_append _ rest).length_le⟩

/-- All bytes of what is found are bytes of a name. -/
theorem isNameByte_of_mem_occurrences {text : Text} {o : Occurrence}
    (ho : o ∈ Text.occurrences tagPattern text) {i : Nat} (hle : o.start ≤ i) (hlt : i < o.stop)
    {b : UInt8} (hb : text[i]? = some b) : isNameByte b = true := by
  obtain ⟨name, rest, hdrop, ⟨-, hname⟩, -, hlength⟩ :=
    tagPattern_eq_some_iff.mp (anchored_tag.some_of_mem_searchFrom ho)
  rw [Nat.sub_zero] at hdrop
  have hprefix : tagHead ++ name <+: text.drop o.start := ⟨rest, hdrop.symm⟩
  have hi : i - o.start < (tagHead ++ name).length := by omega
  have hbyte := Text.getElem?_of_prefix_drop hprefix hi
  rw [Nat.add_sub_cancel' hle, hb] at hbyte
  rcases List.mem_append.mp (List.mem_of_getElem? hbyte.symm) with hmem | hmem
  · exact (by decide : ∀ b ∈ tagHead, isNameByte b = true) _ hmem
  · exact hname _ hmem

/-- **A tag with no byte of a name on either side** is the word at each of its columns. -/
theorem wordAt_tag {front name rest : Text} {b : UInt8} (hb : isNameByte b = false)
    (hname : IsName name) (hrest : ∀ c, rest.head? = some c → isNameByte c = false) {column : Int}
    (hle : (front.length + 1 : Int) ≤ column)
    (hge : column ≤ front.length + 1 + (tagHead ++ name).length) :
    Text.wordAt (front ++ b :: (tagHead ++ name ++ rest)) column tagPattern =
      some ⟨front.length + 1, front.length + 1 + (tagHead ++ name).length⟩ := by
  have hbefore : (front ++ b :: (tagHead ++ name ++ rest))[front.length]? = some b := by
    rw [List.getElem?_append_right (Nat.le_refl _), Nat.sub_self]
    rfl
  -- nothing that is found has the byte in front of the tag in it
  have hpast : ∀ o ∈ Text.occurrences tagPattern (front ++ b :: (tagHead ++ name ++ rest)),
      o.start ≤ front.length → o.stop ≤ front.length := by
    intro o ho hstart
    by_contra hstop
    have hin := isNameByte_of_mem_occurrences ho hstart (Nat.not_le.mp hstop) hbefore
    rw [hb] at hin
    cases hin
  have hmatch : tagPattern ((front ++ b :: (tagHead ++ name ++ rest)).drop (front.length + 1)) =
      some (tagHead ++ name).length := by
    rw [← List.drop_drop, List.drop_left]
    exact tagPattern_eq_some_iff.mpr ⟨name, rest, rfl, hname, hrest, rfl⟩
  refine anchored_tag.wordAt_eq ?_ (fun o ho hstop => ?_) (by dsimp only; omega)
    (by dsimp only; omega)
  · rcases anchored_tag.mem_searchFrom_or_inside hmatch 0 with hmem | ⟨o, ho, hstart, hstop⟩
    · rwa [Nat.zero_add] at hmem
    · -- the match would be passed over only inside one that starts before that byte
      have hover := hpast o ho (by omega)
      omega
  · have hbounds := (anchored_tag.bounds_searchFrom 0 _).1 o ho
    dsimp only at hstop
    have hover := hpast o ho (by omega)
    omega

end Resolver

/-! ### Tags in the text and in the blanked text -/

namespace Event

/-- What leads the name of a tag is a `c-` behind a byte of no name. -/
theorem Kind.exists_lead_eq {kind : Kind} (h : kind.isTag = true) :
    ∃ front b, kind.lead = front ++ b :: Resolver.tagHead ∧ isNameByte b = false := by
  cases kind with
  | openTag | selfClosedTag => exact ⟨[], byte '<', rfl, by decide⟩
  | closeTag => exact ⟨[byte '<'], byte '/', rfl, by decide⟩
  | opener | elseBranch | closer | extendsMarker | doubleAt => cases h

end Event

namespace Comment

/-- No opener starts with a byte of a name. -/
theorem Kind.exists_head_opener (kind : Kind) :
    ∃ b, kind.opener[0]? = some b ∧ isNameByte b = false := by
  cases kind <;> exact ⟨_, rfl, by decide⟩

/-- Where a comment starts behind an offset, no byte of a name stands. -/
theorem not_isNameByte_of_inside {text : Text} {o : Nat} (hout : Outside (spans text) o)
    (hin : ¬ Outside (spans text) (o + 1)) {b : UInt8} (hb : text[o + 1]? = some b) :
    isNameByte b = false := by
  simp only [Outside, not_forall, not_or, Nat.not_lt, Nat.not_le] at hin
  obtain ⟨s, hs, hstart, hstop⟩ := hin
  have hbefore := hout s hs
  have heq : s.start = o + 1 := by omega
  obtain ⟨hopener, -⟩ := opensAt_of_mem_spans hs
  have hfirst := Text.getElem?_of_prefix_drop hopener s.kind.opener_pos
  obtain ⟨c, hc, hplain⟩ := s.kind.exists_head_opener
  rw [heq, Nat.add_zero, hb, hc] at hfirst
  rwa [Option.some.inj hfirst]

end Comment

namespace Event

/-- **A tag of the blanked text starts so in the text.** -/
theorem TagStart.of_strip {text : Text} {e : Event} {p : Nat}
    (h : TagStart (Comment.strip text) e p) : TagStart text e p := by
  obtain ⟨⟨hstart, hne, hsolid, hbytes⟩, hname, hends⟩ := h
  obtain ⟨hbytes', hlive⟩ := Comment.prefix_of_solid_strip hsolid hbytes
  refine ⟨⟨?_, hne, hsolid, hbytes'⟩, hname, fun b hb => ?_⟩
  · rw [hstart, Document.placeAt_strip]
  · by_cases hout : Comment.Outside (Comment.spans text) (p + (e.kind.lead ++ e.name).length)
    · refine hends b ?_
      rw [Comment.getElem?_strip, hb, Option.map_some, Comment.blankAt_of_outside hout]
    · -- the last byte of the name is in no comment
      have hpos := List.length_pos_iff.mpr hne
      obtain ⟨n, hn⟩ : ∃ n, p + (e.kind.lead ++ e.name).length = n + 1 :=
        ⟨p + (e.kind.lead ++ e.name).length - 1, by omega⟩
      rw [hn] at hout hb
      exact Comment.not_isNameByte_of_inside (hlive n (by omega) (by omega)) hout hb

/-- The line of a tag: the `c-` and the name of the tag have no byte of a name on either side. -/
theorem TagStart.exists_line {text : Text} {e : Event} {p : Nat} (h : TagStart text e p)
    (htag : e.kind.isTag = true) :
    ∃ front b rest, (Document.mk text).line e.line =
        front ++ b :: (Resolver.tagHead ++ e.name ++ rest) ∧
      (front.length + 1 + Resolver.tagHead.length : Int) =
        e.range.start.character + e.kind.lead.length ∧
      isNameByte b = false ∧ ∀ c, rest.head? = some c → isNameByte c = false := by
  obtain ⟨⟨hstart, hne, hsolid, hbytes⟩, -, hends⟩ := h
  obtain ⟨column, tail, hline, hcharacter, -, hbehind⟩ :=
    Document.exists_line_of_solid_prefix hne hsolid hbytes
  obtain ⟨front, b, hlead, hb⟩ := Kind.exists_lead_eq htag
  refine ⟨column ++ front, b, tail, ?_, ?_, hb, fun c hc => hends c ?_⟩
  · unfold Event.line
    rw [hstart, hline, hlead]
    simp only [List.append_assoc, List.cons_append]
  · rw [hstart, hcharacter, hlead]
    simp only [List.length_append, List.length_cons]
    omega
  · -- where the line goes on behind the name, it does so with the next byte of the text
    have hlt : (e.kind.lead ++ e.name).length < (e.kind.lead ++ e.name ++ tail).length := by
      have hpos := List.length_pos_iff.mpr (List.ne_nil_of_mem (List.mem_of_head? hc))
      simp only [List.length_append]
      omega
    rw [Text.getElem?_of_prefix_drop hbehind hlt,
      List.getElem?_append_right (Nat.le_refl _), Nat.sub_self, ← List.head?_eq_getElem?, hc]

end Event

/-! ### Hover and definition -/

namespace Resolver

variable {r : Resolver}

/-- A file that is found for a tag is the one that its name says. -/
theorem fst_lookup {tag : Text} (h : (r.lookup tag).2 = true) : (r.lookup tag).1 = r.pathFor tag := by
  unfold lookup at h ⊢
  split at h
  · cases h
  · next hroot =>
    rw [if_neg hroot]
    split at h
    · rfl
    · split at h <;> cases h

/-- On a tag, the target is its file, if there is one. -/
theorem target?_eq {doc : Document} {place : Place} {tag : Text} {range : Range}
    (h : tagAt? doc place = some (tag, range)) :
    r.target? doc place =
      if (r.lookup tag).2 = true then some ⟨tag, r.pathFor tag, range⟩ else none := by
  have hpath : (r.lookup tag).2 = true → (r.lookup tag).1 = r.pathFor tag := fst_lookup
  unfold target?
  rw [h]
  simp only [Option.bind_eq_bind, Option.bind_some]
  -- what matters of the lookup is its flag, and with it the path
  generalize r.lookup tag = found at hpath ⊢
  obtain ⟨path, isFile⟩ := found
  cases isFile with
  | true =>
    rw [← hpath rfl]
    rfl
  | false => rfl

end Resolver

/-- **Hover and definition see the tags that are checked.** Let `n` be the column of the `c-` of a tag
that is read off a text with its comments blanked. From each column of the tag, both ends included, the
word on that line of the text as it was given is the `c-` with the name of the tag, and nothing else.
There, hover and definition both point to the file that the name of the tag says, if the resolver finds
it, and otherwise neither gives an answer; without a project it finds none. -/
theorem hover_sees_checked_tag (text : Text) {e : Event}
    (he : e ∈ Event.ofText (Comment.strip text)) (htag : e.kind.isTag = true) :
    ∃ n : Nat,
      (n + Resolver.tagHead.length : Int) = e.range.start.character + e.kind.lead.length ∧
      ∀ column : Int, n ≤ column → column ≤ n + 2 + e.name.length →
        Text.wordAt ((Document.mk text).line e.line) column Resolver.tagPattern =
          some ⟨n, n + 2 + e.name.length⟩ ∧
        Occurrence.text ⟨n, n + 2 + e.name.length⟩ ((Document.mk text).line e.line) =
          Resolver.tagHead ++ e.name ∧
        ∀ r : Resolver,
          r.hover ⟨text⟩ ⟨e.line, column⟩ =
            (if (r.lookup (Resolver.tagHead ++ e.name)).2 = true then
              some (Resolver.hoverText (r.rel (r.pathFor (Resolver.tagHead ++ e.name))),
                .onLine e.line n (n + 2 + e.name.length))
            else none) ∧
          r.definition ⟨text⟩ ⟨e.line, column⟩ =
            (if (r.lookup (Resolver.tagHead ++ e.name)).2 = true then
              some (r.pathFor (Resolver.tagHead ++ e.name), .onLine 0 0 0)
            else none) := by
  -- the blanked text is needed only to find the tag, all that is left is about one line of the text
  obtain ⟨p, hstrip⟩ := Event.exists_tagStart (Event.mem_tags_iff.mp ⟨he, htag⟩)
  have hstart := hstrip.of_strip
  obtain ⟨front, b, rest, hline, hcolumn, hb, hrest⟩ := hstart.exists_line htag
  have hlength : (Resolver.tagHead ++ e.name).length = 2 + e.name.length := List.length_append
  refine ⟨front.length + 1, hcolumn, fun column hle hge => ?_⟩
  have hword : Text.wordAt (front ++ b :: (Resolver.tagHead ++ e.name ++ rest)) column
      Resolver.tagPattern = some ⟨front.length + 1, _⟩ :=
    Resolver.wordAt_tag hb hstart.name hrest (by omega) (by omega)
  have hbytes : Occurrence.text ⟨front.length + 1, front.length + 1 + 2 + e.name.length⟩
      ((Document.mk text).line e.line) = Resolver.tagHead ++ e.name := by
    unfold Occurrence.text
    dsimp only
    rw [hline, ← List.drop_drop, List.drop_left, List.drop_one, List.tail_cons, Nat.add_assoc,
      Nat.add_sub_cancel_left, ← hlength, List.take_left]
  rw [← hline, hlength, ← Nat.add_assoc] at hword
  refine ⟨hword, hbytes, fun r => ?_⟩
  have htarget : Resolver.tagAt? ⟨text⟩ ⟨e.line, column⟩ = some (Resolver.tagHead ++ e.name,
      .onLine e.line (front.length + 1 : Nat) (front.length + 1 + 2 + e.name.length : Nat)) := by
    unfold Resolver.tagAt?
    dsimp only
    rw [hword, Option.map_some, hbytes]
  unfold Resolver.hover Resolver.definition
  rw [Resolver.target?_eq htarget]
  split
  · exact ⟨rfl, rfl⟩
  · exact ⟨rfl, rfl⟩

/-- A closing tag between another tag name and a comment with a third one in it: from the end of its
name, hover and definition see its own file. -/
theorem hover_sees_checked_tag_glued :
    let text := Text.ofString "c-x</c-a.b\x7b\x7b--c-y--\x7d\x7d>"
    let tag : Event := ⟨.closeTag, Text.ofString "a.b", .onLine 0 3 22⟩
    let r : Resolver :=
      { host := (FileTree.write {} (Text.ofString "/p/v/a/b.html") (.file [])).host
        root := Text.ofString "/p"
        componentsDir := Text.ofString "v"
        suffix := Text.ofString ".html" }
    tag ∈ Event.ofText (Comment.strip text) ∧
      Text.wordAt ((Document.mk text).line 0) 10 Resolver.tagPattern = some ⟨5, 10⟩ ∧
      r.hover ⟨text⟩ ⟨0, 10⟩ =
        some (Resolver.hoverText (Text.ofString "v/a/b.html"), .onLine 0 5 10) ∧
      r.definition ⟨text⟩ ⟨0, 10⟩ = some (Text.ofString "/p/v/a/b.html", .onLine 0 0 0) := by
  intro text tag r
  -- the document has this one tag, and its name stands at byte 5
  have hevents : Event.ofText (Comment.strip text) = [tag] := by
    unfold Event.ofText
    rw [List.mergeSort_of_pairwise (by decide +kernel)]
    decide +kernel
  have htag : tag ∈ Event.ofText (Comment.strip text) := hevents ▸ List.mem_cons_self
  obtain ⟨n, hn, hcolumns⟩ := hover_sees_checked_tag text htag rfl
  have hfive : n = 5 := by
    have hlead : (n + 2 : Int) = 3 + 4 := hn
    omega
  subst hfive
  obtain ⟨hword, -, hresolved⟩ := hcolumns 10 (by decide) (by decide)
  obtain ⟨hhover, hdefinition⟩ := hresolved r
  have hfound : (r.lookup (Resolver.tagHead ++ tag.name)).2 = true := by decide +kernel
  rw [if_pos hfound] at hhover hdefinition
  refine ⟨htag, hword, hhover.trans ?_, hdefinition.trans ?_⟩
  · decide +kernel
  · decide +kernel

end ViewLint
