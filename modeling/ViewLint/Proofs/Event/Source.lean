import ViewLint.Proofs.Comment.Live
import ViewLint.Proofs.Event.Overlap
import ViewLint.Proofs.Event.Padding

/-!
# Events come from live source

`events_from_live_source`: blanking the comments of a text keeps its shape, and what an event of the
blanked text starts with stands in the text itself, outside all comments.

Blanking writes nothing but blanks and newlines. A solid byte of the blanked text, neither blank nor
line end, is therefore not its work: it stands in the text, at the same offset
(`Comment.getElem?_of_solid_strip`), and in no comment (`Comment.outside_of_solid_strip`). The bytes
with which an event starts are solid (`Event.exists_solidStart`), and the place of an offset is the
same in both texts (`Document.placeAt_strip`). The bytes behind them may well be blanked: those
between the name of a tag and its end.
-/

namespace ViewLint

open Text (byte Solid)
open scoped Text.Bytewise

/-! ### Places -/

/-- Where a text ends is told by its newlines. -/
theorem endPlace_congr {a b : Text} (h : a.map (· == byte '\n') = b.map (· == byte '\n')) :
    endPlace a = endPlace b := by
  -- a place counts the newlines and what follows the last one, so where they stand decides it
  have hcount : ∀ text : Text, text.count (byte '\n') = (text.map (· == byte '\n')).countP id := by
    intro text
    rw [List.countP_map]
    rfl
  have hlength : ∀ text : Text, (Text.lastLine text).length =
      ((text.map (· == byte '\n')).reverse.takeWhile (!·)).length := by
    intro text
    unfold Text.lastLine
    rw [List.length_reverse, ← List.map_reverse, List.takeWhile_map, List.length_map]
    rfl
  unfold endPlace
  rw [hcount, hlength, h, ← hcount, ← hlength]

theorem Document.placeAt_strip (text : Text) (p : Nat) :
    (Document.mk (Comment.strip text)).placeAt p = (Document.mk text).placeAt p := by
  have hnewlines : ((Comment.strip text).take p).map (· == byte '\n') =
      (text.take p).map (· == byte '\n') := by
    rw [List.map_take, List.map_take, Comment.map_newline_strip]
  calc (Document.mk (Comment.strip text)).placeAt p
      = endPlace ((Comment.strip text).take p) := placeAt_eq _ p
    _ = endPlace (text.take p) := endPlace_congr hnewlines
    _ = (Document.mk text).placeAt p := (placeAt_eq _ p).symm

/-! ### What an event starts with -/

namespace Event

/-- What stands in front of the name of an event. -/
def Kind.lead : Kind → Text
  | .openTag | .selfClosedTag => Text.ofString "<c-"
  | .closeTag => Text.ofString "</c-"
  | .opener _ | .elseBranch | .closer _ | .extendsMarker | .doubleAt => []

/-- **The event starts at the offset with solid bytes**: its name, behind what leads it. -/
structure SolidStart (text : Text) (e : Event) (p : Nat) : Prop where
  start : e.range.start = (Document.mk text).placeAt p
  ne_nil : e.kind.lead ++ e.name ≠ []
  solid : ∀ b ∈ e.kind.lead ++ e.name, Solid b
  bytes : e.kind.lead ++ e.name <+: text.drop p

theorem solidStart_marker {text name : Text} {p : Nat} {kind : Kind} (hlead : kind.lead = [])
    (hne : name ≠ []) (hsolid : ∀ b ∈ name, Solid b) (h : name <+: text.drop p) :
    SolidStart text (marker text p kind name) p := by
  have hfront : kind.lead ++ name = name := by rw [hlead, List.nil_append]
  exact ⟨rfl, hfront.symm ▸ hne, hfront.symm ▸ hsolid, hfront.symm ▸ h⟩

/-- A tag starts with its lead and its name, whatever stands behind them. -/
theorem StandsAt.solidStart {text lead behind : Text} {e : Event} {p : Nat}
    (h : StandsAt text e p (lead ++ e.name ++ behind)) (hlead : e.kind.lead = lead)
    (hsolid : ∀ b ∈ lead, Solid b) (hname : IsName e.name) : SolidStart text e p := by
  subst hlead
  refine ⟨congrArg Range.start h.range, List.append_ne_nil_of_right_ne_nil _ hname.1,
    fun b hb => ?_, (List.prefix_append _ _).trans h.bytes⟩
  rcases List.mem_append.mp hb with hb | hb
  · exact hsolid b hb
  · exact solid_of_isNameByte (hname.2 b hb)

/-- **The tag starts at the offset**: with its lead and its name, behind which no byte of a name
stands. -/
structure TagStart (text : Text) (e : Event) (p : Nat) : Prop where
  solid : SolidStart text e p
  name : IsName e.name
  ends : ∀ b, text[p + (e.kind.lead ++ e.name).length]? = some b → isNameByte b = false

/-- Behind the name of a tag stands what the grammar says. -/
theorem StandsAt.tagStart {text lead behind : Text} {e : Event} {p : Nat}
    (h : StandsAt text e p (lead ++ e.name ++ (behind ++ [byte '>']))) (hlead : e.kind.lead = lead)
    (hsolid : ∀ b ∈ lead, Solid b) (hname : IsName e.name)
    (hends : ∀ b, (behind ++ [byte '>']).head? = some b → isNameByte b = false) :
    TagStart text e p := by
  refine ⟨h.solidStart hlead hsolid hname, hname, fun b hb => hends b ?_⟩
  subst hlead
  obtain ⟨rest, hrest⟩ := h.bytes
  rw [← List.getElem?_drop, ← hrest, List.append_assoc (e.kind.lead ++ e.name),
    List.getElem?_append_right (Nat.le_refl _), Nat.sub_self, ← List.head?_eq_getElem?,
    List.head?_append_of_ne_nil _ (List.append_ne_nil_of_right_ne_nil _ (List.cons_ne_nil _ _))] at hb
  exact hb

/-- **Every tag starts with its lead and its name**, and the name is as long as it can be. -/
theorem exists_tagStart {text : Text} {e : Event} (h : e ∈ openTags text ∨ e ∈ closeTags text) :
    ∃ p, TagStart text e p := by
  rcases h with hmem | hmem
  · -- an opening tag: its name stops where the tail begins
    obtain ⟨p, tag, hat, hname, tail, htail, rfl⟩ := (areMatches_openTags text).exists_of_mem hmem
    have hlead : e.kind.lead = Text.ofString "<c-" := by
      rcases kind_of_mem_openTags hmem with hkind | hkind <;> rw [hkind] <;> rfl
    rw [List.append_assoc] at hat
    exact ⟨p, hat.tagStart hlead (by decide) hname (htail.head_not_name [])⟩
  · -- a closing tag: its name stops at the blanks or at `>`
    obtain ⟨p, tag, hat, hname, blanks, hblanks, rfl⟩ :=
      (areMatches_closeTags text).exists_of_mem hmem
    have hlead : e.kind.lead = Text.ofString "</c-" := by
      rw [kind_of_mem_closeTags hmem]
      rfl
    rw [List.append_assoc] at hat
    exact ⟨p, hat.tagStart hlead (by decide) hname (head_not_name_of_blanks hblanks [])⟩

/-- **Every event starts with solid bytes.** -/
theorem exists_solidStart {text : Text} {e : Event} (h : e ∈ ofText text) :
    ∃ p, SolidStart text e p := by
  rcases mem_ofText_iff.mp h with hmem | hmem | hmem | hmem
  · -- a run of `@`
    obtain ⟨p, kind, name, hat, rfl⟩ := mem_doubleAts_iff.mp hmem
    obtain @⟨n, -, htwo, rest, hdrop, -⟩ := hat
    refine ⟨p, solidStart_marker rfl ?_ (fun b hb => ?_) ⟨rest, hdrop.symm⟩⟩
    · rw [ne_eq, List.replicate_eq_nil_iff]
      omega
    · rw [List.eq_of_mem_replicate hb]
      decide
  · -- a directive: `@` and a word
    obtain ⟨p, kind, name, hat, rfl⟩ := mem_directives_iff.mp hmem
    obtain @⟨word, _, ⟨hfirst, -⟩, ⟨rest, hdrop, hword, -⟩, hkind⟩ := hat
    have hlead : ∀ entry ∈ keywords, entry.2.lead = [] := by decide
    refine ⟨p, solidStart_marker (hlead _ hkind) (List.cons_ne_nil _ _) (fun b hb => ?_)
      ⟨rest, (Text.drop_eq_cons_iff.mpr ⟨hfirst, hdrop⟩).symm⟩⟩
    rcases List.mem_cons.mp hb with rfl | hb
    · decide
    · exact solid_of_isWordByte (hword b hb)
  · -- a tag, opening or closing
    obtain ⟨p, hstart⟩ := exists_tagStart (Or.inl hmem)
    exact ⟨p, hstart.solid⟩
  · obtain ⟨p, hstart⟩ := exists_tagStart (Or.inr hmem)
    exact ⟨p, hstart.solid⟩

end Event

/-! ### The main result -/

/-- **Events come from live source.** Blanking keeps the length of a text, its newlines and all that
stands outside the comments, and inside them it leaves nothing but blanks and newlines. The place at
which an event of the blanked text starts is that of exactly one offset of the text as it was given.
There the text has the name of the event, behind the `<c-` or the `</c-` of a tag, and none of these
bytes stands in a comment. -/
theorem events_from_live_source (text : Text) :
    (Comment.strip text).length = text.length ∧
    (∀ o : Nat, (Comment.strip text)[o]? = some (byte '\n') ↔ text[o]? = some (byte '\n')) ∧
    (∀ o, Comment.Outside (Comment.spans text) o → (Comment.strip text)[o]? = text[o]?) ∧
    (∀ o b, ¬ Comment.Outside (Comment.spans text) o → (Comment.strip text)[o]? = some b →
      b = byte ' ' ∨ b = byte '\n') ∧
    ∀ e ∈ Event.ofText (Comment.strip text), ∃ p < text.length,
      (∀ q : Nat, q ≤ text.length →
        ((Document.mk text).placeAt q = e.range.start ↔ q = p)) ∧
      e.kind.lead ++ e.name <+: text.drop p ∧
      ∀ o, p ≤ o → o < p + (e.kind.lead ++ e.name).length →
        Comment.Outside (Comment.spans text) o := by
  refine ⟨?_, fun o => ?_, fun o hout => ?_, fun o b hin hb => ?_, fun e he => ?_⟩
  · have hnewlines := congrArg List.length (Comment.map_newline_strip text)
    rwa [List.length_map, List.length_map] at hnewlines
  · have hnewline : ∀ t : Text,
        t[o]? = some (byte '\n') ↔ (t.map (· == byte '\n'))[o]? = some true := by
      intro t
      simp [List.getElem?_map]
    rw [hnewline, hnewline, Comment.map_newline_strip]
  · rw [Comment.getElem?_strip, funext (Comment.blankAt_of_outside hout), Option.map_id']
  · rw [Comment.getElem?_strip] at hb
    obtain ⟨c, -, rfl⟩ := Option.map_eq_some_iff.mp hb
    rw [Comment.blankAt_of_not_outside hin]
    split
    · next hc => exact Or.inr hc
    · exact Or.inl rfl
  · -- the event is read off the blanked text, and all that is solid there is not blanking's work
    obtain ⟨p, hplace, hne, hsolid, hprefix⟩ := Event.exists_solidStart he
    rw [Document.placeAt_strip] at hplace
    obtain ⟨hbytes, hlive⟩ := Comment.prefix_of_solid_strip hsolid hprefix
    have hlt : p < text.length := by
      by_contra hle
      rw [List.drop_eq_nil_of_le (Nat.not_lt.mp hle)] at hbytes
      exact hne (List.prefix_nil.mp hbytes)
    refine ⟨p, hlt, fun q hq => ?_, hbytes, hlive⟩
    rw [hplace]
    exact ⟨Document.placeAt_inj hq (Nat.le_of_lt hlt), fun h => h ▸ rfl⟩

end ViewLint
