import Mathlib.Algebra.Ring.Int.Defs
import ViewLint.Proofs.Balance.Reports
import ViewLint.Proofs.Event.Source
import ViewLint.Proofs.Text.Columns

/-!
# Reported ranges lie in the document

`analyze_ranges_in_document`: every range of an analysis lies in the text as it was given, in byte
and in UTF-16 columns, and an editor that is sent to the start of a report can be followed back
there.

Two texts are in play. Events are read off the text with its comments blanked, and the lengths of
the lines come from the text itself, without the carriage returns that end them. The two fit because
an event starts and ends with a solid byte, neither blank nor line end (`Event.exists_solidSpan`).
Such a byte is not the work of blanking, so it stands in the text itself (`SolidSpan.of_strip`), and
there it belongs to the content of its line (`Document.exists_line_of_solid`).

A report has the range of an event, the whole line on which an event starts, or the part of that
line that the window shows (`ReportRange`). Each of these follows from the span of the event.
-/

namespace ViewLint

open Text (byte Pattern Occurrence occurrences Solid)

/-! ### Events start and end with solid bytes -/

/-- **The range covers the bytes from `start` up to `stop`**, of which the first and the last are
solid. -/
structure SolidSpan (text : Text) (r : Range) (start stop : Nat) : Prop where
  range : r = ⟨(Document.mk text).placeAt start, (Document.mk text).placeAt stop⟩
  lt : start < stop
  first : ∃ b, text[start]? = some b ∧ Solid b ∧ b < 0x80
  last : ∃ b, text[stop - 1]? = some b ∧ Solid b

/-- Blanking leaves the span where it is. -/
theorem SolidSpan.of_strip {text : Text} {r : Range} {start stop : Nat}
    (h : SolidSpan (Comment.strip text) r start stop) : SolidSpan text r start stop := by
  obtain ⟨hrange, hlt, ⟨b, hb, hsolid, hascii⟩, c, hc, hsolid'⟩ := h
  rw [Document.placeAt_strip, Document.placeAt_strip] at hrange
  exact ⟨hrange, hlt, ⟨b, Comment.getElem?_of_solid_strip hb hsolid, hsolid, hascii⟩,
    c, Comment.getElem?_of_solid_strip hc hsolid', hsolid'⟩

namespace Event

/-- What the pattern matches ends with a solid byte. -/
def EndsSolid (p : Pattern) : Prop :=
  ∀ {text n}, p text = some n → ∃ front b rest, text = front ++ [b] ++ rest ∧ Solid b ∧
    n = (front ++ [b]).length

theorem endsSolid_directive : EndsSolid directivePattern := by
  intro text n h
  obtain ⟨word, rest, rfl, hne, hword, -, rfl⟩ := directivePattern_eq_some_iff.mp h
  obtain ⟨word, b, rfl⟩ := List.eq_nil_or_concat word |>.resolve_left hne
  rw [List.concat_eq_append] at hword ⊢
  exact ⟨byte '@' :: word, b, rest, rfl, solid_of_isWordByte (hword b (by simp)), rfl⟩

theorem endsSolid_doubleAt : EndsSolid doubleAtPattern := by
  intro text n h
  obtain ⟨rest, rfl, htwo, -⟩ := doubleAtPattern_eq_some_iff.mp h
  obtain ⟨n, rfl⟩ : ∃ m, n = m + 1 := ⟨n - 1, by omega⟩
  exact ⟨List.replicate n (byte '@'), byte '@', rest, by rw [List.replicate_succ'], by decide,
    by simp⟩

theorem endsSolid_openTag : EndsSolid openTagPattern := by
  intro text n h
  obtain ⟨tag, rest, rfl, ⟨name, -, tail, -, rfl⟩, rfl⟩ := decides_openTag.mp h
  exact ⟨_, byte '>', rest, rfl, by decide, rfl⟩

theorem endsSolid_closeTag : EndsSolid closeTagPattern := by
  intro text n h
  obtain ⟨tag, rest, rfl, ⟨name, -, blanks, -, rfl⟩, rfl⟩ := decides_closeTag.mp h
  exact ⟨_, byte '>', rest, rfl, by decide, rfl⟩

theorem solidSpan_of_mem_occurrences {p : Pattern} {head : UInt8} (hp : p.Anchored head)
    (hhead : Solid head) (hlast : EndsSolid p) {text : Text} {o : Occurrence}
    (ho : o ∈ occurrences p text) (kind : Kind) (name : Text) :
    SolidSpan text (ofOccurrence ⟨text⟩ kind name o).range o.start o.stop := by
  -- the first byte is the one to which the pattern is anchored, the last one that of the match
  have hmatch := hp.some_of_mem_searchFrom ho
  rw [Nat.sub_zero] at hmatch
  have hlt := ((hp.bounds_searchFrom 0 text).1 o ho).2.1
  refine ⟨rfl, hlt, ⟨head, ?_, hhead, hp.ascii⟩, ?_⟩
  · rw [← List.head?_drop]
    exact (hp.starts hmatch).1
  · obtain ⟨front, b, rest, hdrop, hsolid, hlen⟩ := hlast hmatch
    refine ⟨b, ?_, hsolid⟩
    rw [List.length_append, List.length_singleton] at hlen
    have hoffset : o.stop - 1 = o.start + front.length := by omega
    rw [hoffset, ← List.getElem?_drop, hdrop, List.append_assoc, List.singleton_append,
      List.getElem?_append_right (Nat.le_refl _), Nat.sub_self, List.getElem?_cons_zero]

/-- **Every event starts and ends with a solid byte.** -/
theorem exists_solidSpan {text : Text} {e : Event} (h : e ∈ ofText text) :
    ∃ start stop, SolidSpan text e.range start stop := by
  -- events are found by four searches, each with a pattern of its own
  rcases mem_ofText_iff.mp h with h | h | h | h
  · obtain ⟨o, ho, rfl⟩ := List.mem_map.mp h
    exact ⟨_, _,
      solidSpan_of_mem_occurrences anchored_doubleAt (by decide) endsSolid_doubleAt ho ..⟩
  · obtain ⟨o, ho, hevent⟩ := List.mem_filterMap.mp h
    split at hevent
    -- runs of at signs are left to the first search
    · cases hevent
    · obtain ⟨kind, -, rfl⟩ := Option.map_eq_some_iff.mp hevent
      exact ⟨_, _,
        solidSpan_of_mem_occurrences anchored_directive (by decide) endsSolid_directive ho ..⟩
  · obtain ⟨o, ho, rfl⟩ := List.mem_map.mp h
    exact ⟨_, _,
      solidSpan_of_mem_occurrences anchored_openTag (by decide) endsSolid_openTag ho ..⟩
  · obtain ⟨o, ho, rfl⟩ := List.mem_map.mp h
    exact ⟨_, _,
      solidSpan_of_mem_occurrences anchored_closeTag (by decide) endsSolid_closeTag ho ..⟩

end Event

/-! ### What a span tells about lines -/

namespace SolidSpan

variable {text : Text} {r : Range} {start stop : Nat} (h : SolidSpan text r start stop)

include h

theorem line_bounds : 0 ≤ r.start.line ∧ r.start.line < (Document.mk text).lineCount := by
  rw [h.range]
  exact ⟨Int.natCast_nonneg _, Document.line_placeAt_lt text start⟩

/-- The span starts inside its line. -/
theorem start_bounds : 0 ≤ r.start.character ∧
    r.start.character ≤ ((Document.mk text).line r.start.line).length := by
  obtain ⟨b, hb, hsolid, -⟩ := h.first
  obtain ⟨column, tail, hline, hcharacter, -⟩ := Document.exists_line_of_solid hb hsolid
  rw [h.range]
  dsimp only
  rw [hline, hcharacter, List.length_append]
  omega

/-- The span ends inside its line. -/
theorem stop_bounds : 0 ≤ r.stop.character ∧
    r.stop.character ≤ ((Document.mk text).line r.stop.line).length := by
  obtain ⟨b, hb, hsolid⟩ := h.last
  obtain ⟨column, tail, hline, -, hnext⟩ := Document.exists_line_of_solid hb hsolid
  -- the stop is one behind the last byte, which is still in the content of the line
  have hlast : stop - 1 + 1 = stop := Nat.sub_add_cancel (Nat.one_le_of_lt h.lt)
  rw [hlast] at hnext
  rw [h.range]
  dsimp only
  rw [hnext]
  dsimp only
  rw [hline, List.length_append, List.length_cons]
  omega

theorem covers : (Document.mk text).Covers List.length r := by
  obtain ⟨b, hb, -⟩ := h.last
  have hstop := (List.getElem?_eq_some_iff.mp hb).1
  -- the place of the end comes after that of the start, because its offset does
  have hbefore : r.start.before r.stop = true := by
    rw [h.range]
    exact Document.placeAt_before h.lt (by omega)
  refine ⟨h.line_bounds.1, ?_, ?_, Place.not_before_of_before hbefore, h.start_bounds.1,
    h.start_bounds.2, h.stop_bounds.1, h.stop_bounds.2⟩
  · -- the lines are in order
    unfold Place.before at hbefore
    split at hbefore
    · next hline => exact Int.le_of_eq hline
    · exact Int.le_of_lt (of_decide_eq_true hbefore)
  · -- the last line is a line of the document
    rw [h.range]
    exact Document.line_placeAt_lt text stop

theorem wholeLine_covers (window : Int) :
    (Document.mk text).Covers List.length (Checkup.wholeLine ⟨⟨text⟩, window⟩ r.start.line) :=
  Document.covers_onLine h.line_bounds.1 h.line_bounds.2 (Int.le_refl 0) (Int.natCast_nonneg _)
    (Int.le_refl _)

/-- **The window does not lead out of the line**, nor in front of the tag: the end of the window is
not wrapped. -/
theorem unclosedTag_covers {window : Int} (hpos : 0 < window)
    (hmax : window ≤ 2 ^ 63 - 1 - text.length) (name : Text) (number : Nat) :
    (Document.mk text).Covers List.length
      (Checkup.unclosedTag ⟨⟨text⟩, window⟩ ⟨name, r, number⟩).range := by
  obtain ⟨hnonneg, hstart⟩ := h.start_bounds
  have hcharacter : r.start.character ≤ text.length := by
    rw [h.range]
    exact Document.character_placeAt_le text start
  -- a column is at most the length of the text, so that the sum stays in the word
  have hwrap : wrap64 (r.start.character + window) = r.start.character + window := by
    rw [wrap64_eq_self_iff, Word.fits_iff, Word.bound_64]
    omega
  refine Document.covers_onLine h.line_bounds.1 h.line_bounds.2 hnonneg ?_ ?_
  · dsimp only
    rw [hwrap]
    omega
  · exact Int.min_le_right _ _

theorem roundTrip : (Document.mk text).fromUTF16Place ((Document.mk text).toUTF16Place r.start) =
    r.start := by
  obtain ⟨b, hb, hsolid, hascii⟩ := h.first
  rw [h.range]
  exact Document.fromUTF16Place_toUTF16Place hb hsolid hascii

end SolidSpan

/-! ### What is reported -/

/-- An event of the blanked text has its bytes in the text itself. -/
theorem Event.exists_solidSpan_of_strip {text : Text} {e : Event}
    (h : e ∈ Event.ofText (Comment.strip text)) :
    ∃ start stop, SolidSpan text e.range start stop := by
  obtain ⟨start, stop, hspan⟩ := Event.exists_solidSpan h
  exact ⟨start, stop, hspan.of_strip⟩

/-- **The ranges that a report may have**: that of an event, the line on which an event starts, or
what the window shows of that line. -/
inductive ReportRange (text : Text) (window : Int) : Range → Prop
  | event {r : Range} {start stop : Nat} : SolidSpan text r start stop → ReportRange text window r
  | line {r : Range} {start stop : Nat} : SolidSpan text r start stop →
      ReportRange text window (Checkup.wholeLine ⟨⟨text⟩, window⟩ r.start.line)
  | window {r : Range} {start stop : Nat} (name : Text) (number : Nat) :
      SolidSpan text r start stop →
      ReportRange text window (Checkup.unclosedTag ⟨⟨text⟩, window⟩ ⟨name, r, number⟩).range

namespace ReportRange

variable {text : Text} {window : Int} {r : Range}

theorem covers (h : ReportRange text window r) (hpos : 0 < window)
    (hmax : window ≤ 2 ^ 63 - 1 - text.length) : (Document.mk text).Covers List.length r := by
  cases h with
  | event h => exact h.covers
  | line h => exact h.wholeLine_covers window
  | window name number h => exact h.unclosedTag_covers hpos hmax name number

theorem roundTrip (h : ReportRange text window r) :
    (Document.mk text).fromUTF16Place ((Document.mk text).toUTF16Place r.start) = r.start := by
  cases h with
  | event h => exact h.roundTrip
  | line h => exact Document.fromUTF16Place_toUTF16Place_zero _ _
  | window name number h => exact h.roundTrip

end ReportRange

namespace Pass

variable {text : Text} {window : Int}

theorem reportRange_of_mem_found {d : Diagnostic} (h : d ∈
    (balance ⟨⟨text⟩, window⟩ (Event.ofText (Comment.strip text))).found) :
    ReportRange text window d.range := by
  obtain ⟨e, he, hd⟩ := exists_concerns_of_mem_found h
  obtain ⟨start, stop, hspan⟩ := Event.exists_solidSpan_of_strip he
  rw [hd.range]
  cases d.problem.rule with
  | duplicateExtends | unmatchedDirective | unclosedDirective => exact .line hspan
  | repeatedMarker | unmatchedTag => exact .event hspan
  | unclosedTag => exact .window [] 0 hspan

theorem reportRange_of_mem_pairs {b : Block} (h : b ∈
    (balance ⟨⟨text⟩, window⟩ (Event.ofText (Comment.strip text))).pairs) :
    ReportRange text window b.opened ∧ ReportRange text window b.closed := by
  rw [pairs_eq_account] at h
  obtain ⟨v, -, hv⟩ := List.mem_filterMap.mp h
  cases v with
  | paired i j =>
    obtain ⟨x, hx, hv⟩ := Option.bind_eq_some_iff.mp hv
    obtain ⟨y, hy, rfl⟩ := Option.map_eq_some_iff.mp hv
    obtain ⟨start, stop, hx⟩ := Event.exists_solidSpan_of_strip (List.mem_of_getElem? hx)
    obtain ⟨start', stop', hy⟩ := Event.exists_solidSpan_of_strip (List.mem_of_getElem? hy)
    exact ⟨.event hx, .event hy⟩
  | _ => cases hv

end Pass

/-- All ranges of an analysis: those of its reports, and both ranges of each block. -/
def Analysis.ranges (a : Analysis) : List Range :=
  a.diagnostics.map (·.range) ++ a.blocks.flatMap fun b => [b.opened, b.closed]

/-- **Every reported range lies in the document.** For every text and every positive window whose
end does not overflow, the ranges of the reports and of the blocks lie in the text as it was given,
and so do their UTF-16 images. The start of a report comes back from UTF-16 columns as it was. -/
theorem analyze_ranges_in_document (text : Text) {window : Int} (hpos : 0 < window)
    (hmax : window ≤ 2 ^ 63 - 1 - text.length) :
    (∀ r ∈ (analyze window text).ranges,
      (Document.mk text).Covers List.length r ∧
      (Document.mk text).Covers utf16Length ((Document.mk text).toUTF16Range r)) ∧
    ∀ d ∈ (analyze window text).diagnostics,
      (Document.mk text).fromUTF16Place ((Document.mk text).toUTF16Place d.range.start) =
        d.range.start := by
  -- a positive window is the window in force
  have hwindow : effectiveWindow window = window := if_neg (Int.not_le.mpr hpos)
  have hfound : ∀ d ∈ (analyze window text).diagnostics, ReportRange text window d.range := by
    intro d hd
    have hd' := List.mem_mergeSort.mp hd
    rw [hwindow] at hd'
    exact Pass.reportRange_of_mem_found hd'
  -- the ranges are those of the diagnostics and those of the markers of the blocks
  have hranges : ∀ r ∈ (analyze window text).ranges, ReportRange text window r := by
    intro r hr
    rcases List.mem_append.mp hr with hr | hr
    · obtain ⟨d, hd, rfl⟩ := List.mem_map.mp hr
      exact hfound d hd
    · obtain ⟨b, hb, hr⟩ := List.mem_flatMap.mp hr
      unfold analyze at hb
      rw [hwindow] at hb
      obtain ⟨hopened, hclosed⟩ := Pass.reportRange_of_mem_pairs hb
      rcases List.mem_pair.mp hr with rfl | rfl
      · exact hopened
      · exact hclosed
  refine ⟨fun r hr => ?_, fun d hd => (hfound d hd).roundTrip⟩
  -- the ranges in bytes are good, and in UTF-16 they are good for the same lines
  have hcovers := (hranges r hr).covers hpos hmax
  exact ⟨hcovers, hcovers.toUTF16Range⟩

/-- A window that ends inside a character, behind a character of two units and a comment, on a line
that ends with a carriage return. -/
theorem analyze_ranges_in_document_clipped :
    let text : Text := [0xF0, 0x9F, 0x98, 0x80] ++ Text.ofString "<!-- @if --><c-a>" ++
      [0xC3, 0xA9] ++ Text.ofString "\r\n</c-b\n>"
    let doc : Document := ⟨text⟩
    let clipped : Range := .onLine 0 16 22
    (0 : Int) < 6 ∧ (6 : Int) ≤ 2 ^ 63 - 1 - text.length ∧
      clipped ∈ (analyze 6 text).ranges ∧ doc.toUTF16Range clipped = .onLine 0 14 19 ∧
      doc.Covers List.length clipped ∧ doc.Covers utf16Length (.onLine 0 14 19) ∧
      doc.fromUTF16Place ⟨0, 14⟩ = ⟨0, 16⟩ := by
  intro text doc clipped
  have hmax : (6 : Int) ≤ 2 ^ 63 - 1 - text.length := by decide +kernel
  -- the searches find the two tags in order, so that the sort has nothing to do
  have hevents : Event.ofText (Comment.strip text) =
      [⟨.openTag, Text.ofString "a", .onLine 0 16 21⟩,
        ⟨.closeTag, Text.ofString "b", ⟨⟨1, 0⟩, ⟨2, 1⟩⟩⟩] := by
    unfold Event.ofText
    rw [List.mergeSort_of_pairwise (by decide +kernel)]
    decide +kernel
  have hfound : ⟨clipped, .unclosedTag (Text.ofString "a")⟩ ∈ (analyze 6 text).diagnostics := by
    refine List.mem_mergeSort.mpr ?_
    rw [hevents]
    decide +kernel
  have hmem : clipped ∈ (analyze 6 text).ranges :=
    List.mem_append_left _ (List.mem_map.mpr ⟨_, hfound, rfl⟩)
  have himage : doc.toUTF16Range clipped = .onLine 0 14 19 := by decide +kernel
  obtain ⟨hranges, hback⟩ := analyze_ranges_in_document text (by decide) hmax
  obtain ⟨hcovers, hunits⟩ := hranges clipped hmem
  rw [himage] at hunits
  exact ⟨by decide, hmax, hmem, himage, hcovers, hunits,
    (congrArg doc.fromUTF16Place (congrArg Range.start himage)).symm.trans (hback _ hfound)⟩

end ViewLint
