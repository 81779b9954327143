import Mathlib.Order.MinMax
import ViewLint.Proofs.Text.Offsets
import ViewLint.Proofs.Text.Units
import ViewLint.Proofs.Text.Utf8

/-!
# Any change can be made

Nothing says that an editor sends good ranges: they may be inverted, negative, past the end of a line
or of the document, or inside a character. `changes_splice` says that every list of changes is
harmless. Each of them cuts the text it meets at two places that are there, in order and between two
characters (`Cuts`), and puts its own text between the two parts; so a valid text stays valid.

The places are good because of where the two conversions meet. The first gives a boundary of the
line (`isBoundary_fromUTF16`), which the second leaves alone because it lies in the line. A line stands
behind a line start and in front of a line end, so it is decoded on its own, and its boundaries are
boundaries of the text (`Document.isBoundary_offsetUTF16`).
-/

namespace ViewLint

open Text (byte runes isUtf8 IsBoundary EndsLine StartsLineEnd)

/-! ### Where a change cuts -/

/-- No character goes on in a line end. -/
theorem Text.StartsLineEnd.not_isContinuation {left : Text} (h : StartsLineEnd left) :
    ∀ c, left.head? = some c → isContinuation c = false := by
  intro c hc
  cases h with
  | nil => cases hc
  | newline | lastReturn | returnNewline =>
    obtain rfl := Option.some.inj hc
    decide

/-- A line is decoded on its own. -/
theorem Text.runes_of_line {front line left : Text} (hfront : EndsLine front)
    (hleft : StartsLineEnd left) :
    runes (front ++ (line ++ left)) = runes front ++ (runes line ++ runes left) := by
  rw [hfront.runes_append, runes_append_of_not_continuation line hleft.not_isContinuation]

/-- **Every place of an editor leads between two characters of the text.** -/
theorem Document.isBoundary_offsetUTF16 (doc : Document) (p : Place) :
    IsBoundary doc.text (doc.offsetUTF16 p) := by
  unfold offsetUTF16
  by_cases hneg : p.line < 0
  · rw [offset_of_neg (p := doc.fromUTF16Place p) hneg]
    exact ⟨0, rfl⟩
  by_cases hend : (doc.lineCount : Int) ≤ p.line
  · rw [offset_of_lineCount_le (p := doc.fromUTF16Place p) hend]
    exact ⟨(runes doc.text).length, by rw [List.take_length, Text.width_runes]⟩
  · obtain ⟨text⟩ := doc
    obtain ⟨line, column⟩ := p
    obtain ⟨front, left, hfront, hcount, -, hleft, htext⟩ :=
      exists_line (Int.not_lt.mp hneg) (Int.not_le.mp hend)
    unfold fromUTF16Place
    dsimp only at hcount htext ⊢
    generalize hline : (mk text).line line = content at htext ⊢
    subst htext hcount
    -- the byte column lies in the line, so it is not moved again
    have hcolumn := isBoundary_fromUTF16 content column
    rw [offset_of_line hfront hline, Int.toNat_natCast, Nat.min_eq_left hcolumn.le_length]
    exact hcolumn.in_piece (Text.runes_of_line hfront hleft)

/-- Where a change cuts a text: at the two ends of its range, or twice at the first where the range
is inverted. -/
structure Cuts (text : Text) (r : Range) (start stop : Nat) : Prop where
  start_eq : start = (Document.mk text).offsetUTF16 r.start
  stop_eq : stop = max start ((Document.mk text).offsetUTF16 r.stop)
  ordered : start ≤ stop
  inside : stop ≤ text.length
  start_boundary : IsBoundary text start
  stop_boundary : IsBoundary text stop

/-- **Every range cuts every text.** -/
theorem exists_cuts (text : Text) (r : Range) : ∃ start stop, Cuts text r start stop := by
  have hstart := (Document.mk text).isBoundary_offsetUTF16 r.start
  have hstop := (Document.mk text).isBoundary_offsetUTF16 r.stop
  -- the stop is pushed up to the start if it is before it, and both are boundaries
  have hmax : IsBoundary text
      (max ((Document.mk text).offsetUTF16 r.start) ((Document.mk text).offsetUTF16 r.stop)) := by
    rcases max_choice ((Document.mk text).offsetUTF16 r.start)
      ((Document.mk text).offsetUTF16 r.stop) with h | h
    · rwa [h]
    · rwa [h]
  exact ⟨_, _, {
    start_eq := rfl
    stop_eq := rfl
    ordered := Nat.le_max_left _ _
    inside := hmax.le_length
    start_boundary := hstart
    stop_boundary := hmax }⟩

/-! ### One change -/

/-- A change puts its text where its range cuts. -/
theorem applyChange_of_cuts {text : Text} {c : Change} {r : Range} {start stop : Nat}
    (hr : c.range = some r) (h : Cuts text r start stop) :
    applyChange text c = text.take start ++ c.text ++ text.drop stop := by
  unfold applyChange
  rw [hr]
  dsimp only
  rw [← h.start_eq, ← h.stop_eq]

/-- A change whose text is valid keeps a text valid. -/
theorem isUtf8_applyChange {text : Text} {c : Change} (htext : isUtf8 text = true)
    (hc : isUtf8 c.text = true) : isUtf8 (applyChange text c) = true := by
  cases hr : c.range with
  | none =>
    unfold applyChange
    rwa [hr]
  | some r =>
    obtain ⟨start, stop, hcuts⟩ := exists_cuts text r
    rw [applyChange_of_cuts hr hcuts]
    exact Text.isUtf8_append (Text.isUtf8_append (hcuts.start_boundary.isUtf8 htext).1 hc)
      (hcuts.stop_boundary.isUtf8 htext).2

/-! ### All changes -/

/-- The text behind one more change. -/
theorem applyChanges_take_succ {changes : List Change} {k : Nat} {c : Change}
    (h : changes[k]? = some c) (text : Text) :
    applyChanges text (changes.take (k + 1)) =
      applyChange (applyChanges text (changes.take k)) c := by
  unfold applyChanges
  rw [List.take_add_one, h, List.foldl_append]
  rfl

/-- Changes whose texts are valid keep a text valid. -/
theorem isUtf8_applyChanges {text : Text} {changes : List Change} (htext : isUtf8 text = true)
    (hchanges : ∀ c ∈ changes, isUtf8 c.text = true) :
    isUtf8 (applyChanges text changes) = true := by
  induction changes generalizing text with
  | nil => exact htext
  | cons c changes ih =>
    obtain ⟨hc, hrest⟩ := List.forall_mem_cons.mp hchanges
    exact ih (isUtf8_applyChange htext hc) hrest

/-- **No change does harm.** Whatever ranges are sent, each of them cuts the text that it meets at two
boundaries inside it, in order, and the change puts its own text between what stands before the one
and what stands behind the other. If no text that is sent is malformed, and neither is the first, then
no text that comes up on the way is. -/
theorem changes_splice (text : Text) (changes : List Change) :
    (∀ k c r, changes[k]? = some c → c.range = some r →
      ∃ start stop, Cuts (applyChanges text (changes.take k)) r start stop ∧
        applyChanges text (changes.take (k + 1)) =
          (applyChanges text (changes.take k)).take start ++ c.text ++
            (applyChanges text (changes.take k)).drop stop) ∧
      (isUtf8 text = true → (∀ c ∈ changes, isUtf8 c.text = true) →
        ∀ k, isUtf8 (applyChanges text (changes.take k)) = true) := by
  constructor
  · -- one change replaces what lies between its cuts
    intro k c r hc hr
    obtain ⟨start, stop, hcuts⟩ := exists_cuts (applyChanges text (changes.take k)) r
    refine ⟨start, stop, hcuts, ?_⟩
    rw [applyChanges_take_succ hc, applyChange_of_cuts hr hcuts]
  · -- what is UTF-8 is cut at boundaries only
    intro htext hchanges k
    exact isUtf8_applyChanges htext fun c hc => hchanges c (List.mem_of_mem_take hc)

/-- An inverted range whose end is above the document, then one from inside a surrogate pair to
below the document. -/
theorem changes_splice_hostile :
    let text : Text := [0x61, 0xF0, 0x9F, 0x98, 0x80, 0x62, 0x0D, 0x0A, 0x63]
    let inverted : Change := ⟨some ⟨⟨0, 3⟩, ⟨-1, 7⟩⟩, [0xC3, 0xA9]⟩
    let inside : Change := ⟨some ⟨⟨0, 2⟩, ⟨99, -4⟩⟩, [0x0D]⟩
    Cuts text ⟨⟨0, 3⟩, ⟨-1, 7⟩⟩ 5 5 ∧
      applyChanges text [inverted] =
        [0x61, 0xF0, 0x9F, 0x98, 0x80, 0xC3, 0xA9, 0x62, 0x0D, 0x0A, 0x63] ∧
      applyChanges text [inverted, inside] = [0x61, 0x0D] ∧
      isUtf8 (applyChanges text [inverted, inside]) = true := by
  intro text inverted inside
  obtain ⟨hsplice, hvalid⟩ := changes_splice text [inverted, inside]
  have hvalid := hvalid (by decide +kernel) (by decide +kernel) 2
  obtain ⟨start, stop, hcuts, hafter⟩ := hsplice 0 inverted ⟨⟨0, 3⟩, ⟨-1, 7⟩⟩ rfl rfl
  have hstart : start = 5 := by
    rw [hcuts.start_eq]
    decide +kernel
  have hstop : stop = 5 := by
    rw [hcuts.stop_eq, hstart]
    decide +kernel
  subst hstart hstop
  exact ⟨hcuts, hafter, by decide +kernel, hvalid⟩

end ViewLint
