import ViewLint.Proofs.Text.Padding
import ViewLint.Proofs.TextSync

/-!
# Ranges inside a document

`Document.Covers` says that a range lies in the document: on lines that there are, in order, and
with columns that do not leave the content of their lines. It has the measure of a line as a
parameter, so that it can be said of byte columns and of UTF-16 columns.

Turning the columns of such a range to UTF-16 never leads out of the document, wherever in a
character they fall (`Document.Covers.toUTF16Range`): the UTF-16 column does not decrease with the
byte column and stops at the length of the line. Turning them back gives the same column only
between two characters (`fromUTF16_toUTF16`).

Which offsets have a column in the content of their line? Not the one behind a carriage return that
ends it. Bytes that are neither line ends nor carriage returns belong to the content together with
the offset behind them (`Document.exists_line_of_solid_prefix`).
-/

namespace ViewLint

open Text (byte runes EndsLine Solid)

/-! ### Columns -/

/-- A column is at most the UTF-16 length of the line. -/
theorem toUTF16_le (line : Text) (column : Int) : toUTF16 line column ≤ utf16Length line := by
  have hle := total_take_mono Text.Rune.units (runes line)
    (wholeBefore_le_length Text.Rune.width (runes line) column)
  rwa [← toUTF16_eq_total, List.take_length] at hle

/-- **Between two characters a column survives the way to UTF-16 and back.** -/
theorem fromUTF16_toUTF16 {column rest : Text}
    (h : runes (column ++ rest) = runes column ++ runes rest) :
    fromUTF16 (column ++ rest) (toUTF16 (column ++ rest) column.length) = column.length := by
  have hcolumn := take_wholeBefore Text.one_le_width h
  rw [← Text.width_eq_total, Text.width_runes] at hcolumn
  rw [toUTF16_eq_total, hcolumn, ← utf16Length_eq_total, fromUTF16_utf16Length h]

namespace Document

/-! ### Ranges -/

/-- **The range lies in the document**, if lines are measured so: its ends are on lines that there
are, at columns within the contents of these lines, and its start is not behind its stop. -/
structure Covers (doc : Document) (measure : Text → Nat) (r : Range) : Prop where
  line_nonneg : 0 ≤ r.start.line
  lines : r.start.line ≤ r.stop.line
  line_lt : r.stop.line < doc.lineCount
  ordered : r.stop.before r.start = false
  start_nonneg : 0 ≤ r.start.character
  start_le : r.start.character ≤ measure (doc.line r.start.line)
  stop_nonneg : 0 ≤ r.stop.character
  stop_le : r.stop.character ≤ measure (doc.line r.stop.line)

/-- Columns of one line. -/
theorem covers_onLine {doc : Document} {line a b : Int} (hline : 0 ≤ line)
    (hcount : line < doc.lineCount) (ha : 0 ≤ a) (hab : a ≤ b) (hb : b ≤ (doc.line line).length) :
    doc.Covers List.length (.onLine line a b) where
  line_nonneg := hline
  lines := Int.le_refl line
  line_lt := hcount
  ordered := by
    unfold Place.before Range.onLine
    rw [if_pos rfl, decide_eq_false_iff_not]
    exact Int.not_lt.mpr hab
  start_nonneg := ha
  start_le := Int.le_trans hab hb
  stop_nonneg := Int.le_trans ha hab
  stop_le := hb

/-- **In UTF-16 columns the range lies in the document too.** -/
theorem Covers.toUTF16Range {doc : Document} {r : Range} (h : doc.Covers List.length r) :
    doc.Covers utf16Length (doc.toUTF16Range r) where
  line_nonneg := h.line_nonneg
  lines := h.lines
  line_lt := h.line_lt
  ordered := by
    have hordered := h.ordered
    have hlines := h.lines
    unfold Place.before at hordered ⊢
    unfold Document.toUTF16Range toUTF16Place
    dsimp only
    -- on one line the columns are compared, otherwise the lines, which stay as they are
    by_cases hline : r.stop.line = r.start.line
    · rw [if_pos hline, decide_eq_false_iff_not] at hordered
      have hmono := toUTF16_mono (doc.line r.start.line) (Int.not_lt.mp hordered)
      rw [if_pos hline, decide_eq_false_iff_not, hline]
      omega
    · rw [if_neg hline, decide_eq_false_iff_not]
      omega
  start_nonneg := Int.natCast_nonneg _
  start_le := Int.ofNat_le.mpr (toUTF16_le _ _)
  stop_nonneg := Int.natCast_nonneg _
  stop_le := Int.ofNat_le.mpr (toUTF16_le _ _)

/-! ### Solid bytes -/

theorem line_placeAt_lt (text : Text) (p : Nat) :
    ((mk text).placeAt p).line < (mk text).lineCount := by
  have hcount := (List.take_sublist p text).count_le (byte '\n')
  rw [placeAt_eq, lineCount_eq]
  unfold endPlace
  dsimp only
  omega

theorem character_placeAt_le (text : Text) (p : Nat) :
    ((mk text).placeAt p).character ≤ text.length := by
  obtain ⟨front, -, hfront⟩ := Text.exists_append_lastLine (text.take p)
  have hlen := congrArg List.length hfront
  rw [List.length_append, List.length_take] at hlen
  rw [placeAt_eq]
  unfold endPlace
  dsimp only
  omega

/-- **A solid piece belongs to the content of its line.** Its column counts the bytes in front of it
on the line, and the offset behind it is as many columns further as it is long. -/
theorem exists_line_of_solid_prefix {text piece : Text} {p : Nat} (hne : piece ≠ [])
    (hsolid : ∀ b ∈ piece, Solid b) (hbytes : piece <+: text.drop p) :
    ∃ column tail, (mk text).line ((mk text).placeAt p).line = column ++ (piece ++ tail) ∧
      ((mk text).placeAt p).character = column.length ∧
      (mk text).placeAt (p + piece.length : Nat) =
        ⟨((mk text).placeAt p).line, column.length + piece.length⟩ ∧
      piece ++ tail <+: text.drop p := by
  obtain ⟨rest, hrest⟩ := hbytes
  have hle : p ≤ text.length := by
    by_contra hlt
    rw [List.drop_eq_nil_of_le (by omega)] at hrest
    exact hne (List.append_eq_nil_iff.mp hrest).1
  obtain ⟨front, column, behind, hfront, hnl, rfl, rfl⟩ := exists_column_of_le hle
  have hdrop : (front ++ (column ++ behind)).drop (front.length + column.length) = behind := by
    rw [← List.append_assoc, ← List.length_append, List.drop_left]
  rw [hdrop] at hrest ⊢
  subst hrest
  have hnl' : byte '\n' ∉ column ++ piece := by
    rw [List.mem_append, not_or]
    exact ⟨hnl, fun hmem => (hsolid _ hmem).1 rfl⟩
  -- the line ends behind the piece, because no byte of it is a newline or the return before it
  have hreturn : (column ++ piece).getLast? = some (byte '\r') →
      rest.head? ≠ some (byte '\n') ∧ rest ≠ [] := by
    rw [List.getLast?_append, List.getLast?_eq_some_getLast hne, Option.some_or]
    exact fun h => absurd (Or.inr (Option.some.inj h)) (hsolid _ (List.getLast_mem hne)).2
  obtain ⟨tail, left, hleft, -, hline⟩ := exists_line_eq_append hnl' hreturn
  have hnext := placeAt_of_endsLine hfront hnl' rest
  rw [List.append_assoc, List.length_append, ← Nat.add_assoc] at hnext
  rw [hnext, placeAt_of_endsLine hfront hnl]
  refine ⟨column, tail, ?_, rfl, by simp, ?_⟩
  · rw [line_of_endsLine hfront, ← List.append_assoc, hline, List.append_assoc]
  · rw [hleft]
    exact (List.prefix_append_right_inj piece).mpr (List.prefix_append tail left)

/-- A solid byte belongs to the content of its line. -/
theorem exists_line_of_solid {text : Text} {p : Nat} {b : UInt8} (hb : text[p]? = some b)
    (hsolid : Solid b) :
    ∃ column tail, (mk text).line ((mk text).placeAt p).line = column ++ b :: tail ∧
      ((mk text).placeAt p).character = column.length ∧
      (mk text).placeAt (p + 1 : Nat) = ⟨((mk text).placeAt p).line, column.length + 1⟩ := by
  obtain ⟨hlt, hget⟩ := List.getElem?_eq_some_iff.mp hb
  have hbytes : [b] <+: text.drop p := by
    rw [List.drop_eq_getElem_cons hlt, hget]
    exact ⟨_, rfl⟩
  obtain ⟨column, tail, hline, hcharacter, hnext, -⟩ := exists_line_of_solid_prefix
    (List.cons_ne_nil b []) (List.forall_mem_singleton.mpr hsolid) hbytes
  exact ⟨column, tail, hline, hcharacter, hnext⟩

/-- The place of a solid ASCII byte survives the way to UTF-16 columns and back. -/
theorem fromUTF16Place_toUTF16Place {text : Text} {p : Nat} {b : UInt8} (hb : text[p]? = some b)
    (hsolid : Solid b) (hascii : b < 0x80) :
    (mk text).fromUTF16Place ((mk text).toUTF16Place ((mk text).placeAt p)) =
      (mk text).placeAt p := by
  obtain ⟨column, tail, hline, hcharacter, -⟩ := exists_line_of_solid hb hsolid
  have hhead : ∀ c, (b :: tail).head? = some c → Text.isContinuation c = false := by
    intro c hc
    obtain rfl := Option.some.inj hc
    exact Text.not_isContinuation_of_ascii hascii
  have hback := fromUTF16_toUTF16 (Text.runes_append_of_not_continuation column hhead)
  unfold fromUTF16Place toUTF16Place
  dsimp only
  rw [hline, hcharacter, hback, ← hcharacter]

/-- The start of a line survives the way to UTF-16 columns and back. -/
theorem fromUTF16Place_toUTF16Place_zero (doc : Document) (line : Int) :
    doc.fromUTF16Place (doc.toUTF16Place ⟨line, 0⟩) = ⟨line, 0⟩ := by
  have hback := @fromUTF16_toUTF16 [] (doc.line line) rfl
  rw [List.nil_append] at hback
  unfold fromUTF16Place toUTF16Place
  dsimp only
  exact congrArg (fun n : Nat => Place.mk line n) hback

end Document

end ViewLint
