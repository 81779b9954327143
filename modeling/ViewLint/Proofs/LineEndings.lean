import ViewLint.Proofs.Balance.LineLengths
import ViewLint.Proofs.Comment.Padding
import ViewLint.Proofs.Event.Padding

/-!
# Line endings do not matter

`analyze_withReturns`: a template that ends its lines with `\n` and the same template with `\r\n`
get the same diagnostics and the same blocks, at the same lines and columns.

The text with carriage returns is padded, it stays so when the comments are blanked, and padded
texts have the same events. Of the text itself the pass reads only the lengths of the lines, and
these leave the carriage return out. This last step is the only one that needs a text without
carriage returns of its own: of two before a newline one is content.
-/

namespace ViewLint

open Text (byte Padded)

/-- The text with a carriage return in front of every newline. -/
def withReturns (text : Text) : Text := Text.replaceByte (byte '\n') (Text.ofString "\r\n") text

theorem withReturns_newline (rest : Text) :
    withReturns (byte '\n' :: rest) = byte '\r' :: byte '\n' :: withReturns rest := rfl

theorem withReturns_cons {b : UInt8} (h : b ≠ byte '\n') (rest : Text) :
    withReturns (b :: rest) = b :: withReturns rest := by
  unfold withReturns Text.replaceByte
  rw [List.flatMap_cons, if_neg h]
  rfl

theorem padded_withReturns (text : Text) : Padded text (withReturns text) := by
  induction text with
  | nil => exact .nil
  | cons b rest ih =>
    by_cases hb : b = byte '\n'
    · rw [hb, withReturns_newline]
      exact .newline (Or.inr rfl) ih
    · rw [withReturns_cons hb]
      exact .keep hb ih

/-! ### Lines -/

theorem split_cons_of_ne {sep b : UInt8} (h : b ≠ sep) (rest : Text) :
    Text.split sep (b :: rest) = (Text.split sep rest).modifyHead (b :: ·) := by
  have hhead := Text.head?_split sep rest
  rw [Text.split, if_neg h]
  cases hs : Text.split sep rest with
  | nil =>
    rw [hs] at hhead
    cases hhead
  | cons piece pieces => rfl

/-- A byte that is no carriage return stays in its line. -/
theorem dropTail_return_cons {b : UInt8} (h : b ≠ byte '\r') (rest : Text) :
    Text.dropTail [byte '\r'] (b :: rest) = b :: Text.dropTail [byte '\r'] rest := by
  have hsuffix : [byte '\r'].isSuffixOf (b :: rest) = [byte '\r'].isSuffixOf rest := by
    rw [Bool.eq_iff_iff, List.isSuffixOf_iff_suffix, List.isSuffixOf_iff_suffix,
      List.suffix_cons_iff]
    simp [Ne.symm h]
  unfold Text.dropTail
  rw [hsuffix]
  split
  · next hreturn =>
    obtain ⟨front, rfl⟩ := List.isSuffixOf_iff_suffix.mp hreturn
    simp
  · rfl

/-- **The lines of the two texts are the same.** -/
theorem lines_withReturns {text : Text} (h : byte '\r' ∉ text) :
    (Document.mk (withReturns text)).lines = (Document.mk text).lines := by
  unfold Document.lines Document.rawLines
  dsimp only
  induction text with
  | nil => rfl
  | cons b rest ih =>
    rw [List.mem_cons, not_or] at h
    by_cases hb : b = byte '\n'
    · -- the carriage return is all that stands before the newline
      rw [hb, withReturns_newline, split_cons_of_ne (by decide), Text.split, if_pos rfl, Text.split,
        if_pos rfl, List.map_cons, ← ih h.2]
      rfl
    · rw [withReturns_cons hb, split_cons_of_ne hb, split_cons_of_ne hb]
      have hmap : ∀ lines : List Text,
          (lines.modifyHead (b :: ·)).map (Text.dropTail [byte '\r']) =
            (lines.map (Text.dropTail [byte '\r'])).modifyHead (b :: ·) := by
        intro lines
        cases lines with
        | nil => rfl
        | cons line lines => simp [dropTail_return_cons (Ne.symm h.1)]
      rw [hmap, hmap, ih h.2]

theorem sameLineLengths_withReturns {text : Text} (h : byte '\r' ∉ text) :
    SameLineLengths ⟨withReturns text⟩ ⟨text⟩ := by
  have hline : ∀ (doc : Document) (i : Int), doc.line i =
      if i < 0 then [] else doc.lines.getD i.toNat [] := by
    intro doc i
    unfold Document.line Document.lines
    split
    · rfl
    · rw [List.getD_eq_getElem?_getD, List.getD_eq_getElem?_getD, List.getElem?_map]
      cases doc.rawLines[i.toNat]? <;> rfl
  intro i
  rw [hline, hline, lines_withReturns h]

/-! ### The main result -/

/-- **Line endings do not matter.** A text without carriage returns and the text that has one in
front of every newline get the same diagnostics and the same blocks, for every window. -/
theorem analyze_withReturns {text : Text} (h : byte '\r' ∉ text) (window : Int) :
    analyze window (withReturns text) = analyze window text :=
  analyze_congr (sameLineLengths_withReturns h)
    (Event.ofText_padded (Comment.padded_strip (padded_withReturns text))) window

/-- A tag and a quoted value that wrap over lines, a slash before a wrapped `>`, a backslash before a
line end in a string, a hash at the start of a line, and comments that end with their line. -/
theorem analyze_withReturns_wrapped :
    let text := Text.ofString "<c-a\n x='\n>' / \n>\n\"\\\n# \"\n# '@if\n//x\n@if<c-b\n>\n@endif"
    byte '\r' ∉ text ∧ text ≠ withReturns text ∧
      ∀ window, analyze window (withReturns text) = analyze window text := by
  intro text
  have hreturn : byte '\r' ∉ text := by decide
  exact ⟨hreturn, by decide, analyze_withReturns hreturn⟩

end ViewLint
