import ViewLint.Proofs.Comment.Strip
import ViewLint.Proofs.Text.Padding

/-!
# What shows in a blanked text

Blanking writes nothing but blanks and newlines, and it moves no newline (`map_newline_strip`). A solid
byte of the blanked text, neither blank nor line end, is therefore not its work: it stands in the text,
at the same offset (`getElem?_of_solid_strip`), and in no comment (`outside_of_solid_strip`).
-/

namespace ViewLint.Comment

open Text (byte Solid)

/-- The newlines of a text stay where they are, and no others come in. -/
theorem map_newline_strip (text : Text) :
    (strip text).map (· == byte '\n') = text.map (· == byte '\n') := by
  refine List.ext_getElem? fun o => ?_
  rw [List.getElem?_map, List.getElem?_map, getElem?_strip, Option.map_map]
  congr 1
  funext b
  rw [Function.comp_apply]
  unfold blankAt
  split
  · rfl
  · next hblank =>
    rw [beq_false_of_ne (not_or.mp hblank).2]
    decide

/-- A solid byte of the blanked text stands in the text itself. -/
theorem getElem?_of_solid_strip {text : Text} {o : Nat} {b : UInt8}
    (h : (strip text)[o]? = some b) (hsolid : Solid b) : text[o]? = some b := by
  rw [getElem?_strip] at h
  obtain ⟨c, hc, rfl⟩ := Option.map_eq_some_iff.mp h
  unfold blankAt at hsolid ⊢
  split at hsolid
  · next hkeep => rw [if_pos hkeep, hc]
  · exact absurd (Or.inl rfl) hsolid.2

/-- A solid byte of the blanked text stands in no comment. -/
theorem outside_of_solid_strip {text : Text} {o : Nat} {b : UInt8}
    (h : (strip text)[o]? = some b) (hsolid : Solid b) : Outside (spans text) o := by
  by_contra hinside
  rw [getElem?_strip] at h
  obtain ⟨c, -, rfl⟩ := Option.map_eq_some_iff.mp h
  rw [blankAt_of_not_outside hinside] at hsolid
  split at hsolid
  · next hnewline => exact hsolid.1 hnewline
  · exact hsolid.2 (Or.inl rfl)

/-- **A solid piece of the blanked text stands in the text**, and in no comment. -/
theorem prefix_of_solid_strip {text piece : Text} {p : Nat} (hsolid : ∀ b ∈ piece, Solid b)
    (h : piece <+: (strip text).drop p) : piece <+: text.drop p ∧
      ∀ o, p ≤ o → o < p + piece.length → Outside (spans text) o := by
  -- byte by byte: a solid byte of the stripped text is the byte of the text, outside comments
  have hbyte : ∀ i (hi : i < piece.length), (strip text)[p + i]? = some piece[i] := by
    intro i hi
    rw [Text.getElem?_of_prefix_drop h hi, List.getElem?_eq_getElem hi]
  constructor
  · refine List.prefix_iff_getElem?.mpr fun i hi => ?_
    rw [List.getElem?_drop]
    exact getElem?_of_solid_strip (hbyte i hi) (hsolid _ (List.getElem_mem hi))
  · intro o hle hlt
    obtain ⟨i, rfl⟩ := Nat.exists_eq_add_of_le hle
    have hi : i < piece.length := by omega
    exact outside_of_solid_strip (hbyte i hi) (hsolid _ (List.getElem_mem hi))

end ViewLint.Comment
