import Mathlib.Data.List.Induction
import ViewLint.Path
import ViewLint.Proofs.Text.Codes
import ViewLint.Selector

/-!
# What is asked of a matcher of patterns

Nothing is known of a matcher but what it is asked for by name. `Patterns.StarsMatchAll` is about the
pattern that is nothing but two stars. `Patterns.ReadsSuffix` is about the pattern `**/*` in front of a
suffix, part by part: the directories, the star, and the suffix itself as far as none of its bytes means
something. Together these say where a name has to be cut for the suffix to match its end
(`ReadsSuffix.matches_iff`).
-/

namespace ViewLint

open Text (codes)

namespace Patterns

/-- The bytes with a meaning in patterns. -/
def metas : List UInt8 :=
  [Text.byte '*', Text.byte '?', Text.byte '[', Text.byte '\x7b', Text.byte '\\']

/-- No byte of the text has a meaning in patterns. -/
def IsLiteral (text : Text) : Prop := ∀ b ∈ text, b ∉ metas

instance (text : Text) : Decidable (IsLiteral text) :=
  inferInstanceAs (Decidable (∀ b ∈ text, b ∉ metas))

variable {m : Patterns} {suffix : Text}

/-- Two stars match every name. -/
def StarsMatchAll (m : Patterns) : Prop := ∀ name, m.Matches (Text.ofString "**") name

/-- **How a matcher reads the pattern of the files with a suffix.** -/
structure ReadsSuffix (m : Patterns) (suffix : Text) : Prop where
  /-- `**/` is any number of directories. -/
  deep : ∀ name, m.Matches (Text.ofString "**/*" ++ suffix) name ↔
    ∃ dirs last, name = dirs ++ last ∧ (dirs = [] ∨ dirs.getLast? = some Path.slash) ∧
      m.Matches (Text.ofString "*" ++ suffix) last
  /-- `*` is anything without a slash. -/
  star : ∀ name, m.Matches (Text.ofString "*" ++ suffix) name ↔
    ∃ part tail, name = part ++ tail ∧ Path.slash ∉ part ∧ m.Matches suffix tail
  /-- What has no meaning is compared character by character. -/
  plain : IsLiteral suffix → ∀ name, m.Matches suffix name ↔ codes name = codes suffix

/-- Every text can be cut behind its last slash. -/
theorem exists_cut_slash (text : Text) :
    ∃ dirs last, text = dirs ++ last ∧ (dirs = [] ∨ dirs.getLast? = some Path.slash) ∧
      Path.slash ∉ last := by
  induction text using List.reverseRecOn with
  | nil => exact ⟨[], [], rfl, Or.inl rfl, List.not_mem_nil⟩
  | append_singleton text b ih =>
    by_cases hb : b = Path.slash
    · subst hb
      exact ⟨text ++ [Path.slash], [], by simp, Or.inr (by simp), List.not_mem_nil⟩
    · obtain ⟨dirs, last, rfl, hdirs, hlast⟩ := ih
      refine ⟨dirs, last ++ [b], List.append_assoc _ _ _, hdirs, ?_⟩
      rw [List.mem_append, List.mem_singleton, not_or]
      exact ⟨hlast, Ne.symm hb⟩

/-- **The pattern of a suffix matches the names of which the suffix matches some end.** -/
theorem ReadsSuffix.matches_iff (h : m.ReadsSuffix suffix) (name : Text) :
    m.Matches (Text.ofString "**/*" ++ suffix) name ↔
      ∃ head tail, name = head ++ tail ∧ m.Matches suffix tail := by
  rw [h.deep]
  constructor
  · rintro ⟨dirs, last, rfl, -, hlast⟩
    obtain ⟨part, tail, rfl, -, htail⟩ := (h.star last).mp hlast
    exact ⟨dirs ++ part, tail, (List.append_assoc _ _ _).symm, htail⟩
  · -- the directories end at the last slash of the head, and the star takes the rest of it
    rintro ⟨head, tail, rfl, htail⟩
    obtain ⟨dirs, part, rfl, hdirs, hpart⟩ := exists_cut_slash head
    exact ⟨dirs, part ++ tail, List.append_assoc _ _ _, hdirs,
      (h.star _).mpr ⟨part, tail, rfl, hpart, htail⟩⟩

/-- What reads as a suffix with a dot starts with the dot. -/
theorem head?_of_codes_eq (hdot : suffix.head? = some (Text.byte '.')) {tail : Text}
    (h : codes tail = codes suffix) : tail.head? = some (Text.byte '.') := by
  obtain ⟨rest, rfl⟩ := List.head?_eq_some_iff.mp hdot
  rw [Text.codes_cons_of_ascii (by decide)] at h
  have hne : tail ≠ [] := by
    rintro rfl
    exact absurd h.symm (List.cons_ne_nil _ _)
  rw [Text.codes_of_ne_nil hne] at h
  obtain ⟨behind, rfl, -⟩ := Text.firstRune_ascii (by decide) (List.cons.inj h).1
  rfl

/-- A cut in front of what reads as a suffix with a dot is a cut between two characters. -/
theorem codes_append_of_codes_eq (hdot : suffix.head? = some (Text.byte '.')) (head : Text) {tail : Text}
    (h : codes tail = codes suffix) : codes (head ++ tail) = codes head ++ codes suffix := by
  rw [← h]
  refine Text.codes_append head fun c hc => ?_
  obtain rfl := Option.some.inj ((head?_of_codes_eq hdot h).symm.trans hc)
  decide

/-- **Some end of a name reads as a suffix just in case the code points of the name end in those of the
suffix.** -/
theorem exists_tail_iff (hdot : suffix.head? = some (Text.byte '.')) (name : Text) :
    (∃ head tail, name = head ++ tail ∧ codes tail = codes suffix) ↔ codes suffix <:+ codes name := by
  constructor
  · rintro ⟨head, tail, rfl, htail⟩
    rw [codes_append_of_codes_eq hdot head htail]
    exact List.suffix_append _ _
  · rintro ⟨before, h⟩
    obtain ⟨head, tail, rfl, htail, -⟩ := Text.exists_append_of_codes_eq h.symm
    exact ⟨head, tail, rfl, htail⟩

end Patterns

end ViewLint
