import Mathlib.Tactic.Common
import ViewLint.Place

/-!
# The line index of a document

A document finds its lines by cutting its text at the newlines, and it has an index of the offsets
at which they start. Read from the other side: if a text is cut where a line starts
(`Text.EndsLine`), the newlines before the cut are the number of that line, the bytes before the cut
are its start, and what follows up to the next newline is its content. These three facts
(`Document.lineStart_of_endsLine`, `Document.line_of_endsLine`, `Document.offset_of_endsLine`) are
all that proofs about offsets of places need to know of the index. That a place is found by halving
it rests on the order of the starts before the cut and behind it (`Document.lineStarts_append`,
`Document.bounds_startsFrom`).
-/

namespace ViewLint

namespace Text

/-! ### Cutting at a byte -/

theorem split_eq_splitOn (sep : UInt8) (text : Text) : split sep text = text.splitOn sep := by
  induction text with
  | nil => rfl
  | cons b rest ih =>
    rw [List.splitOn_cons_eq_if_modifyHead, split, ih]
    by_cases h : b = sep
    · rw [if_pos h, if_pos (by simp [h])]
    · rw [if_neg h, if_neg (by simpa using h)]
      cases hs : rest.splitOn sep with
      | nil => exact absurd hs (List.splitOn_ne_nil sep rest)
      | cons piece pieces => rfl

/-- A separator cuts a text in two. -/
theorem split_append_cons (sep : UInt8) (a b : Text) :
    split sep (a ++ sep :: b) = split sep a ++ split sep b := by
  rw [split_eq_splitOn, split_eq_splitOn, split_eq_splitOn, List.splitOn_append_cons_self]

/-- There is one piece more than there are separators. -/
theorem length_split (sep : UInt8) (text : Text) :
    (split sep text).length = text.count sep + 1 := by
  induction text with
  | nil => rfl
  | cons b rest ih =>
    rw [split]
    -- a separator starts a new piece; any other byte is put on the first one, which there is
    by_cases h : b = sep
    · rw [if_pos h, List.length_cons, ih, h, List.count_cons_self]
    · rw [if_neg h, List.count_cons_of_ne (by simpa using h), ← ih]
      cases hs : split sep rest with
      | nil =>
        rw [hs] at ih
        simp at ih
      | cons piece pieces => rfl

/-- Every piece with its separator, and one separator more than the text has. -/
theorem foldr_length_split (sep : UInt8) (text : Text) :
    (split sep text).foldr (fun raw n => raw.length + 1 + n) 0 = text.length + 1 := by
  induction text with
  | nil => rfl
  | cons b rest ih =>
    rw [split]
    by_cases h : b = sep
    · rw [if_pos h, List.foldr_cons, ih, List.length_nil, List.length_cons]
      omega
    · rw [if_neg h]
      cases hs : split sep rest with
      | nil =>
        rw [hs] at ih
        simp at ih
      | cons piece pieces =>
        rw [hs, List.foldr_cons] at ih
        dsimp only
        rw [List.foldr_cons, List.length_cons, List.length_cons]
        omega

/-- The first piece is what stands before the first separator. -/
theorem head?_split (sep : UInt8) (text : Text) :
    (split sep text).head? = some (text.takeWhile (· != sep)) := by
  induction text with
  | nil => rfl
  | cons b rest ih =>
    rw [split]
    by_cases h : b = sep
    · simp [h]
    · rw [if_neg h, List.takeWhile_cons_of_pos (by simpa using h)]
      cases hs : split sep rest with
      | nil =>
        rw [hs] at ih
        simp at ih
      | cons piece pieces =>
        rw [hs] at ih
        rw [← Option.some.inj ih]
        rfl

/-! ### Line starts -/

/-- The text is empty or ends with a newline: what follows it starts a line. -/
def EndsLine (text : Text) : Prop := text = [] ∨ ∃ front, text = front ++ [byte '\n']

/-- What stands behind the last newline. -/
def lastLine (text : Text) : Text := (text.reverse.takeWhile (· != byte '\n')).reverse

theorem not_mem_lastLine (text : Text) : byte '\n' ∉ lastLine text := by
  intro h
  have hall := List.all_eq_true.mp List.all_takeWhile _ (List.mem_reverse.mp h)
  exact absurd hall (by simp)

/-- The last line stands behind a text that ends a line. -/
theorem exists_append_lastLine (text : Text) :
    ∃ front, EndsLine front ∧ text = front ++ lastLine text := by
  refine ⟨(text.reverse.dropWhile (· != byte '\n')).reverse, ?_, ?_⟩
  · cases hd : text.reverse.dropWhile (· != byte '\n') with
    | nil => exact Or.inl rfl
    | cons b rest =>
      have hb : b = byte '\n' := by
        have hne : text.reverse.dropWhile (· != byte '\n') ≠ [] := by simp [hd]
        have hhead := List.head_dropWhile_not (· != byte '\n') hne
        simpa [hd] using hhead
      exact Or.inr ⟨rest.reverse, by rw [List.reverse_cons, hb]⟩
  · unfold lastLine
    rw [← List.reverse_append, List.takeWhile_append_dropWhile, List.reverse_reverse]

end Text

/-! ### The index -/

namespace Document

open Text (EndsLine)

theorem lineCount_eq (doc : Document) : doc.lineCount = doc.text.count (Text.byte '\n') + 1 :=
  Text.length_split ..

/-- Every newline starts a line. -/
theorem length_startsFrom (offset : Nat) (text : Text) :
    (startsFrom offset text).length = text.count (Text.byte '\n') := by
  induction text generalizing offset with
  | nil => rfl
  | cons b rest ih =>
    rw [startsFrom]
    by_cases h : b = Text.byte '\n'
    · rw [if_pos h, List.length_cons, ih, h, List.count_cons_self]
    · rw [if_neg h, ih, List.count_cons_of_ne h]

/-- The index has an entry for every line. -/
theorem length_lineStarts (doc : Document) : doc.lineStarts.length = doc.lineCount := by
  unfold lineStarts
  rw [List.length_cons, length_startsFrom, lineCount_eq]

/-- Lines start behind the bytes in front of them. -/
theorem bounds_startsFrom {offset : Nat} {text : Text} {start : Nat}
    (h : start ∈ startsFrom offset text) : offset < start ∧ start ≤ offset + text.length := by
  -- induction on the text: a newline at `offset` gives the line start after it
  induction text generalizing offset with
  | nil => cases h
  | cons b rest ih =>
    rw [startsFrom] at h
    rw [List.length_cons]
    split at h
    · rcases List.mem_cons.mp h with rfl | h
      · omega
      · have hrest := ih h
        omega
    · have hrest := ih h
      omega

theorem le_of_mem_lineStarts {doc : Document} {start : Nat} (h : start ∈ doc.lineStarts) :
    start ≤ doc.text.length := by
  rcases List.mem_cons.mp h with rfl | h
  · exact Nat.zero_le _
  · have hbounds := bounds_startsFrom h
    omega

theorem startsFrom_append (offset : Nat) (a b : Text) :
    startsFrom offset (a ++ b) = startsFrom offset a ++ startsFrom (offset + a.length) b := by
  induction a generalizing offset with
  | nil => rfl
  | cons c a ih =>
    have hoffset : offset + (c :: a).length = offset + 1 + a.length := by
      rw [List.length_cons]
      omega
    rw [List.cons_append, startsFrom, startsFrom, ih, hoffset]
    split
    · rfl
    · rfl

/-- The index of a text that goes on is that of its first part, and further lines. -/
theorem lineStarts_append (front rest : Text) :
    (Document.mk (front ++ rest)).lineStarts =
      (Document.mk front).lineStarts ++ startsFrom front.length rest := by
  unfold lineStarts
  dsimp only
  rw [startsFrom_append, Nat.zero_add, List.cons_append]

variable {front : Text}

/-- The last line of a text that ends a line starts at its end. -/
theorem lineStarts_of_endsLine (h : EndsLine front) :
    (Document.mk front).lineStarts[front.count (Text.byte '\n')]? = some front.length := by
  rcases h with rfl | ⟨front, rfl⟩
  · rfl
  · have hlast : (Document.mk (front ++ [Text.byte '\n'])).lineStarts =
        (Document.mk front).lineStarts ++ [front.length + 1] := lineStarts_append front _
    rw [hlast, List.count_append, List.count_singleton_self, ← lineCount_eq ⟨front⟩,
      ← length_lineStarts, List.getElem?_concat_length, List.length_append,
      List.length_singleton]

/-- The bytes before a line start are its offset. -/
theorem lineStart_of_endsLine (h : EndsLine front) (rest : Text) :
    (Document.mk (front ++ rest)).lineStart (front.count (Text.byte '\n')) = front.length := by
  unfold lineStart
  rw [lineStarts_append, List.getD_eq_getElem?_getD,
    List.getElem?_append_left (by rw [length_lineStarts, lineCount_eq]; exact Nat.lt_succ_self _),
    lineStarts_of_endsLine h]
  rfl

/-- The lines of a text that is cut at a line start. -/
theorem rawLines_of_endsLine (h : EndsLine front) (rest : Text) :
    ∃ before, before.length = front.count (Text.byte '\n') ∧
      (Document.mk (front ++ rest)).rawLines = before ++ Text.split (Text.byte '\n') rest := by
  rcases h with rfl | ⟨front, rfl⟩
  · exact ⟨[], rfl, rfl⟩
  · refine ⟨Text.split (Text.byte '\n') front, ?_, ?_⟩
    · rw [Text.length_split, List.count_append, List.count_singleton_self]
    · unfold rawLines
      dsimp only
      rw [List.append_assoc, List.singleton_append, Text.split_append_cons]

/-- What follows a line start up to the next newline is the line. -/
theorem line_of_endsLine (h : EndsLine front) (rest : Text) :
    (Document.mk (front ++ rest)).line (front.count (Text.byte '\n')) =
      Text.dropTail [Text.byte '\r'] (rest.takeWhile (· != Text.byte '\n')) := by
  obtain ⟨before, hlen, hraw⟩ := rawLines_of_endsLine h rest
  have hget : (before ++ Text.split (Text.byte '\n') rest).getD before.length [] =
      rest.takeWhile (· != Text.byte '\n') := by
    rw [List.getD_eq_getElem?_getD, List.getElem?_append_right (Nat.le_refl _), Nat.sub_self,
      ← List.head?_eq_getElem?, Text.head?_split]
    rfl
  unfold line
  rw [if_neg (by omega), Int.toNat_natCast, hraw, ← hlen, hget]

/-- The offset of a column of a line. -/
theorem offset_of_endsLine (h : EndsLine front) (rest : Text) (column : Int) :
    (Document.mk (front ++ rest)).offset ⟨front.count (Text.byte '\n'), column⟩ =
      front.length + min column.toNat
        (Text.dropTail [Text.byte '\r'] (rest.takeWhile (· != Text.byte '\n'))).length := by
  have hline : ¬ ((front.count (Text.byte '\n') : Nat) : Int) < 0 := by omega
  have hcount : ¬ ((Document.mk (front ++ rest)).lineCount : Int) ≤
      (front.count (Text.byte '\n') : Nat) := by
    rw [lineCount_eq, List.count_append]
    omega
  unfold offset
  dsimp only
  rw [if_neg hline, if_neg hcount, Int.toNat_natCast, lineStart_of_endsLine h, line_of_endsLine h]

end Document

end ViewLint
