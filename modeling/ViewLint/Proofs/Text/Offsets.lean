import Mathlib.Data.List.Basic
import Mathlib.Order.Bounds.Basic
import ViewLint.Proofs.Text.Places
import ViewLint.Proofs.TextSync

/-!
# Offsets and places

`offsets_places_inverse`: the place of an offset counts the newlines before it and the bytes from
the last line start, places are in the order of their offsets, and the two conversions undo each
other with one exception: an offset right behind the carriage return that ends a line has a place,
but the content of that line ends before the return, and so the way back stops there. Places outside
the document are moved into it without being put out of order.

A document is looked at line by line: a line that there is stands behind a line start, and what
follows its content starts with a line end (`Document.exists_line`). There an offset is the start of
the line and a column of its content, and this is the place that it has
(`Document.placeAt_offset`).
-/

namespace ViewLint

open Text (byte EndsLine lastLine)

/-! ### Lines -/

/-- The text starts with a line end: with a newline or the end of the text, a carriage return in
front of it apart. -/
inductive Text.StartsLineEnd : Text → Prop
  | nil : StartsLineEnd []
  | newline (rest : Text) : StartsLineEnd (byte '\n' :: rest)
  | lastReturn : StartsLineEnd [byte '\r']
  | returnNewline (rest : Text) : StartsLineEnd (byte '\r' :: byte '\n' :: rest)

/-- The text in front of each of its lines. -/
theorem Text.exists_endsLine {text : Text} {i : Nat} (h : i ≤ text.count (byte '\n')) :
    ∃ front rest, text = front ++ rest ∧ EndsLine front ∧ front.count (byte '\n') = i := by
  -- induction on the text, for the end of line `i`
  induction text generalizing i with
  | nil => exact ⟨[], [], rfl, Or.inl rfl, (Nat.le_zero.mp h).symm⟩
  | cons b text ih =>
    cases i with
    | zero => exact ⟨[], b :: text, rfl, Or.inl rfl, rfl⟩
    | succ i =>
      -- a newline ends one of the lines counted, any other byte belongs to the first one
      by_cases hb : b = byte '\n'
      · subst hb
        rw [List.count_cons_self] at h
        obtain ⟨front, rest, rfl, hfront, hcount⟩ := ih (Nat.le_of_succ_le_succ h)
        refine ⟨byte '\n' :: front, rest, rfl, Or.inr ?_, by rw [List.count_cons_self, hcount]⟩
        rcases hfront with rfl | ⟨front, rfl⟩
        · exact ⟨[], rfl⟩
        · exact ⟨byte '\n' :: front, rfl⟩
      · rw [List.count_cons_of_ne hb] at h
        obtain ⟨front, rest, rfl, hfront, hcount⟩ := ih h
        refine ⟨b :: front, rest, rfl, Or.inr ?_, by rw [List.count_cons_of_ne hb, hcount]⟩
        rcases hfront with rfl | ⟨front, rfl⟩
        · cases hcount
        · exact ⟨b :: front, rfl⟩

/-- What is left of a text at its first newline, a carriage return in front of it dropped. -/
theorem Text.exists_lineEnd (text : Text) : ∃ left, StartsLineEnd left ∧
    text = dropTail [byte '\r'] (text.takeWhile (· != byte '\n')) ++ left := by
  have hsplit : text = text.takeWhile (· != byte '\n') ++ text.dropWhile (· != byte '\n') :=
    List.takeWhile_append_dropWhile.symm
  -- after the line comes a newline or nothing
  have hrest : text.dropWhile (· != byte '\n') = [] ∨
      ∃ rest, text.dropWhile (· != byte '\n') = byte '\n' :: rest := by
    cases hdrop : text.dropWhile (· != byte '\n') with
    | nil => exact Or.inl rfl
    | cons b rest =>
      have hne : text.dropWhile (· != byte '\n') ≠ [] := by simp [hdrop]
      have hhead := List.head_dropWhile_not (· != byte '\n') hne
      exact Or.inr ⟨rest, by simpa [hdrop] using hhead⟩
  generalize text.takeWhile (· != byte '\n') = line at hsplit ⊢
  generalize text.dropWhile (· != byte '\n') = rest at hsplit hrest
  subst hsplit
  -- the line ends in a return, or it has none to drop
  rcases dropTail_return line with ⟨content, rfl, hdrop⟩ | ⟨-, hdrop⟩ <;> rw [hdrop]
  · refine ⟨byte '\r' :: rest, ?_, by simp⟩
    rcases hrest with rfl | ⟨rest, rfl⟩
    · exact .lastReturn
    · exact .returnNewline rest
  · refine ⟨rest, ?_, rfl⟩
    rcases hrest with rfl | ⟨rest, rfl⟩
    · exact .nil
    · exact .newline rest

theorem Text.dropTail_prefix (tail text : Text) : dropTail tail text <+: text := by
  unfold dropTail
  split
  · exact List.take_prefix _ _
  · exact List.prefix_refl text

namespace Document

/-- **A line stands behind a line start and in front of a line end.** -/
theorem exists_line {doc : Document} {i : Int} (hi : 0 ≤ i) (hlt : i < doc.lineCount) :
    ∃ front left, EndsLine front ∧ (front.count (byte '\n') : Int) = i ∧
      byte '\n' ∉ doc.line i ∧ Text.StartsLineEnd left ∧
      doc.text = front ++ (doc.line i ++ left) := by
  obtain ⟨text⟩ := doc
  obtain ⟨n, rfl⟩ := Int.eq_ofNat_of_zero_le hi
  rw [lineCount_eq] at hlt
  obtain ⟨front, rest, rfl, hfront, rfl⟩ :=
    Text.exists_endsLine (Nat.le_of_lt_succ (Int.ofNat_lt.mp hlt))
  obtain ⟨left, hleft, hrest⟩ := Text.exists_lineEnd rest
  rw [line_of_endsLine hfront]
  refine ⟨front, left, hfront, rfl, fun hmem => ?_, hleft, congrArg (front ++ ·) hrest⟩
  -- a newline in the line would be one in the bytes taken before the first
  have hline := List.all_eq_true.mp List.all_takeWhile _ ((Text.dropTail_prefix _ _).subset hmem)
  simp at hline

/-- The offset of a column of a line that there is. -/
theorem offset_of_line {front line left : Text} (hfront : EndsLine front)
    (hline : (mk (front ++ (line ++ left))).line (front.count (byte '\n')) = line) (column : Int) :
    (mk (front ++ (line ++ left))).offset ⟨front.count (byte '\n'), column⟩ =
      front.length + min column.toNat line.length := by
  rw [offset_of_endsLine hfront, ← line_of_endsLine hfront, hline]

/-- **A place on a line that there is comes back from its offset**, with its column moved into the
content of the line. -/
theorem placeAt_offset {doc : Document} {p : Place} (hp : 0 ≤ p.line) (hlt : p.line < doc.lineCount) :
    doc.placeAt (doc.offset p) =
      ⟨p.line, (min p.character.toNat (doc.line p.line).length : Nat)⟩ := by
  obtain ⟨text⟩ := doc
  obtain ⟨line, column⟩ := p
  obtain ⟨front, left, hfront, hcount, hnl, -, htext⟩ := exists_line hp hlt
  dsimp only at hcount hnl htext ⊢
  generalize hline : (mk text).line line = content at hnl htext ⊢
  subst htext hcount
  rw [offset_of_line hfront hline]
  -- the content is cut at the column
  have hcolumn : byte '\n' ∉ content.take (min column.toNat content.length) :=
    fun hmem => hnl (List.mem_of_mem_take hmem)
  have hlength : (content.take (min column.toNat content.length)).length =
      min column.toNat content.length := List.length_take_of_le (Nat.min_le_right _ _)
  have hplace := placeAt_of_endsLine hfront hcolumn
    (content.drop (min column.toNat content.length) ++ left)
  rwa [← List.append_assoc (content.take _), List.take_append_drop, hlength] at hplace

/-- A place above the document is moved to its start. -/
theorem offset_of_neg {doc : Document} {p : Place} (h : p.line < 0) : doc.offset p = 0 := by
  unfold offset
  rw [if_pos h]

/-- A place below the document is moved to its end. -/
theorem offset_of_lineCount_le {doc : Document} {p : Place} (h : (doc.lineCount : Int) ≤ p.line) :
    doc.offset p = doc.text.length := by
  unfold offset
  rw [if_neg (by omega), if_pos h]

/-- No place leads out of the document. -/
theorem offset_le_length (doc : Document) (p : Place) : doc.offset p ≤ doc.text.length := by
  -- before the first line, after the last one, and on a line
  by_cases hneg : p.line < 0
  · rw [offset_of_neg hneg]
    exact Nat.zero_le _
  by_cases hend : (doc.lineCount : Int) ≤ p.line
  · rw [offset_of_lineCount_le hend]
  · obtain ⟨text⟩ := doc
    obtain ⟨line, column⟩ := p
    obtain ⟨front, left, hfront, hcount, -, -, htext⟩ :=
      exists_line (Int.not_lt.mp hneg) (Int.not_le.mp hend)
    dsimp only at hcount htext ⊢
    generalize hline : (mk text).line line = content at htext ⊢
    subst htext hcount
    rw [offset_of_line hfront hline, List.length_append, List.length_append]
    omega

/-- **Moving places into the document does not put them out of order.** -/
theorem offset_mono {doc : Document} {p q : Place} (h : q.before p = false) :
    doc.offset p ≤ doc.offset q := by
  have hlines : p.line ≤ q.line ∧ (p.line = q.line → p.character ≤ q.character) := by
    unfold Place.before at h
    split at h
    · next hline =>
      rw [decide_eq_false_iff_not] at h
      omega
    · next hline =>
      rw [decide_eq_false_iff_not] at h
      omega
  by_cases hneg : p.line < 0
  · rw [offset_of_neg hneg]
    exact Nat.zero_le _
  by_cases hend : (doc.lineCount : Int) ≤ q.line
  · rw [offset_of_lineCount_le hend]
    exact offset_le_length doc p
  -- otherwise both lines are there, and a place behind `q` would not lie before `p`
  by_contra hlt
  have hbefore := placeAt_before (Nat.not_le.mp hlt) (offset_le_length doc p)
  change (doc.placeAt (doc.offset q)).before (doc.placeAt (doc.offset p)) = true at hbefore
  rw [placeAt_offset (by omega) (by omega), placeAt_offset (by omega) (by omega)] at hbefore
  unfold Place.before at hbefore
  dsimp only at hbefore
  split at hbefore
  · next hline =>
    rw [decide_eq_true_eq, hline] at hbefore
    omega
  · rw [decide_eq_true_eq] at hbefore
    omega

/-! ### The way back -/

/-- Whether an offset stands right behind a carriage return that ends a line is told by its column
and by what follows. -/
theorem afterLineReturn_iff {front : Text} (hfront : EndsLine front) (column rest : Text) :
    AfterLineReturn (front ++ (column ++ rest)) (front.length + column.length) ↔
      column.getLast? = some (byte '\r') ∧ (rest.head? = some (byte '\n') ∨ rest = []) := by
  have hlast : (front ++ column).getLast? = some (byte '\r') ↔
      column.getLast? = some (byte '\r') := by
    cases hcolumn : column.getLast? with
    | some b => rw [List.getLast?_append, hcolumn, Option.some_or]
    | none =>
      -- the byte before a line start is a newline
      rw [List.getLast?_eq_none_iff.mp hcolumn, List.append_nil]
      have hne : byte '\n' ≠ byte '\r' := by decide
      rcases hfront with rfl | ⟨front, rfl⟩
      · rfl
      · simp [hne]
  have hend : front.length + column.length = (front ++ (column ++ rest)).length ↔ rest = [] := by
    rw [List.length_append, List.length_append, ← List.length_eq_zero_iff]
    omega
  unfold AfterLineReturn
  rw [hend, ← List.append_assoc, ← List.length_append, List.take_left, List.drop_left, hlast]

/-- **An offset comes back from its place**, unless it stands right behind a carriage return that
ends a line; that one comes back as the offset of the return. -/
theorem offset_placeAt {text : Text} {o : Nat} (ho : o ≤ text.length) :
    (mk text).offset ((mk text).placeAt o) = if AfterLineReturn text o then o - 1 else o := by
  obtain ⟨front, column, rest, hfront, hnl, rfl, rfl⟩ := exists_column_of_le ho
  have hiff := afterLineReturn_iff hfront column rest
  rw [placeAt_of_endsLine hfront hnl, offset_of_endsLine hfront, Int.toNat_natCast]
  split
  · next hreturn =>
    -- the content of the line is the column without its carriage return
    obtain ⟨hlast, hrest⟩ := hiff.mp hreturn
    obtain ⟨content, rfl⟩ := List.getLast?_eq_some_iff.mp hlast
    have hline : (content ++ [byte '\r'] ++ rest).takeWhile (· != byte '\n') =
        content ++ [byte '\r'] := by
      rw [List.takeWhile_append_of_pos fun b hb => by
        simpa using fun h : b = byte '\n' => hnl (h ▸ hb)]
      rcases hrest with hhead | rfl
      · obtain ⟨rest, rfl⟩ := List.head?_eq_some_iff.mp hhead
        simp
      · simp
    have hdrop : Text.dropTail [byte '\r'] (content ++ [byte '\r']) = content := by
      simp [Text.dropTail]
    rw [hline, hdrop, List.length_append, List.length_singleton]
    omega
  · next hreturn =>
    have hends : column.getLast? = some (byte '\r') → rest.head? ≠ some (byte '\n') ∧ rest ≠ [] :=
      fun hlast => ⟨fun hhead => hreturn (hiff.mpr ⟨hlast, Or.inl hhead⟩),
        fun hnil => hreturn (hiff.mpr ⟨hlast, Or.inr hnil⟩)⟩
    obtain ⟨tail, left, -, -, hline⟩ := exists_line_eq_append hnl hends
    rw [hline, List.length_append]
    omega

/-- **The place of an offset** counts the newlines before it and the bytes from the last offset that
starts a line. -/
theorem placeAt_spec {text : Text} {o : Nat} (ho : o ≤ text.length) :
    ∃ start, IsGreatest {s | s ≤ o ∧ EndsLine (text.take s)} start ∧
      (mk text).placeAt o = ⟨(text.take o).count (byte '\n'), (o : Int) - start⟩ := by
  obtain ⟨front, column, rest, hfront, hnl, rfl, rfl⟩ := exists_column_of_le ho
  refine ⟨front.length, ⟨⟨Nat.le_add_right _ _, by rwa [List.take_left]⟩, ?_⟩, ?_⟩
  · -- behind the start of the line there is no newline up to the offset
    rintro s ⟨hs, hends⟩
    by_contra hlt
    obtain ⟨n, rfl⟩ := Nat.exists_eq_add_of_le (Nat.le_of_not_le hlt)
    rw [List.take_length_add_append, List.take_append_of_le_length (by omega)] at hends
    have hne : column.take n ≠ [] := by
      refine List.ne_nil_of_length_pos ?_
      rw [List.length_take]
      omega
    rcases hends with hnil | ⟨before, hbefore⟩
    · exact hne (List.append_eq_nil_iff.mp hnil).2
    · have hlast : (column.take n).getLast? = some (byte '\n') := by
        rw [← List.getLast?_append_of_ne_nil front hne, hbefore, List.getLast?_concat]
      exact hnl (List.mem_of_mem_take (List.mem_of_getLast? hlast))
  · rw [placeAt_of_endsLine hfront hnl, ← List.append_assoc, ← List.length_append, List.take_left,
      List.count_append, List.count_eq_zero_of_not_mem hnl, List.length_append, Int.natCast_add]
    congr 1
    omega

end Document

/-- **Offsets and places are inverse to each other, up to the carriage returns that end lines.** The
place of an offset counts the newlines before it and the bytes from the last line start, and places
are in the order of their offsets. An offset comes back from its place, but for one right behind a
carriage return that ends a line or the text, which comes back one byte earlier. A place on a line
that there is, with a column in the content of the line, comes back from its offset. Any places at
all have offsets inside the text that are in the order of the places. -/
theorem offsets_places_inverse (text : Text) :
    (∀ o ≤ text.length, ∃ start, IsGreatest {s | s ≤ o ∧ EndsLine (text.take s)} start ∧
      (Document.mk text).placeAt o = ⟨(text.take o).count (byte '\n'), (o : Int) - start⟩) ∧
    (∀ a b : Nat, a < b → b ≤ text.length →
      ((Document.mk text).placeAt a).before ((Document.mk text).placeAt b) = true) ∧
    (∀ o ≤ text.length, (Document.mk text).offset ((Document.mk text).placeAt o) =
      if AfterLineReturn text o then o - 1 else o) ∧
    (∀ p : Place, 0 ≤ p.line → p.line < (Document.mk text).lineCount → 0 ≤ p.character →
      p.character ≤ ((Document.mk text).line p.line).length →
      (Document.mk text).placeAt ((Document.mk text).offset p) = p) ∧
    ∀ p q : Place, q.before p = false →
      (Document.mk text).offset p ≤ (Document.mk text).offset q ∧
        (Document.mk text).offset q ≤ text.length := by
  refine ⟨fun o ho => Document.placeAt_spec ho, fun a b hab hb => Document.placeAt_before hab hb,
    fun o ho => Document.offset_placeAt ho, fun p hline hlt hcolumn hle => ?_,
    fun p q h => ⟨Document.offset_mono h, Document.offset_le_length _ q⟩⟩
  rw [Document.placeAt_offset hline hlt, Nat.min_eq_left (by omega)]
  have hcharacter : ((p.character.toNat : Nat) : Int) = p.character := Int.toNat_of_nonneg hcolumn
  rw [hcharacter]

/-- The offset between the bytes of a line end comes back one byte earlier, the end of the second
line comes back as it is, and places on either side of the document are moved into it in order. -/
theorem offsets_places_inverse_lineEnd :
    let doc : Document := ⟨Text.ofString "a\r\nbc\r"⟩
    (doc.placeAt 2).before (doc.placeAt 3) = true ∧ doc.offset (doc.placeAt 2) = 1 ∧
      doc.placeAt (doc.offset ⟨1, 2⟩) = ⟨1, 2⟩ ∧ doc.offset ⟨-1, 7⟩ ≤ doc.offset ⟨1, -3⟩ := by
  intro doc
  obtain ⟨-, hordered, hback, hplace, hmono⟩ := offsets_places_inverse doc.text
  have hreturn : AfterLineReturn doc.text 2 := by decide
  refine ⟨hordered 2 3 (by decide) (by decide), ?_,
    hplace ⟨1, 2⟩ (by decide) (by decide) (by decide) (by decide), (hmono _ _ (by decide)).1⟩
  exact (hback 2 (by decide)).trans (if_pos hreturn)

end ViewLint
