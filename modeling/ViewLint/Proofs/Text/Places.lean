import ViewLint.Proofs.Text.Lines

/-!
# The places of a text

The place of an offset depends on the bytes before it only: it is the place at which those bytes end
(`Document.placeAt_eq`). That is what halving the line index finds, because the lines up to that of
the offset start no later than the offset, and the others behind it (`firstIndex_eq`). Bytes without
a newline move a place along its line (`endPlace_append`), and any byte moves it on
(`endPlace_before`), so that offsets and places are in the same order (`Document.placeAt_before`).
-/

namespace ViewLint

open Text (byte EndsLine lastLine)

namespace Text

namespace Bytewise

/-- What holds of all bytes of a text is decided by going through the text, and not through all the
bytes that there are. -/
scoped instance (priority := high) decidableForallMem {α : Type} (p : α → Prop) [DecidablePred p]
    (l : List α) : Decidable (∀ a ∈ l, p a) := List.decidableBAll p l

end Bytewise

theorem lastLine_append {front rest : Text} (h : byte '\n' ∉ rest) :
    lastLine (front ++ rest) = lastLine front ++ rest := by
  unfold lastLine
  have hall : ∀ b ∈ rest.reverse, (b != byte '\n') = true := by
    intro b hb
    simpa using fun heq : b = byte '\n' => h (heq ▸ List.mem_reverse.mp hb)
  rw [List.reverse_append, List.takeWhile_append_of_pos hall, List.reverse_append,
    List.reverse_reverse]

theorem lastLine_newline (front : Text) : lastLine (front ++ [byte '\n']) = [] := by
  unfold lastLine
  rw [List.reverse_append, List.reverse_singleton, List.singleton_append,
    List.takeWhile_cons_of_neg (by simp)]
  rfl

end Text

/-- **Halving finds the first index at which a test holds** that fails before it and holds from
there on. -/
theorem firstIndex_eq {test : Nat → Bool} {low high index : Nat} (hlow : low ≤ index)
    (hhigh : index ≤ high) (hbefore : ∀ i < index, test i = false)
    (hfrom : ∀ i, index ≤ i → i < high → test i = true) : firstIndex test low high = index := by
  fun_induction firstIndex test low high with
  | case1 low high hlt middle htest ih =>
    -- the test holds in the middle, so the index is not behind it
    have hmiddle : middle < high := by omega
    refine ih hlow ?_ fun i hi himiddle => hfrom i hi (Nat.lt_trans himiddle hmiddle)
    by_contra hindex
    rw [hbefore middle (Nat.not_le.mp hindex)] at htest
    cases htest
  | case2 low high hlt middle htest ih =>
    refine ih ?_ hhigh hfrom
    by_contra hindex
    exact htest (hfrom middle (by omega) (by omega))
  | case3 low high hle => omega

namespace Document

/-- An offset lies behind the column that leads to it from a line start. -/
theorem exists_column_of_le {text : Text} {o : Nat} (ho : o ≤ text.length) :
    ∃ front column rest, EndsLine front ∧ byte '\n' ∉ column ∧ text = front ++ (column ++ rest) ∧
      o = front.length + column.length := by
  obtain ⟨front, hfront, hbefore⟩ := Text.exists_append_lastLine (text.take o)
  refine ⟨front, lastLine (text.take o), text.drop o, hfront, Text.not_mem_lastLine _, ?_, ?_⟩
  · rw [← List.append_assoc, ← hbefore, List.take_append_drop]
  · rw [← List.length_append, ← hbefore, List.length_take_of_le ho]

/-- The index of a text that is cut inside a line: the lines up to that of the cut, and those behind
the cut. -/
theorem lineStarts_of_column (front : Text) {column : Text} (hnl : byte '\n' ∉ column)
    (rest : Text) : (mk (front ++ (column ++ rest))).lineStarts =
      (mk front).lineStarts ++ startsFrom (front.length + column.length) rest := by
  have hcolumn : startsFrom front.length column = [] := by
    rw [← List.length_eq_zero_iff, length_startsFrom, List.count_eq_zero_of_not_mem hnl]
  rw [lineStarts_append, startsFrom_append, hcolumn, List.nil_append]

/-- **Halving the line index finds the line of an offset**, and the distance from its start is the
column. -/
theorem placeAt_of_endsLine {front column : Text} (h : EndsLine front) (hnl : byte '\n' ∉ column)
    (rest : Text) :
    (mk (front ++ (column ++ rest))).placeAt (front.length + column.length : Nat) =
      ⟨front.count (byte '\n'), column.length⟩ := by
  have hoffset : min (front.length + column.length) (front ++ (column ++ rest)).length =
      front.length + column.length := by
    rw [List.length_append, List.length_append]
    omega
  have hlength : (mk front).lineStarts.length = front.count (byte '\n') + 1 := by
    rw [length_lineStarts, lineCount_eq]
  -- the lines of the first part start no later than the offset, the others behind it
  have hfirst : firstIndex (fun i => decide (front.length + column.length <
        ((mk front).lineStarts ++ startsFrom (front.length + column.length) rest).getD i 0)) 0
      ((mk front).lineStarts ++ startsFrom (front.length + column.length) rest).length =
        front.count (byte '\n') + 1 := by
    refine firstIndex_eq (Nat.zero_le _) ?_ (fun i hi => ?_) fun i hi hlt => ?_
    · rw [List.length_append, hlength]
      exact Nat.le_add_right _ _
    · rw [← hlength] at hi
      rw [List.getD_eq_getElem?_getD, List.getElem?_append_left hi, List.getElem?_eq_getElem hi,
        Option.getD_some, decide_eq_false_iff_not]
      have hle := le_of_mem_lineStarts (List.getElem_mem hi)
      dsimp only at hle
      omega
    · rw [← hlength] at hi
      rw [List.length_append] at hlt
      have hi' : i - (mk front).lineStarts.length <
          (startsFrom (front.length + column.length) rest).length := by omega
      rw [List.getD_eq_getElem?_getD, List.getElem?_append_right hi, List.getElem?_eq_getElem hi',
        Option.getD_some, decide_eq_true_eq]
      exact (bounds_startsFrom (List.getElem_mem hi')).1
  have hstart : ((mk front).lineStarts ++
      startsFrom (front.length + column.length) rest).getD (front.count (byte '\n')) 0 =
        front.length := by
    rw [← lineStarts_of_column front hnl]
    exact lineStart_of_endsLine h _
  unfold placeAt
  dsimp only
  rw [Int.toNat_natCast, hoffset, lineStarts_of_column front hnl, hfirst, Nat.add_sub_cancel,
    hstart, Int.natCast_add, Int.add_comm, Int.add_sub_cancel]

end Document

/-- The place at the end of a text. -/
def endPlace (text : Text) : Place := ⟨text.count (byte '\n'), (lastLine text).length⟩

theorem Document.placeAt_eq (text : Text) (offset : Nat) :
    (Document.mk text).placeAt offset = endPlace (text.take offset) := by
  obtain ⟨front, hfront, hbefore⟩ := Text.exists_append_lastLine (text.take offset)
  have hnl := Text.not_mem_lastLine (text.take offset)
  have hline : (text.take offset).count (byte '\n') = front.count (byte '\n') := by
    conv_lhs => rw [hbefore]
    rw [List.count_append, List.count_eq_zero_of_not_mem hnl, Nat.add_zero]
  -- an offset beyond the text is that of its end
  have hclamp : (mk text).placeAt offset =
      (mk text).placeAt (front.length + (lastLine (text.take offset)).length : Nat) := by
    rw [← List.length_append, ← hbefore, List.length_take]
    unfold placeAt
    dsimp only
    rw [Int.toNat_natCast, Int.toNat_natCast, Nat.min_assoc, Nat.min_self]
  have hsplit : text = front ++ (lastLine (text.take offset) ++ text.drop offset) := by
    rw [← List.append_assoc, ← hbefore, List.take_append_drop]
  rw [hclamp, endPlace, hline]
  generalize lastLine (text.take offset) = column at hnl hsplit ⊢
  rw [hsplit, placeAt_of_endsLine hfront hnl]

/-- The place of a cut is the place at which the first part ends. -/
theorem Document.placeAt_append {front : Text} (rest : Text) {offset : Nat}
    (h : offset = front.length) : (Document.mk (front ++ rest)).placeAt offset = endPlace front := by
  rw [placeAt_eq, h, List.take_left]

theorem endPlace_append {front rest : Text} (h : byte '\n' ∉ rest) :
    endPlace (front ++ rest) =
      ⟨(endPlace front).line, (endPlace front).character + rest.length⟩ := by
  unfold endPlace
  rw [Text.lastLine_append h, List.length_append, List.count_append,
    List.count_eq_zero_of_not_mem h, Nat.add_zero, Int.natCast_add]

/-- **Every byte moves the place on.** -/
theorem endPlace_before (front : Text) {rest : Text} (h : rest ≠ []) :
    (endPlace front).before (endPlace (front ++ rest)) = true := by
  by_cases hnl : byte '\n' ∈ rest
  · have hcount : 0 < rest.count (byte '\n') := List.count_pos_iff.mpr hnl
    unfold endPlace Place.before
    simp only [List.count_append]
    rw [if_neg (by omega), decide_eq_true_eq]
    omega
  · have hpos := List.length_pos_iff.mpr h
    rw [endPlace_append hnl]
    unfold Place.before
    simp only [if_true, decide_eq_true_eq]
    omega

theorem Document.placeAt_before {text : Text} {a b : Nat} (hab : a < b) (hb : b ≤ text.length) :
    ((Document.mk text).placeAt a).before ((Document.mk text).placeAt b) = true := by
  have hsplit : text.take b = text.take a ++ (text.drop a).take (b - a) := by
    rw [← List.take_add, Nat.add_sub_cancel' (Nat.le_of_lt hab)]
  rw [placeAt_eq, placeAt_eq, hsplit]
  refine endPlace_before _ (List.ne_nil_of_length_pos ?_)
  rw [List.length_take, List.length_drop]
  omega

theorem Place.ne_of_before {p q : Place} (h : p.before q = true) : p ≠ q := by
  rintro rfl
  unfold Place.before at h
  simp at h

theorem Place.not_before_of_before {p q : Place} (h : p.before q = true) : q.before p = false := by
  unfold Place.before at h ⊢
  split at h
  · next hline =>
    rw [decide_eq_true_eq] at h
    rw [if_pos hline.symm, decide_eq_false_iff_not]
    omega
  · next hline =>
    rw [decide_eq_true_eq] at h
    rw [if_neg (Ne.symm hline), decide_eq_false_iff_not]
    omega

/-- **Offsets and places are in the same order.** -/
theorem Document.placeAt_before_iff {text : Text} {a b : Nat} (ha : a ≤ text.length)
    (hb : b ≤ text.length) :
    ((Document.mk text).placeAt a).before ((Document.mk text).placeAt b) = true ↔ a < b := by
  refine ⟨fun h => ?_, fun h => placeAt_before h hb⟩
  by_contra hle
  rcases Nat.lt_or_eq_of_le (Nat.not_lt.mp hle) with hlt | rfl
  · rw [Place.not_before_of_before (placeAt_before hlt ha)] at h
    cases h
  · exact Place.ne_of_before h rfl

theorem Document.placeAt_inj {text : Text} {a b : Nat} (ha : a ≤ text.length)
    (hb : b ≤ text.length)
    (h : (Document.mk text).placeAt a = (Document.mk text).placeAt b) : a = b := by
  rcases Nat.lt_trichotomy a b with hlt | heq | hgt
  · exact absurd h (Place.ne_of_before (placeAt_before hlt hb))
  · exact heq
  · exact absurd h.symm (Place.ne_of_before (placeAt_before hgt ha))

end ViewLint
