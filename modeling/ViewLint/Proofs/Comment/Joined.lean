import ViewLint.Proofs.Comment.Strip

/-!
# Comments across a line break

Two texts are joined by a line break. If the scan of the first text ends outside strings, and no comment
of the first text is left open, the comments of the whole are those of the two texts, each where it was
(`scan_append_newline`). So an edit on one side of the break does not change the comments on the other.

The scan looks in both directions, and the break stops both looks.

* Ahead. An opener does not reach over a line break, and a comment that is terminated in the first text
  ends where it did (`Span.EndsRight.append_newline`). So at each place of the first text the same
  comment is found, whatever stands behind the break (`at?_append_newline`), and the scan of the whole
  goes through the same states (`stateAt_append_newline`).
* Behind. At the break the scan is outside strings and comments, so no backslash in front of it counts;
  and a hash may follow a line break as it may follow nothing (`spansFrom_newline`). From there on the
  scan is that of the second text, at other offsets (`spansFrom_add`).
-/

namespace ViewLint.Comment

open Text (byte)

/-- The comment, moved towards the end of the text. -/
def Span.shift (n : Nat) (s : Span) : Span := { s with start := s.start + n, stop := s.stop + n }

/-! ### Looking ahead -/

theorem LineEndAt.append_newline {text : Text} {start offset : Nat} (h : LineEndAt text start offset)
    (rest : Text) : LineEndAt (text ++ byte '\n' :: rest) start offset := by
  have hlen := h.le_length
  obtain ⟨hle, hat, hfirst⟩ := h
  refine ⟨hle, Or.inr ?_, fun o ho hlt => ?_⟩
  · rcases hat with rfl | hat
    · -- a line that ended with the text ends with the break now
      rw [List.getElem?_append_right (Nat.le_refl _), Nat.sub_self, List.getElem?_cons_zero]
    · obtain ⟨hin, -⟩ := List.getElem?_eq_some_iff.mp hat
      rwa [List.getElem?_append_left hin]
  · rw [List.getElem?_append_left (by omega)]
    exact hfirst o ho hlt

/-- **A comment that is terminated ends where it did.** -/
theorem Span.EndsRight.append_newline {text : Text} {s : Span} (h : s.EndsRight text)
    (hterm : s.terminated = true) (rest : Text) : s.EndsRight (text ++ byte '\n' :: rest) := by
  unfold EndsRight at h ⊢
  cases hc : s.kind.closer? with
  | none =>
    rw [hc] at h
    exact ⟨h.1, h.2.append_newline rest⟩
  | some closer =>
    rw [hc] at h
    simp only [hterm, if_true] at h ⊢
    obtain ⟨o, hfirst, hstop⟩ := h
    exact ⟨o, hfirst.append _, hstop⟩

theorem Kind.newline_not_mem_opener (kind : Kind) : byte '\n' ∉ kind.opener := by
  cases kind <;> decide

theorem Found.span_inj {f g : Found} {offset : Nat} (h : f.span offset = g.span offset) : f = g := by
  obtain ⟨kind, length, terminated⟩ := f
  obtain ⟨kind', length', terminated'⟩ := g
  obtain ⟨hkind, -, hstop, hterm⟩ := Span.mk.inj h
  simp only [Found.mk.injEq]
  exact ⟨hkind, Nat.add_left_cancel hstop, hterm⟩

/-- **What stands behind the next line break does not matter** for the comment that starts here, if it
is terminated in front of the break. -/
theorem at?_append_newline {previous : Option UInt8} {text : Text}
    (hterm : ∀ f, at? previous text = some f → f.terminated = true) (rest : Text) :
    at? previous (text ++ byte '\n' :: rest) = at? previous text := by
  cases hat : at? previous text with
  | none =>
    cases hall : at? previous (text ++ byte '\n' :: rest) with
    | none => rfl
    | some g =>
      -- the opener does not reach over the break, so that it is overlooked in the text alone
      obtain ⟨hopener, hhash, -⟩ := at?_eq_some hall
      have hbefore := Text.prefix_of_not_mem hopener g.kind.newline_not_mem_opener
      obtain ⟨hkind, hspace⟩ := at?_eq_none hat hbefore
      exact absurd (hhash hkind) (by rw [hspace]; exact Bool.false_ne_true)
  | some f =>
    obtain ⟨hopener, hhash, hends⟩ := at?_eq_some hat
    have hopens : f.kind.opener <+: text ++ byte '\n' :: rest :=
      hopener.trans (List.prefix_append _ _)
    cases hall : at? previous (text ++ byte '\n' :: rest) with
    | none =>
      obtain ⟨hkind, hspace⟩ := at?_eq_none hall hopens
      exact absurd (hhash hkind) (by rw [hspace]; exact Bool.false_ne_true)
    | some g =>
      -- both are comments of one kind in the whole text, and so they have the same end
      obtain ⟨hopener', -, hends'⟩ := at?_eq_some hall
      have hkind : g.kind = f.kind := Kind.eq_of_opener hopener' hopens
      have hspan : g.span 0 = f.span 0 :=
        hends'.eq (hends.append_newline (hterm f hat) rest) hkind rfl
      rw [Found.span_inj hspan]

/-- One byte of the scan in front of a line break. -/
theorem State.step_append_newline {st : State} {b : UInt8} {text : Text}
    (hterm : ∀ f, st.found? (b :: text) = some f → f.terminated = true) (rest : Text) :
    st.found? (b :: (text ++ byte '\n' :: rest)) = st.found? (b :: text) ∧
      st.next b (text ++ byte '\n' :: rest) = st.next b text := by
  cases st with
  -- a comment or a string goes on whatever the text after it is
  | comment left => exact ⟨rfl, rfl⟩
  | quoted quote odd => exact ⟨rfl, rfl⟩
  | code previous =>
    unfold found? next at *
    dsimp only at hterm ⊢
    by_cases hquote : isQuote b = true
    · -- at a quote no delimiter is tried
      simp only [if_pos hquote, and_self]
    · -- a delimiter finds the same comment, as that one ends within the line
      simp only [if_neg hquote] at hterm ⊢
      have hat := at?_append_newline hterm rest
      rw [List.cons_append] at hat
      rw [hat]
      exact ⟨rfl, rfl⟩

section Ahead

variable {text : Text} (hterm : ∀ s ∈ spans text, s.terminated = true) (rest : Text)

include hterm

theorem step_stateAt_append_newline {offset : Nat} (ho : offset < text.length) :
    (stateAt text offset).found? (text[offset] :: (text.drop (offset + 1) ++ byte '\n' :: rest)) =
        (stateAt text offset).found? (text[offset] :: text.drop (offset + 1)) ∧
      (stateAt text offset).next text[offset] (text.drop (offset + 1) ++ byte '\n' :: rest) =
        (stateAt text offset).next text[offset] (text.drop (offset + 1)) := by
  refine State.step_append_newline (fun f hf => ?_) rest
  -- what is found here is a comment of the first text
  have hspan : spanAt? text offset = some (f.span offset) := by
    rw [spanAt?_eq ho, hf]
    rfl
  exact hterm (f.span offset) (mem_spans_iff.mpr hspan)

/-- **Up to the break the scan goes through the states of the first text.** -/
theorem stateAt_append_newline {offset : Nat} (ho : offset ≤ text.length) :
    stateAt (text ++ byte '\n' :: rest) offset = stateAt text offset := by
  induction offset with
  | zero => rfl
  | succ offset ih =>
    have hlt : offset < text.length := ho
    have hall : offset < (text ++ byte '\n' :: rest).length := by
      rw [List.length_append]
      omega
    rw [stateAt_succ hall, stateAt_succ hlt, ih hlt.le, List.getElem_append_left hlt,
      List.drop_append_of_le_length ho]
    exact (step_stateAt_append_newline hterm rest hlt).2

theorem spanAt?_append_newline {offset : Nat} (ho : offset < text.length) :
    spanAt? (text ++ byte '\n' :: rest) offset = spanAt? text offset := by
  have hall : offset < (text ++ byte '\n' :: rest).length := by
    rw [List.length_append]
    omega
  rw [spanAt?_eq hall, spanAt?_eq ho, stateAt_append_newline hterm rest ho.le,
    List.getElem_append_left ho, List.drop_append_of_le_length ho,
    (step_stateAt_append_newline hterm rest ho).1]

end Ahead

/-! ### Looking behind -/

/-- From another offset on, the scan finds the same comments, moved. -/
theorem spansFrom_add (st : State) (offset n : Nat) (text : Text) :
    spansFrom st (offset + n) text = (spansFrom st offset text).map (Span.shift n) := by
  induction text generalizing st offset with
  | nil =>
    rw [spansFrom, spansFrom]
    rfl
  | cons b text ih =>
    -- induction on the text: the comment found at its front is moved by `n`, the rest by `ih`
    have hfound : ∀ f : Found, f.span (offset + n) = (f.span offset).shift n := by
      intro f
      show (⟨f.kind, offset + n, offset + n + f.length, f.terminated⟩ : Span) =
        ⟨f.kind, offset + n, offset + f.length + n, f.terminated⟩
      rw [Nat.add_right_comm]
    rw [spansFrom_cons, spansFrom_cons, List.map_append, ← ih, Nat.add_right_comm offset n 1]
    congr 1
    cases st.found? (b :: text) with
    | none => rfl
    | some f => exact congrArg (fun s => [s]) (hfound f)

/-- A line break counts as much as the start of a text. -/
theorem spansFrom_newline (offset : Nat) (text : Text) :
    spansFrom (.code (some (byte '\n'))) offset text = spansFrom (.code none) offset text := by
  have hspace : (some (byte '\n')).all Text.isSpace = (none : Option UInt8).all Text.isSpace := by
    decide
  have hat : ∀ u, at? (some (byte '\n')) u = at? none u := by
    intro u
    unfold at?
    rw [hspace]
  cases text with
  | nil => rfl
  | cons b text =>
    rw [spansFrom, spansFrom, hat]

/-- No comment starts at a line break. -/
theorem at?_newline (previous : Option UInt8) (rest : Text) :
    at? previous (byte '\n' :: rest) = none := by
  cases hat : at? previous (byte '\n' :: rest) with
  | none => rfl
  | some f =>
    obtain ⟨b, hhead, hne, -⟩ := exists_head?_of_opener (at?_eq_some hat).1
    exact absurd (Option.some.inj hhead).symm hne

/-- At the end of a text the scan has passed over all its comments. -/
theorem exists_stateAt_length {text : Text} (hquote : quoteAt text (spans text) text.length = none) :
    ∃ previous, stateAt text text.length = .code previous := by
  have htracks := tracks_stateAt (Nat.le_refl text.length)
  cases hst : stateAt text text.length with
  | code previous => exact ⟨previous, rfl⟩
  | quoted q odd =>
    rw [hst] at htracks
    exact absurd (htracks.quote.symm.trans hquote) (Option.some_ne_none q)
  | comment left =>
    -- there would be a comment that goes on behind the end
    rw [hst] at htracks
    obtain ⟨hpos, s, hs, -, hstop⟩ := htracks.within left rfl
    have hin := (isSegmentation_spans text).inside s hs
    omega

/-- **The comments on the two sides of a line break.** -/
theorem spans_joined {text : Text} (hquote : quoteAt text (spans text) text.length = none)
    (hterm : ∀ s ∈ spans text, s.terminated = true) (rest : Text) :
    spans (text ++ byte '\n' :: rest) =
      spans text ++ (spans rest).map (Span.shift (text.length + 1)) := by
  let whole := text ++ byte '\n' :: rest
  have hlen : whole.length = text.length + (rest.length + 1) := List.length_append
  obtain ⟨previous, hend⟩ := exists_stateAt_length hquote
  -- in front of the break
  have hfront : (List.range' 0 text.length).filterMap (spanAt? whole) = spans text := by
    rw [spans_eq_filterMap, List.range_eq_range']
    refine List.filterMap_congr fun o ho => ?_
    exact spanAt?_append_newline hterm rest (by simpa using ho)
  -- at the break and behind it
  have hback : (List.range' text.length (rest.length + 1)).filterMap (spanAt? whole) =
      (spans rest).map (Span.shift (text.length + 1)) := by
    have hdrop : whole.drop text.length = byte '\n' :: rest := List.drop_left
    calc (List.range' text.length (rest.length + 1)).filterMap (spanAt? whole)
        = spansFrom (stateAt whole text.length) text.length (whole.drop text.length) :=
          (spansFrom_stateAt whole _ _ hlen.symm).symm
      _ = spansFrom (.code previous) text.length (byte '\n' :: rest) := by
          rw [stateAt_append_newline hterm rest (Nat.le_refl _), hend, hdrop]
      _ = spansFrom (.code (some (byte '\n'))) (text.length + 1) rest := by
          rw [spansFrom, if_neg (by decide), at?_newline]
      _ = spansFrom (.code none) (0 + (text.length + 1)) rest := by
          rw [spansFrom_newline, Nat.zero_add]
      _ = (spans rest).map (Span.shift (text.length + 1)) := spansFrom_add _ _ _ _
  have hrange : List.range whole.length =
      List.range' 0 text.length ++ List.range' text.length (rest.length + 1) := by
    have happend := List.range'_append_1 (s := 0) (m := text.length) (n := rest.length + 1)
    rw [Nat.zero_add] at happend
    rw [hlen, List.range_eq_range', happend]
  show spans whole = _
  rw [spans_eq_filterMap, hrange, List.filterMap_append, hfront, hback]

/-! ### Blanking -/

theorem outside_map_shift {ss : List Span} {offset n : Nat} :
    Outside (ss.map (Span.shift n)) (offset + n) ↔ Outside ss offset := by
  unfold Outside
  rw [List.forall_mem_map]
  refine forall₂_congr fun s _ => ?_
  show offset + n < s.start + n ∨ s.stop + n ≤ offset + n ↔ offset < s.start ∨ s.stop ≤ offset
  rw [Nat.add_lt_add_iff_right, Nat.add_le_add_iff_right]

/-- The comments of the second text cover nothing up to the break, those of the first one nothing
from the break on. -/
theorem outside_joined {text rest : Text} {offset : Nat} :
    (offset ≤ text.length → (Outside (spans text ++ (spans rest).map (Span.shift (text.length + 1)))
      offset ↔ Outside (spans text) offset)) ∧
    (Outside (spans text ++ (spans rest).map (Span.shift (text.length + 1)))
      (offset + (text.length + 1)) ↔ Outside (spans rest) offset) := by
  rw [outside_append, outside_append, outside_map_shift]
  constructor
  · -- the comments of `rest` begin after every offset of `text`
    intro ho
    refine and_iff_left (List.forall_mem_map.mpr fun s _ => Or.inl ?_)
    show offset < s.start + (text.length + 1)
    omega
  · -- the comments of `text` end before every offset of `rest`
    refine and_iff_right fun s hs => Or.inr ?_
    have hin := (isSegmentation_spans text).inside s hs
    omega

theorem strip_joined {text rest : Text}
    (hspans : spans (text ++ byte '\n' :: rest) =
      spans text ++ (spans rest).map (Span.shift (text.length + 1))) :
    strip (text ++ byte '\n' :: rest) = strip text ++ byte '\n' :: strip rest := by
  ext1 o
  rw [getElem?_strip, hspans]
  rcases Nat.lt_trichotomy o text.length with hfront | rfl | hback
  · rw [List.getElem?_append_left hfront, List.getElem?_append_left (by rwa [length_strip]),
      getElem?_strip]
    congr 1
    exact blankAt_congr (outside_joined.1 hfront.le)
  · -- the break itself is a newline, and those stay
    rw [List.getElem?_append_right (Nat.le_refl _), Nat.sub_self, List.getElem?_cons_zero,
      List.getElem?_append_right (by rw [length_strip]), length_strip, Nat.sub_self,
      List.getElem?_cons_zero]
    exact congrArg some (if_pos (Or.inr rfl))
  · obtain ⟨k, rfl⟩ : ∃ k, o = k + (text.length + 1) := ⟨o - (text.length + 1), by omega⟩
    have hbehind : ∀ {u v : Text}, u.length = text.length →
        (u ++ byte '\n' :: v)[k + (text.length + 1)]? = v[k]? := by
      intro u v hu
      rw [List.getElem?_append_right (by omega), hu, ← Nat.add_assoc, Nat.add_right_comm,
        Nat.add_sub_cancel, List.getElem?_cons_succ]
    rw [hbehind rfl, hbehind (length_strip text), getElem?_strip]
    congr 1
    exact blankAt_congr outside_joined.2

/-- **The scan is compositional at line breaks.** Let the scan of a text end outside strings, with no
comment of the text left open. Whatever stands behind a line break after it, the comments of the whole
are those of the text, followed by those of the rest at their places, and the two sides are blanked
apart. In particular the comments in front of the break depend on the text alone, and the comments
behind it on the rest alone. -/
theorem scan_append_newline (text rest : Text)
    (hquote : quoteAt text (spans text) text.length = none)
    (hterm : ∀ s ∈ spans text, s.terminated = true) :
    spans (text ++ byte '\n' :: rest) =
        spans text ++ (spans rest).map (Span.shift (text.length + 1)) ∧
      strip (text ++ byte '\n' :: rest) = strip text ++ byte '\n' :: strip rest ∧
      (spans (text ++ byte '\n' :: rest)).filter (·.start ≤ text.length) = spans text ∧
      (spans (text ++ byte '\n' :: rest)).filter (text.length < ·.start) =
        (spans rest).map (Span.shift (text.length + 1)) := by
  have hspans := spans_joined hquote hterm rest
  -- the comments of `text` begin in it, the others behind it, so the bound keeps one list each
  have hfront : ∀ s ∈ spans text, s.start ≤ text.length := fun s hs =>
    have hseg := isSegmentation_spans text
    ((hseg.nonempty s hs).trans_le (hseg.inside s hs)).le
  have hback : ∀ s ∈ (spans rest).map (Span.shift (text.length + 1)), text.length < s.start :=
    List.forall_mem_map.mpr fun s _ => Nat.lt_of_lt_of_le (Nat.lt_succ_self _) (Nat.le_add_left _ _)
  refine ⟨hspans, strip_joined hspans, ?_, ?_⟩
  · rw [hspans, List.filter_append, List.filter_eq_self.mpr (by simpa using hfront),
      List.filter_eq_nil_iff.mpr (by simpa using hback), List.append_nil]
  · rw [hspans, List.filter_append, List.filter_eq_nil_iff.mpr (by simpa using hfront),
      List.filter_eq_self.mpr (by simpa using hback), List.nil_append]

/-- A line comment ends at the break, with an escaped quote and a block comment in front of it; behind
the break a hash comes first, and a string is left open. -/
theorem scan_append_newline_hash :
    let text := Text.ofString "'a\\'b' /* ' */ // \""
    let rest := Text.ofString "# c\n\"//"
    quoteAt text (spans text) text.length = none ∧ (∀ s ∈ spans text, s.terminated = true) ∧
      spans (text ++ byte '\n' :: rest) =
        [⟨.block, 7, 14, true⟩, ⟨.line, 15, 19, true⟩, ⟨.hash, 20, 23, true⟩] ∧
      strip (text ++ byte '\n' :: rest) = Text.ofString "'a\\'b'             \n   \n\"//" := by
  intro text rest
  have hquote : quoteAt text (spans text) text.length = none := by decide +kernel
  have hterm : ∀ s ∈ spans text, s.terminated = true := by decide +kernel
  obtain ⟨hspans, hstrip, -⟩ := scan_append_newline text rest hquote hterm
  refine ⟨hquote, hterm, ?_, ?_⟩
  · rw [hspans]
    decide +kernel
  · rw [hstrip]
    decide +kernel

end ViewLint.Comment
