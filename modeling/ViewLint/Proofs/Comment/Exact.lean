import Mathlib.Tactic.Common
import ViewLint.Proofs.Comment.Found

/-!
# The scan finds the comments

`spans_eq_iff`: the scan returns the segmentation of its text (`IsSegmentation`) and nothing else.

The scan carries a state from byte to byte. `stateAt text offset` is that state, as a function of
the offset, and `spanAt? text offset` the span that starts there, so that the spans are those of all
offsets in order (`spans_eq_filterMap`). What the state knows is then a statement about a fixed
list of spans, the final one (`Tracks`): the quote that is open, how far the spans before the offset
reach, the byte before it, the parity of the backslashes before it. One step keeps it
(`Tracks.step`), so that it holds at every offset (`tracks_stateAt`), and each part of a
segmentation is read off the state at the start of a span or at an offset outside all spans.
-/

namespace ViewLint.Comment

open Text (byte)

/-! ### The states of the scan -/

namespace State

/-- The comment that a scan in this state finds at the start of a text. -/
def found? : State → Text → Option Found
  | code previous, b :: rest => if isQuote b then none else at? previous (b :: rest)
  | _, _ => none

/-- The state behind the byte `b`, with `rest` after it. -/
def next (b : UInt8) (rest : Text) : State → State
  | comment left => afterOpener b left
  | quoted quote odd => afterQuoted quote odd b
  | code previous =>
    if isQuote b then quoted b false
    else match at? previous (b :: rest) with
      | some found => afterOpener b found.length
      | none => code (some b)

/-- The quote that is open in a state. -/
def quote? : State → Option UInt8
  | quoted quote _ => some quote
  | _ => none

/-- The bytes of a comment that are still to be passed over. -/
def left : State → Nat
  | comment left => left
  | _ => 0

end State

/-- The state of the scan at an offset. -/
def stateAt (text : Text) : Nat → State
  | 0 => .code none
  | offset + 1 =>
    match text.drop offset with
    | [] => stateAt text offset
    | b :: rest => (stateAt text offset).next b rest

/-- The span that starts at an offset. -/
def spanAt? (text : Text) (offset : Nat) : Option Span :=
  ((stateAt text offset).found? (text.drop offset)).map (·.span offset)

theorem stateAt_succ {text : Text} {offset : Nat} (ho : offset < text.length) :
    stateAt text (offset + 1) =
      (stateAt text offset).next text[offset] (text.drop (offset + 1)) := by
  rw [stateAt, List.drop_eq_getElem_cons ho]

/-- One byte of the scan. -/
theorem spansFrom_cons (st : State) (offset : Nat) (b : UInt8) (rest : Text) :
    spansFrom st offset (b :: rest) =
      ((st.found? (b :: rest)).map (·.span offset)).toList ++
        spansFrom (st.next b rest) (offset + 1) rest := by
  cases st with
  | comment left => rfl
  | quoted quote odd => rfl
  | code previous =>
    -- only code can open a comment, and not at a quote
    unfold State.found? State.next
    rw [spansFrom]
    by_cases hquote : isQuote b = true
    · simp only [if_pos hquote]
      rfl
    · simp only [if_neg hquote]
      cases at? previous (b :: rest) <;> rfl

theorem spanAt?_eq {text : Text} {offset : Nat} (ho : offset < text.length) :
    spanAt? text offset =
      ((stateAt text offset).found? (text[offset] :: text.drop (offset + 1))).map
        (·.span offset) := by
  rw [← List.drop_eq_getElem_cons ho]
  rfl

/-- From its state at an offset on, the scan finds the spans of the offsets that are left. -/
theorem spansFrom_stateAt (text : Text) (n offset : Nat) (hn : offset + n = text.length) :
    spansFrom (stateAt text offset) offset (text.drop offset) =
      (List.range' offset n).filterMap (spanAt? text) := by
  induction n generalizing offset with
  | zero =>
    rw [List.drop_eq_nil_of_le (by omega)]
    rw [spansFrom]
    rfl
  | succ n ih =>
    have ho : offset < text.length := by omega
    rw [List.drop_eq_getElem_cons ho, spansFrom_cons, ← stateAt_succ ho, ← spanAt?_eq ho,
      ih (offset + 1) (by omega), List.range'_succ, List.filterMap_cons]
    cases spanAt? text offset <;> rfl

/-- **The spans of a text are those of its offsets, in order.** -/
theorem spans_eq_filterMap (text : Text) :
    spans text = (List.range text.length).filterMap (spanAt? text) := by
  rw [List.range_eq_range', ← spansFrom_stateAt text text.length 0 (Nat.zero_add _)]
  rfl

/-- What a span that is found at an offset is. -/
theorem spanAt?_eq_some {text : Text} {offset : Nat} {s : Span} (h : spanAt? text offset = some s) :
    ∃ previous f, stateAt text offset = .code previous ∧ offset < text.length ∧
      at? previous (text.drop offset) = some f ∧ s = f.span offset := by
  unfold spanAt? at h
  obtain ⟨f, hf, rfl⟩ := Option.map_eq_some_iff.mp h
  cases hst : stateAt text offset with
  -- inside a comment or a string nothing is found
  | comment left => simp [hst, State.found?] at hf
  | quoted quote odd => simp [hst, State.found?] at hf
  | code previous =>
    rw [hst] at hf
    cases hdrop : text.drop offset with
    | nil =>
      -- the text is over
      rw [hdrop] at hf
      cases hf
    | cons b rest =>
      rw [hdrop] at hf
      refine ⟨previous, f, rfl, ?_, ?_, rfl⟩
      · -- there is a byte left at `offset`
        by_contra hle
        rw [List.drop_eq_nil_of_le (by omega)] at hdrop
        cases hdrop
      · -- it is not a quote, so the delimiters were tried there
        change (if isQuote b then none else at? previous (b :: rest)) = some f at hf
        by_cases hquote : isQuote b = true
        · rw [if_pos hquote] at hf
          cases hf
        · rwa [if_neg hquote] at hf

/-- A span is found at its start. -/
theorem mem_spans_iff {text : Text} {s : Span} :
    s ∈ spans text ↔ spanAt? text s.start = some s := by
  rw [spans_eq_filterMap, List.mem_filterMap]
  constructor
  · rintro ⟨offset, -, h⟩
    obtain ⟨previous, f, -, -, -, rfl⟩ := spanAt?_eq_some h
    exact h
  · intro h
    obtain ⟨previous, f, -, hlt, -, -⟩ := spanAt?_eq_some h
    exact ⟨s.start, List.mem_range.mpr hlt, h⟩

/-! ### What the state knows -/

/-- **What the state of a scan at an offset says about the text before it.** -/
structure Tracks (text : Text) (offset : Nat) (st : State) : Prop where
  /-- The state holds the open quote. -/
  quote : quoteAt text (spans text) offset = st.quote?
  /-- The spans that start before the offset reach no further than the state says. -/
  reach : ∀ s ∈ spans text, s.start < offset → s.stop ≤ offset + st.left
  /-- Outside strings and comments the state holds the byte before the offset. -/
  previous : ∀ b, st = .code b → b = (text.take offset).getLast?
  /-- In a string the state holds the parity of the backslashes before the offset. -/
  parity : ∀ q odd, st = .quoted q odd → (odd = true ↔ backslashes text offset % 2 = 1)
  /-- In a comment there is a span that ends where the state says. -/
  within : ∀ left, st = .comment left → 0 < left ∧
    ∃ s ∈ spans text, s.start < offset ∧ s.stop = offset + left

theorem tracks_zero (text : Text) : Tracks text 0 (stateAt text 0) where
  quote := rfl
  reach s _ h := absurd h (Nat.not_lt_zero _)
  previous b h := by
    obtain rfl := State.code.inj h
    simp
  parity q odd h := by cases h
  within left h := by cases h

theorem quoteAt_succ_of_outside {text : Text} {ss : List Span} {offset : Nat}
    (ho : offset < text.length) (hout : Outside ss offset) :
    quoteAt text ss (offset + 1) =
      quoteAfter (quoteAt text ss offset) text[offset] (backslashes text offset) := by
  rw [quoteAt, List.getElem?_eq_getElem ho]
  exact if_pos hout

theorem quoteAt_succ_of_not_outside {text : Text} {ss : List Span} {offset : Nat}
    (hin : ¬ Outside ss offset) : quoteAt text ss (offset + 1) = quoteAt text ss offset := by
  rw [quoteAt]
  cases text[offset]? with
  | none => rfl
  | some b => exact if_neg hin

theorem backslashes_succ {text : Text} {offset : Nat} (ho : offset < text.length) :
    backslashes text (offset + 1) =
      if text[offset] = byte '\\' then backslashes text offset + 1 else 0 := by
  unfold backslashes
  rw [List.take_succ_eq_append_getElem ho, List.reverse_append, List.reverse_singleton,
    List.singleton_append]
  by_cases h : text[offset] = byte '\\'
  · rw [if_pos h, List.takeWhile_cons_of_pos (by simpa using h), List.length_cons]
  · rw [if_neg h, List.takeWhile_cons_of_neg (by simpa using h)]
    rfl

theorem isQuote_iff {b : UInt8} : isQuote b = true ↔ b = byte '"' ∨ b = byte '\'' := by
  simp [isQuote]

namespace Tracks

variable {text : Text} {offset : Nat} {st : State}

/-- Where no span starts and no comment is being passed over, the offset is outside. -/
theorem outside (h : Tracks text offset st) (hleft : st.left = 0)
    (hnone : spanAt? text offset = none) : Outside (spans text) offset := by
  intro s hs
  rcases Nat.lt_trichotomy s.start offset with hlt | heq | hgt
  · have hreach := h.reach s hs hlt
    omega
  · rw [mem_spans_iff, heq, hnone] at hs
    cases hs
  · exact Or.inl hgt

/-- If no span starts at the offset, those before the next one are those before it. -/
theorem reach_succ (h : Tracks text offset st) (hnone : spanAt? text offset = none) :
    ∀ s ∈ spans text, s.start < offset + 1 → s.stop ≤ offset + st.left := by
  intro s hs hlt
  rcases Nat.lt_or_eq_of_le (Nat.le_of_lt_succ hlt) with hbefore | heq
  · exact h.reach s hs hbefore
  · rw [mem_spans_iff, heq, hnone] at hs
    cases hs

/-- Behind a byte that leaves neither a quote nor a comment open. -/
theorem code (ho : offset < text.length)
    (hquote : quoteAt text (spans text) (offset + 1) = none)
    (hreach : ∀ s ∈ spans text, s.start < offset + 1 → s.stop ≤ offset + 1) :
    Tracks text (offset + 1) (.code (some text[offset])) where
  quote := hquote
  reach := hreach
  previous b h := by
    obtain rfl := State.code.inj h
    exact (getLast?_take_succ ho).symm
  parity q odd h := by cases h
  within left h := by cases h

/-- Behind a byte of a string that stays open. -/
theorem quoted {q : UInt8} {odd : Bool}
    (hquote : quoteAt text (spans text) (offset + 1) = some q)
    (hreach : ∀ s ∈ spans text, s.start < offset + 1 → s.stop ≤ offset + 1)
    (hparity : odd = true ↔ backslashes text (offset + 1) % 2 = 1) :
    Tracks text (offset + 1) (.quoted q odd) where
  quote := hquote
  reach := hreach
  previous b h := by cases h
  parity q' odd' h := by
    obtain ⟨rfl, rfl⟩ := State.quoted.inj h
    exact hparity
  within left h := by cases h

/-- Behind a byte of a comment that has `n` bytes from that byte on. -/
theorem afterOpener {s : Span} {n : Nat} (ho : offset < text.length) (hn : 0 < n)
    (hquote : quoteAt text (spans text) offset = none) (hs : s ∈ spans text)
    (hstart : s.start < offset + 1) (hstop : s.stop = offset + n)
    (hreach : ∀ t ∈ spans text, t.start < offset + 1 → t.stop ≤ offset + n) :
    Tracks text (offset + 1) (Comment.afterOpener text[offset] n) := by
  -- the byte lies in the span, so that it does not count for quotes
  have hin : ¬ Outside (spans text) offset := by
    intro hout
    have hs' := hout s hs
    omega
  have hnext : quoteAt text (spans text) (offset + 1) = none := by
    rw [quoteAt_succ_of_not_outside hin, hquote]
  match n, hn with
  | 1, _ => exact code ho hnext hreach
  | n + 2, _ =>
    rw [Comment.afterOpener]
    refine ⟨hnext, fun t ht hlt => ?_, fun b h => (by cases h), fun q odd h => (by cases h),
      fun left h => ?_⟩
    · have ht' := hreach t ht hlt
      change t.stop ≤ offset + 1 + (n + 1)
      omega
    · obtain rfl := State.comment.inj h
      exact ⟨Nat.succ_pos n, s, hs, hstart, by omega⟩

/-- A byte of a string. -/
theorem step_quoted {q : UInt8} {odd : Bool} (ho : offset < text.length)
    (h : Tracks text offset (.quoted q odd)) (hnone : spanAt? text offset = none) :
    Tracks text (offset + 1) (afterQuoted q odd text[offset]) := by
  have hparity := h.parity q odd rfl
  have hreach : ∀ s ∈ spans text, s.start < offset + 1 → s.stop ≤ offset + 1 :=
    fun s hs hlt => Nat.le_succ_of_le (h.reach_succ hnone s hs hlt)
  have hnext := quoteAt_succ_of_outside ho (h.outside rfl hnone)
  rw [h.quote] at hnext
  unfold quoteAfter State.quote? at hnext
  dsimp only at hnext
  unfold afterQuoted
  by_cases hclose : text[offset] = q ∧ odd = false
  · -- an even number of backslashes: the string is closed
    rw [if_pos hclose]
    refine code ho ?_ hreach
    rw [hnext, if_pos]
    refine ⟨hclose.1, ?_⟩
    rw [hclose.2] at hparity
    simpa using hparity
  · rw [if_neg hclose]
    refine quoted ?_ hreach ?_
    · rw [hnext, if_neg]
      rintro ⟨hq, heven⟩
      refine hclose ⟨hq, Bool.eq_false_iff.mpr fun hodd => ?_⟩
      have hone := hparity.mp hodd
      omega
    · -- a backslash turns the parity over, any other byte starts the count again
      rw [backslashes_succ ho]
      by_cases hback : text[offset] = byte '\\'
      · rw [if_pos hback]
        cases odd <;> simp [hback] at hparity ⊢ <;> omega
      · simp [hback]

/-- A byte outside strings and comments. -/
theorem step_code {previous : Option UInt8} (ho : offset < text.length)
    (h : Tracks text offset (.code previous))
    (hspan : spanAt? text offset =
      ((State.code previous).found? (text[offset] :: text.drop (offset + 1))).map (·.span offset)) :
    Tracks text (offset + 1)
      ((State.code previous).next text[offset] (text.drop (offset + 1))) := by
  unfold State.found? at hspan
  unfold State.next
  dsimp only at hspan ⊢
  by_cases hquote : isQuote text[offset] = true
  · -- a quote opens a string
    rw [if_pos hquote] at hspan ⊢
    rw [isQuote_iff] at hquote
    refine quoted ?_ (fun s hs hlt => Nat.le_succ_of_le (h.reach_succ hspan s hs hlt)) ?_
    · rw [quoteAt_succ_of_outside ho (h.outside rfl hspan), h.quote]
      exact if_pos hquote
    · rw [backslashes_succ ho, if_neg]
      · decide
      · intro hback
        rw [hback] at hquote
        revert hquote
        decide
  · rw [if_neg hquote] at hspan ⊢
    rw [isQuote_iff] at hquote
    cases hat : at? previous (text[offset] :: text.drop (offset + 1)) with
    | none =>
      -- neither a quote nor an opener
      rw [hat] at hspan
      refine code ho ?_ fun s hs hlt => Nat.le_succ_of_le (h.reach_succ hspan s hs hlt)
      rw [quoteAt_succ_of_outside ho (h.outside rfl hspan), h.quote]
      exact if_neg hquote
    | some f =>
      -- a span starts here, and no span that starts before it reaches here
      rw [hat] at hspan
      obtain ⟨hopener, -, hends⟩ := at?_eq_some hat
      have hpos : 0 < 0 + f.length := (hends.bounds hopener).1
      have hs : f.span offset ∈ spans text := mem_spans_iff.mpr hspan
      refine afterOpener ho (by omega) h.quote hs (Nat.lt_succ_self offset) rfl fun t ht hlt => ?_
      rcases Nat.lt_or_eq_of_le (Nat.le_of_lt_succ hlt) with hbefore | heq
      · exact Nat.le_trans (h.reach t ht hbefore) (Nat.add_le_add_left (Nat.zero_le _) _)
      · rw [mem_spans_iff, heq, hspan] at ht
        obtain rfl := Option.some.inj ht
        exact Nat.le_refl _

/-- **One byte of the scan.** -/
theorem step (ho : offset < text.length) (h : Tracks text offset (stateAt text offset)) :
    Tracks text (offset + 1) (stateAt text (offset + 1)) := by
  have hspan := spanAt?_eq ho
  rw [stateAt_succ ho]
  cases hst : stateAt text offset with
  | comment left =>
    rw [hst] at h hspan
    -- the comment passed through is one of the spans, and it goes on or stops here
    obtain ⟨hpos, s, hs, hstart, hstop⟩ := h.within left rfl
    exact afterOpener ho hpos h.quote hs (by omega) hstop (h.reach_succ hspan)
  | quoted q odd =>
    rw [hst] at h hspan
    exact h.step_quoted ho hspan
  | code previous =>
    -- code: a quote opens a string, a delimiter a comment, any other byte neither
    rw [hst] at h hspan
    exact h.step_code ho hspan

end Tracks

/-- The state of the scan tracks the text at every offset. -/
theorem tracks_stateAt {text : Text} {offset : Nat} (ho : offset ≤ text.length) :
    Tracks text offset (stateAt text offset) := by
  induction offset with
  | zero => exact tracks_zero text
  | succ offset ih => exact (ih (Nat.le_of_succ_le ho)).step ho

/-! ### The scan is exact -/

/-- At the start of a span the scan is outside strings and comments, and finds the span. -/
theorem exists_of_mem_spans {text : Text} {s : Span} (hs : s ∈ spans text) :
    s.start < text.length ∧ ∃ previous f, Tracks text s.start (.code previous) ∧
      at? previous (text.drop s.start) = some f ∧ s = f.span s.start := by
  obtain ⟨previous, f, hst, hlt, hat, heq⟩ := spanAt?_eq_some (mem_spans_iff.mp hs)
  exact ⟨hlt, previous, f, hst ▸ tracks_stateAt hlt.le, hat, heq⟩

theorem opensAt_of_mem_spans {text : Text} {s : Span} (hs : s ∈ spans text) :
    OpensAt text s.kind s.start := by
  obtain ⟨hlt, previous, f, htracks, hat, heq⟩ := exists_of_mem_spans hs
  obtain ⟨hopener, hhash, -⟩ := at?_eq_some hat
  have hkind : s.kind = f.kind := congrArg Span.kind heq
  rw [hkind]
  refine ⟨hopener, fun h => ?_⟩
  rw [← all_isSpace_iff hlt, ← htracks.previous previous rfl]
  exact hhash h

theorem endsRight_of_mem_spans {text : Text} {s : Span} (hs : s ∈ spans text) :
    s.EndsRight text := by
  obtain ⟨hlt, previous, f, -, hat, heq⟩ := exists_of_mem_spans hs
  rw [heq]
  exact Found.endsRight_span hlt.le (at?_eq_some hat).2.2

/-- The starts of the spans increase, as the offsets do. -/
theorem pairwise_start_spans (text : Text) :
    (spans text).Pairwise fun s t => s.start < t.start := by
  rw [spans_eq_filterMap, List.pairwise_filterMap]
  refine List.pairwise_lt_range.imp fun hlt s hs t ht => ?_
  obtain ⟨-, f, -, -, -, rfl⟩ := spanAt?_eq_some hs
  obtain ⟨-, g, -, -, -, rfl⟩ := spanAt?_eq_some ht
  exact hlt

/-- An opener that is outside all spans is in a string. -/
theorem not_opensAt_of_outside {text : Text} {offset : Nat} (hout : Outside (spans text) offset)
    (hquote : quoteAt text (spans text) offset = none) (kind : Kind) :
    ¬ OpensAt text kind offset := by
  rintro ⟨hopener, hhash⟩
  obtain ⟨b, hhead, -, hb⟩ := exists_head?_of_opener hopener
  rw [List.head?_drop] at hhead
  obtain ⟨hlt, rfl⟩ := List.getElem?_eq_some_iff.mp hhead
  have htracks := tracks_stateAt hlt.le
  have hspan := spanAt?_eq hlt
  cases hst : stateAt text offset with
  | comment left =>
    -- the comment that is passed over is a span around the offset
    rw [hst] at htracks
    obtain ⟨hpos, s, hs, hstart, hstop⟩ := htracks.within left rfl
    have hs' := hout s hs
    omega
  | quoted q odd =>
    rw [hst] at htracks
    rw [htracks.quote] at hquote
    cases hquote
  | code previous =>
    rw [hst] at htracks hspan
    unfold State.found? at hspan
    dsimp only at hspan
    rw [hb, if_neg (by decide), ← List.drop_eq_getElem_cons hlt] at hspan
    cases hat : at? previous (text.drop offset) with
    | some f =>
      -- a span would start at the offset, and the offset would lie in it
      rw [hat] at hspan
      have hs : f.span offset ∈ spans text := mem_spans_iff.mpr hspan
      have hbounds := (endsRight_of_mem_spans hs).bounds (opensAt_of_mem_spans hs).1
      rcases hout _ hs with hbefore | hbehind
      · exact Nat.lt_irrefl offset hbefore
      · exact absurd hbounds.1 (Nat.not_lt.mpr hbehind)
    | none =>
      -- only a hash is overlooked, and only where it is no opener
      obtain ⟨rfl, hspace⟩ := at?_eq_none hat hopener
      rw [htracks.previous previous rfl, (all_isSpace_iff hlt).mpr (hhash rfl)] at hspace
      cases hspace

/-- **The spans that the scan finds are the comments of the text.** -/
theorem isSegmentation_spans (text : Text) : IsSegmentation text (spans text) where
  ordered := by
    refine (pairwise_start_spans text).imp_of_mem fun {s t} hs ht hlt => ?_
    obtain ⟨-, previous, f, htracks, -, -⟩ := exists_of_mem_spans ht
    exact htracks.reach s hs hlt
  nonempty s hs := ((endsRight_of_mem_spans hs).bounds (opensAt_of_mem_spans hs).1).1
  inside s hs := ((endsRight_of_mem_spans hs).bounds (opensAt_of_mem_spans hs).1).2
  unquoted s hs := by
    obtain ⟨-, previous, f, htracks, -, -⟩ := exists_of_mem_spans hs
    exact htracks.quote
  opens s hs := opensAt_of_mem_spans hs
  ends s hs := endsRight_of_mem_spans hs
  complete _ hout hquote kind := not_opensAt_of_outside hout hquote kind

/-- **The scan is exact.** It returns the list of the comments of a text, and a list is that of the
comments only if the scan returns it. -/
theorem spans_eq_iff (text : Text) (ss : List Span) : spans text = ss ↔ IsSegmentation text ss := by
  constructor
  · rintro rfl
    exact isSegmentation_spans text
  · exact fun h => (isSegmentation_spans text).unique h

/-! ### What quotes depend on -/

/-- No quote is open in a comment. -/
theorem IsSegmentation.quoteAt_of_inside {text : Text} {ss : List Span} (h : IsSegmentation text ss)
    {t : Span} (ht : t ∈ ss) {o : Nat} (hle : t.start ≤ o) (ho : o ≤ t.stop) :
    quoteAt text ss o = none := by
  induction o, hle using Nat.le_induction with
  | base => exact h.unquoted t ht
  | succ o hle ih =>
    rw [quoteAt_succ_of_not_outside, ih (by omega)]
    intro hout
    have ht' := hout t ht
    omega

/-- **What is quoted depends on the bytes outside comments.** A second text, with spans of its own, has
the bytes of the first one outside the comments of the first one; where these are not under a span of
the second text, it has no quote. Then the same quotes are open in both texts, and in a string the same
number of backslashes stands before an offset. -/
theorem quoteAt_of_agree {x y : Text} {ts : List Span} (hlen : y.length = x.length)
    (houtside : ∀ o, Outside (spans x) o → Outside ts o ∧ y[o]? = x[o]?)
    (hinside : ∀ o b, ¬ Outside (spans x) o → Outside ts o → y[o]? = some b → isQuote b = false)
    {o : Nat} (ho : o ≤ x.length) :
    quoteAt y ts o = quoteAt x (spans x) o ∧
      (quoteAt x (spans x) o ≠ none → backslashes y o = backslashes x o) := by
  induction o with
  | zero => exact ⟨rfl, fun hne => absurd rfl hne⟩
  | succ o ih =>
    have hx : o < x.length := ho
    have hy : o < y.length := by rw [hlen]; exact hx
    obtain ⟨hquote, hback⟩ := ih hx.le
    by_cases hout : Outside (spans x) o
    · obtain ⟨houty, hbyte⟩ := houtside o hout
      rw [List.getElem?_eq_getElem hy, List.getElem?_eq_getElem hx, Option.some.injEq] at hbyte
      rw [quoteAt_succ_of_outside hy houty, quoteAt_succ_of_outside hx hout, hquote, hbyte,
        backslashes_succ hy, backslashes_succ hx, hbyte]
      cases hq : quoteAt x (spans x) o with
      | none =>
        -- backslashes count in strings only, and the quote that opens one is none
        refine ⟨rfl, fun hne => ?_⟩
        unfold quoteAfter at hne
        dsimp only at hne
        by_cases hb : x[o] = byte '\\'
        · rw [hb, if_neg (by decide)] at hne
          exact absurd rfl hne
        · rw [if_neg hb, if_neg hb]
      | some q =>
        rw [hback (by rw [hq]; simp)]
        exact ⟨rfl, fun _ => rfl⟩
    · -- in a comment nothing is quoted, and so it is right behind it
      have hcovered := hout
      unfold Outside at hcovered
      push Not at hcovered
      obtain ⟨t, ht, hle, hlt⟩ := hcovered
      have hseg := isSegmentation_spans x
      have hnone := hseg.quoteAt_of_inside ht hle hlt.le
      have hnext := hseg.quoteAt_of_inside ht (o := o + 1) (by omega) hlt
      refine ⟨?_, fun hne => absurd hnext hne⟩
      rw [hnext]
      by_cases houty : Outside ts o
      · -- what the second text has here is no quote
        have hb := hinside o y[o] hout houty (List.getElem?_eq_getElem hy)
        rw [← Bool.not_eq_true, isQuote_iff] at hb
        rw [quoteAt_succ_of_outside hy houty, hquote, hnone]
        exact if_neg hb
      · rw [quoteAt_succ_of_not_outside houty, hquote, hnone]

end ViewLint.Comment
