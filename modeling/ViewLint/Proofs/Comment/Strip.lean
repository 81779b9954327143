import ViewLint.Proofs.Comment.Exact

/-!
# What blanking leaves

`strip` walks over a text with the list of its comments and drops each comment once it is past. Seen
from one offset it is simple: a byte outside all comments stays, and so does a newline, any other
byte becomes a space (`getElem?_strip`). That is all that follows from the order of the spans.

Seen from the scan it is simple too: in a state the rest of the text is blanked byte by byte, and a
comment as a whole (`stripFrom`). This is the way to follow blanking along a text.
-/

namespace ViewLint.Comment

open Text (byte)

/-- The byte at an offset after blanking. -/
def blankAt (ss : List Span) (offset : Nat) (b : UInt8) : UInt8 :=
  if Outside ss offset ∨ b = byte '\n' then b else byte ' '

theorem blankAt_congr {ss ts : List Span} {o p : Nat} (h : Outside ss o ↔ Outside ts p) :
    blankAt ss o = blankAt ts p := by
  funext b
  simp only [blankAt, h]

theorem blankAt_of_outside {ss : List Span} {o : Nat} (h : Outside ss o) (b : UInt8) :
    blankAt ss o b = b := if_pos (Or.inl h)

theorem blankAt_of_not_outside {ss : List Span} {o : Nat} (h : ¬ Outside ss o) (b : UInt8) :
    blankAt ss o b = if b = byte '\n' then b else byte ' ' := by
  simp only [blankAt, h, false_or]

theorem outside_nil (offset : Nat) : Outside [] offset := by
  intro s hs
  cases hs

theorem outside_cons {s : Span} {ss : List Span} {offset : Nat} :
    Outside (s :: ss) offset ↔ (offset < s.start ∨ s.stop ≤ offset) ∧ Outside ss offset := by
  unfold Outside
  rw [List.forall_mem_cons]

theorem outside_append {ss ts : List Span} {offset : Nat} :
    Outside (ss ++ ts) offset ↔ Outside ss offset ∧ Outside ts offset := List.forall_mem_append

/-- The spans that a walk still has to pass at an offset: in order, none of them empty, none of them
over. -/
structure Ahead (ss : List Span) (offset : Nat) : Prop where
  ordered : ss.Pairwise fun s t => s.stop ≤ t.start
  nonempty : ∀ s ∈ ss, s.start < s.stop
  ahead : ∀ s ∈ ss, offset < s.stop

namespace Ahead

variable {s : Span} {ss : List Span} {offset : Nat}

/-- Only the first span can cover the offset. -/
theorem outside_iff (h : Ahead (s :: ss) offset) : Outside (s :: ss) offset ↔ offset < s.start := by
  have hhead := h.ahead s List.mem_cons_self
  obtain ⟨hrest, -⟩ := List.pairwise_cons.mp h.ordered
  rw [outside_cons]
  constructor
  · rintro ⟨hout, -⟩
    omega
  · intro hlt
    refine ⟨Or.inl hlt, fun t ht => Or.inl ?_⟩
    have hle := hrest t ht
    omega

/-- The spans that are left behind the next byte. -/
theorem next (h : Ahead (s :: ss) offset) :
    Ahead (if s.stop ≤ offset + 1 then ss else s :: ss) (offset + 1) := by
  obtain ⟨hrest, hordered⟩ := List.pairwise_cons.mp h.ordered
  have hpos : ∀ t ∈ ss, t.start < t.stop := fun t ht => h.nonempty t (List.mem_cons_of_mem s ht)
  have hhead := h.ahead s List.mem_cons_self
  -- the spans behind `s` start where `s` is over
  have hlater : ∀ t ∈ ss, offset + 1 < t.stop := by
    intro t ht
    have hle := hrest t ht
    have hlt := hpos t ht
    omega
  by_cases hover : s.stop ≤ offset + 1
  · rw [if_pos hover]
    exact ⟨hordered, hpos, hlater⟩
  · rw [if_neg hover]
    refine ⟨h.ordered, h.nonempty, fun t ht => ?_⟩
    rcases List.mem_cons.mp ht with rfl | ht
    · omega
    · exact hlater t ht

/-- Spans that are over do not count. -/
theorem outside_next {o : Nat} (ho : offset < o) :
    Outside (if s.stop ≤ offset + 1 then ss else s :: ss) o ↔ Outside (s :: ss) o := by
  by_cases hover : s.stop ≤ offset + 1
  · rw [if_pos hover, outside_cons]
    exact ⟨fun hout => ⟨Or.inr (by omega), hout⟩, fun hout => hout.2⟩
  · rw [if_neg hover]

end Ahead

theorem getElem?_blankFrom {ss : List Span} {offset : Nat} (h : Ahead ss offset) (text : Text)
    (o : Nat) :
    (blankFrom ss offset text)[o]? = text[o]?.map (blankAt ss (offset + o)) := by
  induction text generalizing ss offset o with
  | nil => simp [blankFrom]
  | cons b text ih =>
    cases ss with
    | nil =>
      rw [blankFrom.eq_2 _ _ (List.cons_ne_nil b text)]
      have hid : blankAt [] (offset + o) = id := by
        funext c
        exact blankAt_of_outside (outside_nil _) c
      rw [hid, Option.map_id]
      rfl
    | cons s ss =>
      rw [blankFrom]
      cases o with
      | zero =>
        -- the first span is the only one that can cover the first byte
        have hstop := h.ahead s List.mem_cons_self
        rw [List.getElem?_cons_zero, List.getElem?_cons_zero, Option.map_some, Nat.add_zero]
        unfold Span.covers
        by_cases hlt : offset < s.start
        · rw [blankAt_of_outside (h.outside_iff.mpr hlt), if_neg (by simp [hlt])]
        · rw [blankAt_of_not_outside (mt h.outside_iff.mp hlt)]
          by_cases hb : b = byte '\n'
          · simp [hb]
          · simp [hb, hstop, Nat.not_lt.mp hlt]
      | succ o =>
        rw [List.getElem?_cons_succ, List.getElem?_cons_succ, ih h.next o]
        congr 1
        have hshift : offset + 1 + o = offset + (o + 1) := by omega
        rw [hshift]
        exact blankAt_congr (Ahead.outside_next (by omega))

theorem ahead_spans (text : Text) : Ahead (spans text) 0 := by
  have h := isSegmentation_spans text
  refine ⟨h.ordered, h.nonempty, fun s hs => ?_⟩
  have hpos := h.nonempty s hs
  omega

/-- **Blanking, offset by offset.** -/
theorem getElem?_strip (text : Text) (o : Nat) :
    (strip text)[o]? = text[o]?.map (blankAt (spans text) o) := by
  unfold strip
  rw [getElem?_blankFrom (ahead_spans text), Nat.zero_add]

theorem length_strip (text : Text) : (strip text).length = text.length := by
  have hnone : ∀ o : Nat, (strip text)[o]? = none ↔ text[o]? = none := by
    intro o
    rw [getElem?_strip, Option.map_eq_none_iff]
  have hend : ∀ {u v : Text}, (u[v.length]? = none ↔ v[v.length]? = none) → u.length ≤ v.length :=
    fun h => List.getElem?_eq_none_iff.mp (h.mpr (List.getElem?_eq_none (Nat.le_refl _)))
  exact Nat.le_antisymm (hend (hnone _)) (hend (hnone _).symm)

/-! ### Blanking from state to state -/

/-- The rest of a text, which starts at `offset` in a state of the scan, with its comments
blanked. -/
def stripFrom (st : State) (offset : Nat) (text : Text) : Text :=
  blankFrom (spansFrom st offset text) offset text

/-- The bytes of a comment once it is blanked. -/
def blanks (text : Text) : Text := text.map fun b => if b = byte '\n' then b else byte ' '

theorem bounds_spansFrom (st : State) (offset : Nat) (text : Text) :
    ∀ s ∈ spansFrom st offset text, offset ≤ s.start ∧ s.start < s.stop := by
  -- induction on the text: a span is found at its front, at `offset`, or in the rest
  induction text generalizing st offset with
  | nil =>
    intro s hs
    rw [spansFrom] at hs
    cases hs
  | cons b rest ih =>
    intro s hs
    rw [spansFrom_cons, List.mem_append] at hs
    rcases hs with hs | hs
    · rw [Option.mem_toList, Option.map_eq_some_iff] at hs
      obtain ⟨f, hf, rfl⟩ := hs
      cases st with
      | comment left => cases hf
      | quoted quote odd => cases hf
      | code previous =>
        unfold State.found? at hf
        dsimp only at hf
        split at hf
        · cases hf
        · -- the comment is as long as its opener at least
          obtain ⟨hopener, -, hends⟩ := at?_eq_some hf
          have hpos : 0 < 0 + f.length := (hends.bounds hopener).1
          exact ⟨Nat.le_refl _, (by omega : offset < offset + f.length)⟩
    · -- found in the rest, so later still
      have hbounds := ih _ _ s hs
      omega

/-- A byte in front of all spans stays. -/
theorem blankFrom_keep {ss : List Span} {offset : Nat} (b : UInt8) (rest : Text)
    (h : ∀ s ∈ ss, offset + 1 ≤ s.start ∧ s.start < s.stop) :
    blankFrom ss offset (b :: rest) = b :: blankFrom ss (offset + 1) rest := by
  cases ss with
  | nil =>
    cases rest <;> rfl
  | cons s ss =>
    have hs := h s List.mem_cons_self
    have hcovers : s.covers offset = false := by
      unfold Span.covers
      simp only [Bool.and_eq_false_iff, decide_eq_false_iff_not]
      omega
    rw [blankFrom, hcovers, Bool.false_and, if_neg Bool.false_ne_true, if_neg (by omega)]

/-- The bytes under the first span are blanked. -/
theorem blankFrom_span {s : Span} {ss : List Span} {offset : Nat} {c : Text} (rest : Text)
    (hc : c ≠ []) (hstart : s.start ≤ offset) (hstop : s.stop = offset + c.length) :
    blankFrom (s :: ss) offset (c ++ rest) = blanks c ++ blankFrom ss (offset + c.length) rest := by
  induction c generalizing offset with
  | nil => exact absurd rfl hc
  | cons b c ih =>
    rw [List.length_cons] at hstop
    -- every byte of `c` lies in `s` and is blanked, unless it ends a line
    have hcovers : s.covers offset = true := by
      unfold Span.covers
      simp only [Bool.and_eq_true, decide_eq_true_eq]
      omega
    have hhead : (if (s.covers offset && b != byte '\n') = true then byte ' ' else b) =
        if b = byte '\n' then b else byte ' ' := by
      by_cases hb : b = byte '\n' <;> simp [hcovers, hb]
    rw [List.cons_append, blankFrom, hhead]
    cases c with
    -- the last byte of `c`: `s` stops after it
    | nil =>
      have hover : s.stop ≤ offset + 1 := Nat.le_of_eq hstop
      rw [if_pos hover]
      rfl
    | cons d c =>
      -- more bytes of `c` follow, and `s` covers them too
      have hlater : ¬ s.stop ≤ offset + 1 := by
        rw [List.length_cons] at hstop
        omega
      rw [if_neg hlater, ih (List.cons_ne_nil d c) (by omega) (by omega), Nat.add_assoc offset 1,
        Nat.add_comm 1]
      rfl

/-- Behind a comment the scan is in the template again. -/
theorem spansFrom_afterOpener (b : UInt8) (c rest : Text) (offset : Nat) :
    spansFrom (afterOpener b (c.length + 1)) offset (c ++ rest) =
      spansFrom (.code (b :: c).getLast?) (offset + c.length) rest := by
  induction c generalizing b offset with
  | nil => rfl
  | cons d c ih =>
    rw [List.length_cons, afterOpener, List.cons_append, spansFrom, ih, List.getLast?_cons_cons,
      Nat.add_assoc offset 1, Nat.add_comm 1]

theorem stripFrom_nil (st : State) (offset : Nat) : stripFrom st offset [] = [] := by
  unfold stripFrom
  rw [blankFrom]

theorem stripFrom_quoted (quote : UInt8) (odd : Bool) (offset : Nat) (b : UInt8) (rest : Text) :
    stripFrom (.quoted quote odd) offset (b :: rest) =
      b :: stripFrom (afterQuoted quote odd b) (offset + 1) rest := by
  unfold stripFrom
  rw [spansFrom, blankFrom_keep _ _ (bounds_spansFrom _ _ _)]

/-- A quote opens a string. -/
theorem stripFrom_quote {b : UInt8} (hb : isQuote b = true) (previous : Option UInt8)
    (offset : Nat) (rest : Text) :
    stripFrom (.code previous) offset (b :: rest) =
      b :: stripFrom (.quoted b false) (offset + 1) rest := by
  unfold stripFrom
  rw [spansFrom, if_pos hb, blankFrom_keep _ _ (bounds_spansFrom _ _ _)]

/-- A byte at which no comment starts stays. -/
theorem stripFrom_none {b : UInt8} (hb : ¬ isQuote b = true) {previous : Option UInt8} {rest : Text}
    (h : at? previous (b :: rest) = none) (offset : Nat) :
    stripFrom (.code previous) offset (b :: rest) =
      b :: stripFrom (.code (some b)) (offset + 1) rest := by
  unfold stripFrom
  rw [spansFrom, if_neg hb, h]
  exact blankFrom_keep _ _ (bounds_spansFrom _ _ _)

/-- A byte that opens neither a comment nor a string stays, whatever stands before it. -/
theorem stripFrom_of_no_opener {b : UInt8} {rest : Text} (hb : ¬ isQuote b = true)
    (h : ∀ kind : Kind, ¬ kind.opener <+: b :: rest) (previous : Option UInt8) (offset : Nat) :
    stripFrom (.code previous) offset (b :: rest) =
      b :: stripFrom (.code (some b)) (offset + 1) rest := by
  refine stripFrom_none hb ?_ offset
  cases hat : at? previous (b :: rest) with
  | none => rfl
  | some f => exact absurd (at?_eq_some hat).1 (h f.kind)

/-- A comment is blanked as a whole. -/
theorem stripFrom_some {previous : Option UInt8} {c rest : Text} {f : Found}
    (h : at? previous (c ++ rest) = some f) (hlen : f.length = c.length) (offset : Nat) :
    stripFrom (.code previous) offset (c ++ rest) =
      blanks c ++ stripFrom (.code c.getLast?) (offset + c.length) rest := by
  obtain ⟨hopener, -, hends⟩ := at?_eq_some h
  have hpos : 0 < 0 + f.length := (hends.bounds hopener).1
  -- the opener is not empty and does not begin with a quote, so code finds `f` at the front
  obtain ⟨b, hhead, -, hquote⟩ := exists_head?_of_opener hopener
  cases c with
  | nil =>
    rw [List.length_nil] at hlen
    omega
  | cons d c =>
    obtain rfl := Option.some.inj hhead
    have hspans : spansFrom (.code previous) offset (d :: c ++ rest) =
        f.span offset :: spansFrom (.code (d :: c).getLast?) (offset + (d :: c).length) rest := by
      rw [List.cons_append, spansFrom_cons]
      unfold State.found? State.next
      dsimp only
      rw [hquote, if_neg Bool.false_ne_true, if_neg Bool.false_ne_true, ← List.cons_append, h]
      dsimp only
      rw [hlen, List.length_cons, spansFrom_afterOpener, Nat.add_assoc offset 1, Nat.add_comm 1]
      rfl
    unfold stripFrom
    exact hspans ▸ blankFrom_span rest (List.cons_ne_nil d c) (Nat.le_refl offset)
      (congrArg (offset + ·) hlen)

end ViewLint.Comment
