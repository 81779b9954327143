import Mathlib.Tactic.Common
import ViewLint.Proofs.Comment.Segmentation

/-!
# One comment

`at?` looks for a comment at the start of a text. What it finds starts with the opener of its kind
and ends where its kind ends (`at?_eq_some`), and where it finds nothing no opener stands
(`at?_eq_none`). Only the hash depends on more than the text from there on, namely on the byte
before.

The scan looks at the rest of a text, while a segmentation speaks of the whole text: the second part
of the module moves an end from the one to the other (`Found.endsRight_span`).
-/

namespace ViewLint.Comment

open Text (byte)

/-! ### The comment at the start of a text -/

/-- The span of a comment found at an offset. -/
def Found.span (f : Found) (offset : Nat) : Span :=
  ⟨f.kind, offset, offset + f.length, f.terminated⟩

/-- The opener and the closer of a delimiter are those of its kind. -/
theorem Delimiter.opener_closer {d : Delimiter} (h : d ∈ delimiters) :
    d.kind.opener = d.opener ∧ d.kind.closer? = some d.closer := by
  simp only [delimiters, List.mem_cons, List.not_mem_nil, or_false] at h
  rcases h with rfl | rfl | rfl <;> decide

theorem Delimiter.exists_of_closer {kind : Kind} {closer : Text} (h : kind.closer? = some closer) :
    ∃ d ∈ delimiters, d.kind = kind := by
  cases kind with
  | template => exact ⟨_, List.mem_cons_self, rfl⟩
  | markup => exact ⟨_, List.mem_cons_of_mem _ List.mem_cons_self, rfl⟩
  | block => exact ⟨_, List.mem_cons_of_mem _ (List.mem_cons_of_mem _ List.mem_cons_self), rfl⟩
  | line => cases h
  | hash => cases h

theorem Delimiter.at?_eq_none {d : Delimiter} {text : Text} (h : d.at? text = none) :
    ¬ d.opener <+: text := by
  intro hprefix
  unfold at? at h
  rw [if_pos (List.isPrefixOf_iff_prefix.mpr hprefix)] at h
  cases hfind : Text.find? d.closer (text.drop d.opener.length) with
  | some n => simp [hfind] at h
  | none => simp [hfind] at h

/-- A delimited comment ends right. -/
theorem Delimiter.at?_eq_some {d : Delimiter} {text : Text} {f : Found} (hd : d ∈ delimiters)
    (h : d.at? text = some f) :
    f.kind = d.kind ∧ f.kind.opener <+: text ∧ (f.span 0).EndsRight text := by
  obtain ⟨hopener, hcloser⟩ := opener_closer hd
  unfold at? at h
  by_cases hprefix : d.opener.isPrefixOf text = true
  · rw [if_pos hprefix] at h
    rw [List.isPrefixOf_iff_prefix] at hprefix
    cases hfind : Text.find? d.closer (text.drop d.opener.length) with
    | some n =>
      -- the closer stands at `n` after the opener, and nowhere before
      rw [hfind] at h
      obtain rfl := Option.some.inj h
      refine ⟨rfl, hopener ▸ hprefix, ?_⟩
      have hfirst := Text.firstAt_drop.mp (Text.firstAt_of_find? hfind)
      unfold Span.EndsRight Found.span
      rw [hcloser, hopener]
      rw [Nat.add_zero] at hfirst
      refine ⟨d.opener.length + n, ?_, Nat.zero_add _⟩
      rwa [Nat.zero_add]
    | none =>
      -- no closer: the comment takes the rest, and the closer stands nowhere in it
      rw [hfind] at h
      obtain rfl := Option.some.inj h
      refine ⟨rfl, hopener ▸ hprefix, ?_⟩
      unfold Span.EndsRight Found.span
      rw [hcloser, hopener]
      refine ⟨Nat.zero_add _, fun o ho => ?_⟩
      have hnot := Text.not_prefix_of_find? hfind (o - d.opener.length)
      rwa [List.drop_drop, Nat.add_sub_cancel' (by omega)] at hnot
  · rw [if_neg hprefix] at h
    cases h

/-- The first line of a text ends where its bytes before the first newline end. -/
theorem lineEndAt_restOfLine (text : Text) : LineEndAt text 0 (restOfLine text) := by
  induction text with
  | nil => exact ⟨Nat.le_refl 0, Or.inl rfl, fun o _ ho => absurd ho (Nat.not_lt_zero o)⟩
  | cons b rest ih =>
    by_cases hb : b = byte '\n'
    · -- the line ends at once
      have hzero : restOfLine (b :: rest) = 0 := by simp [restOfLine, hb]
      rw [hzero, hb]
      exact ⟨Nat.le_refl 0, Or.inr rfl, fun o _ ho => absurd ho (Nat.not_lt_zero o)⟩
    · -- one byte more than the end of the line in the rest
      have hsucc : restOfLine (b :: rest) = restOfLine rest + 1 := by simp [restOfLine, hb]
      obtain ⟨-, hend, hfirst⟩ := ih
      rw [hsucc]
      refine ⟨Nat.zero_le _, hend.imp (congrArg (· + 1)) id, fun o _ ho => ?_⟩
      cases o with
      | zero => simpa using hb
      | succ o => exact hfirst o (Nat.zero_le o) (Nat.lt_of_succ_lt_succ ho)

/-- A comment that ends with its line ends right. -/
theorem lineEndAt_of_opener {text opener : Text} (hopener : opener <+: text)
    (hline : byte '\n' ∉ opener) :
    LineEndAt text 0 (opener.length + restOfLine (text.drop opener.length)) := by
  obtain ⟨rest, rfl⟩ := hopener
  have hwhole : opener.length + restOfLine rest = restOfLine (opener ++ rest) := by
    unfold restOfLine
    rw [List.takeWhile_append_of_pos, List.length_append]
    intro c hc
    simpa using fun h : c = byte '\n' => hline (h ▸ hc)
  rw [List.drop_left, hwhole]
  exact lineEndAt_restOfLine _

/-- **A comment that is found starts with its opener and ends right.** -/
theorem at?_eq_some {previous : Option UInt8} {text : Text} {f : Found}
    (h : at? previous text = some f) :
    f.kind.opener <+: text ∧ (f.kind = .hash → previous.all Text.isSpace = true) ∧
      (f.span 0).EndsRight text := by
  unfold at? at h
  split at h
  · next found hfound =>
    obtain rfl := Option.some.inj h
    obtain ⟨d, hd, hat⟩ := List.exists_of_findSome?_eq_some hfound
    obtain ⟨hkind, hopener, hends⟩ := Delimiter.at?_eq_some hd hat
    refine ⟨hopener, fun hhash => ?_, hends⟩
    -- a delimited comment is no hash
    have hcloser := (Delimiter.opener_closer hd).2
    rw [← hkind, hhash] at hcloser
    cases hcloser
  · by_cases hline : (Text.ofString "//").isPrefixOf text = true
    · rw [if_pos hline] at h
      rw [List.isPrefixOf_iff_prefix] at hline
      obtain rfl := Option.some.inj h
      refine ⟨hline, fun hhash => (by cases hhash), rfl, ?_⟩
      have hend := lineEndAt_of_opener hline (by decide)
      rwa [← Nat.zero_add (List.length _ + _)] at hend
    · rw [if_neg hline] at h
      by_cases hhash : ((Text.ofString "#").isPrefixOf text && previous.all Text.isSpace) = true
      · rw [if_pos hhash] at h
        rw [Bool.and_eq_true, List.isPrefixOf_iff_prefix] at hhash
        obtain rfl := Option.some.inj h
        refine ⟨hhash.1, fun _ => hhash.2, rfl, ?_⟩
        have hend := lineEndAt_of_opener hhash.1 (by decide)
        rwa [← Nat.zero_add (List.length _ + _)] at hend
      · rw [if_neg hhash] at h
        cases h

/-- **Where no comment is found, none starts.** -/
theorem at?_eq_none {previous : Option UInt8} {text : Text} (h : at? previous text = none)
    {kind : Kind} (hopener : kind.opener <+: text) :
    kind = .hash ∧ previous.all Text.isSpace = false := by
  unfold at? at h
  split at h
  · cases h
  next hnone =>
  rw [List.findSome?_eq_none_iff] at hnone
  -- the delimited kinds are those of the table, and none of them matches
  have hcloser : kind.closer? = none := by
    rw [Option.eq_none_iff_forall_ne_some]
    intro closer hsome
    obtain ⟨d, hd, rfl⟩ := Delimiter.exists_of_closer hsome
    rw [(Delimiter.opener_closer hd).1] at hopener
    exact Delimiter.at?_eq_none (hnone d hd) hopener
  by_cases hline : (Text.ofString "//").isPrefixOf text = true
  · rw [if_pos hline] at h
    cases h
  rw [if_neg hline] at h
  rw [List.isPrefixOf_iff_prefix] at hline
  cases kind with
  | template => cases hcloser
  | markup => cases hcloser
  | block => cases hcloser
  | line => exact absurd hopener hline
  | hash =>
    refine ⟨rfl, Bool.eq_false_iff.mpr fun hspace => ?_⟩
    have hmatch : (Text.ofString "#").isPrefixOf text = true :=
      List.isPrefixOf_iff_prefix.mpr hopener
    rw [hmatch, hspace] at h
    cases h

/-! ### The comment at an offset -/

theorem lineEndAt_drop {text : Text} {n start offset : Nat} (hn : n ≤ text.length)
    (h : LineEndAt (text.drop n) start offset) : LineEndAt text (n + start) (n + offset) := by
  obtain ⟨hle, hend, hfirst⟩ := h
  rw [List.length_drop, List.getElem?_drop] at hend
  refine ⟨by omega, hend.imp (fun h => by omega) id, fun o ho ho' => ?_⟩
  have hrest := hfirst (o - n) (by omega) (by omega)
  rwa [List.getElem?_drop, Nat.add_sub_cancel' (by omega)] at hrest

/-- An end that is right in the rest of a text is right in the text. -/
theorem Found.endsRight_span {f : Found} {text : Text} {offset : Nat} (ho : offset ≤ text.length)
    (h : (f.span 0).EndsRight (text.drop offset)) : (f.span offset).EndsRight text := by
  obtain ⟨kind, length, terminated⟩ := f
  unfold Span.EndsRight span at h ⊢
  dsimp only at h ⊢
  rw [Nat.zero_add, Nat.zero_add] at h
  cases hc : kind.closer? with
  | none =>
    -- a line comment: its end of line moves with it
    rw [hc] at h
    exact ⟨h.1, lineEndAt_drop ho h.2⟩
  | some closer =>
    rw [hc] at h
    cases terminated with
    | true =>
      -- closed: the closer is the first one after the opener, also from the front of the text
      obtain ⟨o, hfirst, rfl⟩ := h
      exact ⟨offset + o, Text.firstAt_drop.mp hfirst, (Nat.add_assoc _ _ _).symm⟩
    | false =>
      obtain ⟨hlength, hnot⟩ := h
      -- not closed: it reaches the end of the text
      have hstop : offset + length = text.length := by
        rw [List.length_drop] at hlength
        change length = text.length - offset at hlength
        omega
      refine ⟨hstop, fun o hle => ?_⟩
      have hrest := hnot (o - offset) (by omega)
      rwa [List.drop_drop, Nat.add_sub_cancel' (by omega)] at hrest

theorem Kind.opener_pos (kind : Kind) : 0 < kind.opener.length := by
  cases kind <;> decide

/-- The first byte of an opener is neither a newline nor a quote. -/
theorem Kind.head?_opener (kind : Kind) :
    ∃ b, kind.opener.head? = some b ∧ b ≠ byte '\n' ∧ isQuote b = false := by
  cases kind <;> exact ⟨_, rfl, by decide⟩

theorem exists_head?_of_opener {kind : Kind} {text : Text} (h : kind.opener <+: text) :
    ∃ b, text.head? = some b ∧ b ≠ byte '\n' ∧ isQuote b = false := by
  obtain ⟨rest, rfl⟩ := h
  rw [List.head?_append_of_ne_nil _ (List.ne_nil_of_length_pos kind.opener_pos)]
  exact kind.head?_opener

/-- A span that starts with its opener and ends right has a byte and lies in the text. -/
theorem Span.EndsRight.bounds {text : Text} {s : Span} (h : s.EndsRight text)
    (hopener : s.kind.opener <+: text.drop s.start) : s.start < s.stop ∧ s.stop ≤ text.length := by
  have hpos := s.kind.opener_pos
  have hlen := hopener.length_le
  rw [List.length_drop] at hlen
  unfold EndsRight at h
  cases hc : s.kind.closer? with
  | none =>
    rw [hc] at h
    obtain ⟨-, hend⟩ := h
    refine ⟨?_, hend.le_length⟩
    obtain ⟨hle, hat, -⟩ := hend
    -- an empty line comment would start at a newline or at the end
    rcases Nat.lt_or_eq_of_le hle with hlt | heq
    · exact hlt
    · rw [← heq] at hat
      obtain ⟨b, hhead, hne, -⟩ := exists_head?_of_opener hopener
      rw [List.head?_drop, hat.resolve_left (by omega)] at hhead
      exact absurd (Option.some.inj hhead).symm hne
  | some closer =>
    rw [hc] at h
    by_cases hterm : s.terminated = true
    · simp only [hterm, if_true] at h
      obtain ⟨o, ⟨hle, hat, -⟩, hstop⟩ := h
      have hclose := hat.length_le
      rw [List.length_drop] at hclose
      -- the closer stands behind the opener, and both have bytes
      have hcpos : 0 < closer.length := by
        revert hc
        cases s.kind <;> rintro ⟨⟩ <;> decide
      omega
    · simp only [hterm, if_false, Bool.false_eq_true] at h
      omega

theorem isSpace_iff_mem {b : UInt8} : Text.isSpace b = true ↔ b ∈ spaceBytes := by
  simp only [Text.isSpace, Text.isBlank, spaceBytes, Bool.or_eq_true, beq_iff_eq, List.mem_cons,
    List.not_mem_nil, or_false]
  constructor
  · rintro (((((rfl | rfl) | rfl) | rfl) | rfl) | rfl) <;> decide
  · rintro (rfl | rfl | rfl | rfl | rfl | rfl) <;> decide

theorem getLast?_take_succ {text : Text} {offset : Nat} (ho : offset < text.length) :
    (text.take (offset + 1)).getLast? = some text[offset] := by
  rw [List.take_succ_eq_append_getElem ho, List.getLast?_concat]

/-- A scan that knows the byte before an offset knows whether a hash is an opener there. -/
theorem all_isSpace_iff {text : Text} {offset : Nat} (ho : offset < text.length) :
    (text.take offset).getLast?.all Text.isSpace = true ↔
      offset = 0 ∨ ∃ b ∈ spaceBytes, text[offset - 1]? = some b := by
  cases offset with
  | zero => simp
  | succ offset =>
    rw [getLast?_take_succ (by omega), Option.all_some, isSpace_iff_mem, Nat.add_sub_cancel,
      List.getElem?_eq_getElem (by omega)]
    constructor
    · exact fun hmem => Or.inr ⟨_, hmem, rfl⟩
    · rintro (hzero | ⟨b, hmem, hb⟩)
      · cases hzero
      · rwa [Option.some.inj hb]

end ViewLint.Comment
