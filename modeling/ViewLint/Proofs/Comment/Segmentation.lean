import Mathlib.Data.List.Pairwise
import Mathlib.Data.List.Sort
import ViewLint.Comment
import ViewLint.Proofs.Text.Search

/-!
# The comments of a text, without a scan

Which bytes of a template are comments is a question about the whole text before them: a quote hides
the openers behind it, and a comment hides the quotes in it. `IsSegmentation text ss` answers it for
a list of spans as a whole. The quote that is open at an offset is read off the bytes outside the
spans (`quoteAt`); a span starts at an opener with no quote open, ends where its kind ends, and no
opener is left over.

The condition leaves no choice: `IsSegmentation.unique`. Two segmentations agree on the spans before
an offset, hence on the quote that is open there, hence on whether a span starts there, and where a
span ends depends on the text alone.
-/

namespace ViewLint.Comment

open Text (byte FirstAt)

/-! ### Openers and ends -/

namespace Kind

/-- The text that opens a comment. -/
def opener : Kind → Text
  | template => Text.ofString "\x7b\x7b--"
  | markup => Text.ofString "<!--"
  | block => Text.ofString "/*"
  | line => Text.ofString "//"
  | hash => Text.ofString "#"

/-- The text that closes a comment, unless it ends with its line. -/
def closer? : Kind → Option Text
  | template => some (Text.ofString "--\x7d\x7d")
  | markup => some (Text.ofString "-->")
  | block => some (Text.ofString "*/")
  | line => none
  | hash => none

end Kind

/-- White space before a hash. -/
def spaceBytes : List UInt8 := [byte ' ', byte '\t', byte '\n', byte '\r', 0x0B, 0x0C]

/-- An opener of the kind stands at the offset. A hash is an opener only at the start of the text
and behind white space. -/
def OpensAt (text : Text) (kind : Kind) (offset : Nat) : Prop :=
  kind.opener <+: text.drop offset ∧
    (kind = .hash → offset = 0 ∨ ∃ b ∈ spaceBytes, text[offset - 1]? = some b)

/-- The offset is that of the first newline from `start` on, or the end of the text. -/
def LineEndAt (text : Text) (start offset : Nat) : Prop :=
  start ≤ offset ∧ (offset = text.length ∨ text[offset]? = some (byte '\n')) ∧
    ∀ o, start ≤ o → o < offset → text[o]? ≠ some (byte '\n')

/-- The span ends where a comment of its kind ends that starts where the span starts. -/
def Span.EndsRight (text : Text) (s : Span) : Prop :=
  match s.kind.closer? with
  | some closer =>
    if s.terminated then
      ∃ o, FirstAt text closer (s.start + s.kind.opener.length) o ∧ s.stop = o + closer.length
    else
      s.stop = text.length ∧ ∀ o, s.start + s.kind.opener.length ≤ o → ¬ closer <+: text.drop o
  | none => s.terminated = true ∧ LineEndAt text s.start s.stop

/-! ### Quotes -/

/-- The number of backslashes right before an offset. -/
def backslashes (text : Text) (offset : Nat) : Nat :=
  ((text.take offset).reverse.takeWhile (· == byte '\\')).length

/-- The quote that is open behind the byte `b`, when `quote` is open before it and `n` backslashes
stand right before it. -/
def quoteAfter (quote : Option UInt8) (b : UInt8) (n : Nat) : Option UInt8 :=
  match quote with
  | none => if b = byte '"' ∨ b = byte '\'' then some b else none
  | some q => if b = q ∧ n % 2 = 0 then none else some q

/-- Is the offset outside all spans? -/
def Outside (ss : List Span) (offset : Nat) : Prop := ∀ s ∈ ss, offset < s.start ∨ s.stop ≤ offset

instance (ss : List Span) (offset : Nat) : Decidable (Outside ss offset) :=
  inferInstanceAs (Decidable (∀ s ∈ ss, _))

/-- The quote that is open at an offset. Only the bytes outside the spans count. -/
def quoteAt (text : Text) (ss : List Span) : Nat → Option UInt8
  | 0 => none
  | offset + 1 =>
    match text[offset]? with
    | some b =>
      if Outside ss offset then quoteAfter (quoteAt text ss offset) b (backslashes text offset)
      else quoteAt text ss offset
    | none => quoteAt text ss offset

/-! ### Segmentations -/

/-- **The spans are the comments of the text.** -/
structure IsSegmentation (text : Text) (ss : List Span) : Prop where
  /-- The spans are in order and do not overlap. -/
  ordered : ss.Pairwise fun s t => s.stop ≤ t.start
  /-- A span has at least one byte. -/
  nonempty : ∀ s ∈ ss, s.start < s.stop
  /-- A span lies in the text. -/
  inside : ∀ s ∈ ss, s.stop ≤ text.length
  /-- A span starts where no quote is open. -/
  unquoted : ∀ s ∈ ss, quoteAt text ss s.start = none
  /-- A span starts with the opener of its kind. -/
  opens : ∀ s ∈ ss, OpensAt text s.kind s.start
  /-- A span ends where its kind ends. -/
  ends : ∀ s ∈ ss, s.EndsRight text
  /-- No opener is left over. -/
  complete : ∀ o, Outside ss o → quoteAt text ss o = none → ∀ kind, ¬ OpensAt text kind o

/-! ### What determines a span -/

/-- The first two bytes tell the kinds apart. -/
theorem Kind.eq_of_opener {a b : Kind} {text : Text} (ha : a.opener <+: text)
    (hb : b.opener <+: text) : a = b := by
  have hprefix := List.prefix_or_prefix_of_prefix ha hb
  revert hprefix
  cases a <;> cases b <;> decide

theorem LineEndAt.le_length {text : Text} {start a : Nat} (h : LineEndAt text start a) :
    a ≤ text.length := by
  obtain ⟨-, hend | hat, -⟩ := h
  · omega
  · obtain ⟨hlt, -⟩ := List.getElem?_eq_some_iff.mp hat
    omega

theorem LineEndAt.unique {text : Text} {start a b : Nat} (ha : LineEndAt text start a)
    (hb : LineEndAt text start b) : a = b := by
  have hain := ha.le_length
  have hbin := hb.le_length
  obtain ⟨hle, hat, hfirst⟩ := ha
  obtain ⟨hle', hat', hfirst'⟩ := hb
  rcases Nat.lt_trichotomy a b with h | h | h
  · exact absurd (hat.resolve_left (by omega)) (hfirst' a hle h)
  · exact h
  · exact absurd (hat'.resolve_left (by omega)) (hfirst b hle' h)

/-- **Where a span ends depends on its kind and its start.** -/
theorem Span.EndsRight.eq {text : Text} {s t : Span} (hs : s.EndsRight text) (ht : t.EndsRight text)
    (hkind : s.kind = t.kind) (hstart : s.start = t.start) : s = t := by
  obtain ⟨kind, start, stop, terminated⟩ := s
  obtain ⟨kind', start', stop', terminated'⟩ := t
  dsimp only at hkind hstart
  subst hkind hstart
  unfold EndsRight at hs ht
  dsimp only at hs ht
  cases hc : kind.closer? with
  | none =>
    rw [hc] at hs ht
    obtain ⟨rfl, hs⟩ := hs
    obtain ⟨rfl, ht⟩ := ht
    rw [hs.unique ht]
  | some closer =>
    rw [hc] at hs ht
    -- a closer that one of the spans has found is there for the other one too
    cases terminated <;> cases terminated'
    · rw [hs.1, ht.1]
    · obtain ⟨o, hfirst, -⟩ := ht
      exact absurd hfirst.2.1 (hs.2 o hfirst.1)
    · obtain ⟨o, hfirst, -⟩ := hs
      exact absurd hfirst.2.1 (ht.2 o hfirst.1)
    · obtain ⟨o, hfirst, rfl⟩ := hs
      obtain ⟨o', hfirst', rfl⟩ := ht
      rw [hfirst.unique hfirst']

/-! ### Only one list is a segmentation -/

/-- The quote that is open at an offset depends on the bytes before the offset. -/
theorem quoteAt_congr {text : Text} {a b : List Span} {offset : Nat}
    (h : ∀ o < offset, Outside a o ↔ Outside b o) :
    quoteAt text a offset = quoteAt text b offset := by
  induction offset with
  | zero => rfl
  | succ offset ih =>
    have hih := ih fun o ho => h o (Nat.lt_succ_of_lt ho)
    rw [quoteAt, quoteAt, hih]
    simp only [h offset (Nat.lt_succ_self offset)]

/-- Spans that agree before an offset leave the same offsets before it outside. -/
theorem outside_congr {a b : List Span} {offset o : Nat}
    (h : ∀ s : Span, s.start < offset → (s ∈ a ↔ s ∈ b)) (ho : o < offset) :
    Outside a o ↔ Outside b o := by
  constructor
  · intro hout s hs
    by_cases hlt : s.start < offset
    · exact hout s ((h s hlt).mpr hs)
    · exact Or.inl (by omega)
  · intro hout s hs
    by_cases hlt : s.start < offset
    · exact hout s ((h s hlt).mp hs)
    · exact Or.inl (by omega)

namespace IsSegmentation

variable {text : Text} {a b : List Span}

/-- Two spans of a segmentation that share a byte are the same. -/
theorem eq_of_overlap (h : IsSegmentation text a) {s t : Span} (hs : s ∈ a) (ht : t ∈ a)
    (hst : s.start < t.stop) (hts : t.start < s.stop) : s = t := by
  by_contra hne
  have hsymm : Std.Symm fun s t : Span => s.stop ≤ t.start ∨ t.stop ≤ s.start :=
    ⟨fun _ _ h => h.symm⟩
  have hapart : a.Pairwise fun s t => s.stop ≤ t.start ∨ t.stop ≤ s.start :=
    h.ordered.imp Or.inl
  rcases hapart.forall hs ht hne with hle | hle <;> omega

/-- Two comments of a segmentation lie apart. -/
theorem apart (h : IsSegmentation text a) {s t : Span} (hs : s ∈ a) (ht : t ∈ a) (hne : s ≠ t) :
    s.stop ≤ t.start ∨ t.stop ≤ s.start := by
  by_contra hover
  exact hne (h.eq_of_overlap hs ht (by omega) (by omega))

/-- The starts of the spans increase. -/
theorem start_lt (h : IsSegmentation text a) : a.Pairwise fun s t => s.start < t.start :=
  h.ordered.imp_of_mem fun hs _ hle => Nat.lt_of_lt_of_le (h.nonempty _ hs) hle

/-- A span of one segmentation is a span of the other, if they agree on the spans before it. -/
theorem mem_of_agree (ha : IsSegmentation text a) (hb : IsSegmentation text b) {s : Span}
    (hs : s ∈ a) (hagree : ∀ t : Span, t.start < s.start → (t ∈ a ↔ t ∈ b)) : s ∈ b := by
  have hquote : quoteAt text b s.start = none := by
    rw [← quoteAt_congr fun o ho => outside_congr hagree ho]
    exact ha.unquoted s hs
  -- the opener of `s` is not left over, so that a span of `b` covers it
  have hcovered : ¬ Outside b s.start := fun hout =>
    hb.complete s.start hout hquote s.kind (ha.opens s hs)
  unfold Outside at hcovered
  push Not at hcovered
  obtain ⟨t, ht, hle, hlt⟩ := hcovered
  rcases Nat.lt_or_eq_of_le hle with hbefore | hstart
  · -- a span that starts before `s` is in both lists, and cannot reach into `s`
    have hta := (hagree t hbefore).mpr ht
    have hpos := ha.nonempty s hs
    rw [ha.eq_of_overlap hta hs (by omega) hlt] at hbefore
    exact absurd hbefore (Nat.lt_irrefl _)
  · -- a span that starts with `s` has its kind, and so its end
    have hopens := hb.opens t ht
    rw [hstart] at hopens
    have hkind : s.kind = t.kind := Kind.eq_of_opener (ha.opens s hs).1 hopens.1
    rw [(ha.ends s hs).eq (hb.ends t ht) hkind hstart.symm]
    exact ht

/-- Two segmentations have the same spans before every offset. -/
theorem agree (ha : IsSegmentation text a) (hb : IsSegmentation text b) (offset : Nat) (s : Span)
    (hs : s.start < offset) : s ∈ a ↔ s ∈ b := by
  induction offset generalizing s with
  | zero => exact absurd hs (Nat.not_lt_zero _)
  | succ offset ih =>
    have hbefore : ∀ t : Span, t.start < s.start → (t ∈ a ↔ t ∈ b) :=
      fun t ht => ih t (by omega)
    exact ⟨fun h => ha.mem_of_agree hb h hbefore,
      fun h => hb.mem_of_agree ha h fun t ht => (hbefore t ht).symm⟩

/-- **A text has one segmentation at most.** -/
theorem unique (ha : IsSegmentation text a) (hb : IsSegmentation text b) : a = b := by
  have hanti : Std.Antisymm fun s t : Span => s.start < t.start :=
    ⟨fun s t hst hts => absurd hst (Nat.lt_asymm hts)⟩
  have hirrefl : Std.Irrefl fun s t : Span => s.start < t.start := ⟨fun s => Nat.lt_irrefl s.start⟩
  exact ha.start_lt.eq_of_mem_iff hb.start_lt fun s => ha.agree hb _ s (Nat.lt_succ_self s.start)

end IsSegmentation

end ViewLint.Comment
