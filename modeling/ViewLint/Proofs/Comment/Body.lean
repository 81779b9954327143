import Mathlib.Data.Nat.Find
import ViewLint.Proofs.Balance.LineLengths
import ViewLint.Proofs.Comment.Strip

/-!
# What stands in a comment does not matter

Two runs: a text, and the same text with another body in one of its comments. The new body may hold
quotes, backslashes, openers of other comments, directives and tags. It may not move the closer of
its comment nor the line ends of the text (`SameButBody`). Then the two texts have the same
comments, are the same once blanked, and get the same analysis (`analyze_eq_of_sameButBody`).

The scan is not run a second time. The list of the comments of the first text is a segmentation of
the second one, condition by condition, and a text has one segmentation only. Three things could
leak out of the body: an opener that reaches into it from before (`Kind.opener_overlap` rules it
out), the byte before a hash right behind it, and backslashes before a quote; the last two are seen
only where the body has ended.
-/

namespace ViewLint

open Text (byte FirstAt)

namespace Text

theorem exists_firstAt {text needle : Text} {start o : Nat} (hle : start ≤ o)
    (h : needle <+: text.drop o) : ∃ first, FirstAt text needle start first := by
  classical
  have hex : ∃ n, start ≤ n ∧ needle <+: text.drop n := ⟨o, hle, h⟩
  refine ⟨Nat.find hex, (Nat.find_spec hex).1, (Nat.find_spec hex).2, fun n hn hlt hat => ?_⟩
  exact Nat.find_min hex hlt ⟨hn, hat⟩

end Text

namespace Comment

/-! ### Bodies -/

namespace Span

/-- Where the body of a comment starts. -/
def bodyStart (s : Span) : Nat := s.start + s.kind.opener.length

/-- Where the body of a comment ends: before its closer, or with the comment if it has none. -/
def bodyStop (s : Span) : Nat :=
  match s.kind.closer? with
  | some closer => if s.terminated then s.stop - closer.length else s.stop
  | none => s.stop

/-- The offset lies in the body of the comment. -/
def InBody (s : Span) (o : Nat) : Prop := s.bodyStart ≤ o ∧ o < s.bodyStop

theorem start_lt_bodyStart (s : Span) : s.start < s.bodyStart := by
  have hpos := s.kind.opener_pos
  unfold bodyStart
  omega

theorem bodyStop_le (s : Span) : s.bodyStop ≤ s.stop := by
  unfold bodyStop
  split
  · split <;> omega
  · exact Nat.le_refl _

end Span

/-- A carriage return stands at the offset, right before a newline or the end of the text. -/
def LineReturnAt (text : Text) (o : Nat) : Prop :=
  text[o]? = some (byte '\r') ∧ (text[o + 1]? = some (byte '\n') ∨ text.length = o + 1)

/-- The lines of two texts end at the same offsets, with a carriage return or without. -/
structure SameLineEnds (x y : Text) : Prop where
  length : y.length = x.length
  newline : ∀ o : Nat, y[o]? = some (byte '\n') ↔ x[o]? = some (byte '\n')
  lineReturn : ∀ o, LineReturnAt y o ↔ LineReturnAt x o

/-- **The texts differ in the body of a comment only**, which neither moves a line end nor the
closer of the comment. -/
structure SameButBody (x y : Text) (s : Span) : Prop extends SameLineEnds x y where
  outside : ∀ o : Nat, ¬ s.InBody o → y[o]? = x[o]?
  closer : ∀ closer, s.kind.closer? = some closer →
    ∀ o, FirstAt y closer s.bodyStart o ↔ FirstAt x closer s.bodyStart o

/-! ### Openers -/

/-- An opener that starts before another one ends no later than that one. -/
theorem Kind.opener_overlap {k l : Kind} {d : Nat} (hd : 0 < d) (hlt : d < k.opener.length)
    (hsame : ∀ i < l.opener.length, d + i < k.opener.length → k.opener[d + i]? = l.opener[i]?) :
    k.opener.length ≤ d + l.opener.length := by
  -- openers have four bytes at most, so that there are three distances to look at
  have hle : k.opener.length ≤ 4 := by cases k <;> decide
  obtain rfl | rfl | rfl : d = 1 ∨ d = 2 ∨ d = 3 := by omega
  all_goals
    revert hlt hsame
    cases k <;> cases l <;> decide

/-- No opener from before a comment reaches into its body. -/
theorem not_opener_into_body {text : Text} {s : Span} (hopener : s.kind.opener <+: text.drop s.start)
    {kind : Kind} {o : Nat} (ho : o < s.start) (hreach : s.bodyStart < o + kind.opener.length) :
    ¬ kind.opener <+: text.drop o := by
  intro hat
  -- where the two openers overlap they have the same bytes
  rw [List.prefix_iff_getElem?] at hopener hat
  have hover := Kind.opener_overlap (k := kind) (l := s.kind) (d := s.start - o) (by omega)
  unfold Span.bodyStart at hreach
  have hle := hover (by have := s.kind.opener_pos; omega) fun i hi hk => by
    have hbyte := hat (s.start - o + i) hk
    have hbyte' := hopener i hi
    rw [List.getElem?_drop] at hbyte hbyte'
    have hpos : o + (s.start - o + i) = s.start + i := by omega
    rw [hpos, hbyte'] at hbyte
    rw [List.getElem?_eq_getElem hk, List.getElem?_eq_getElem hi, hbyte]
  omega

/-- A comment without a closer ends with its line or with the text. -/
theorem Span.EndsRight.at_stop {text : Text} {s : Span} (h : s.EndsRight text)
    (hstop : s.bodyStop = s.stop) (hpos : 0 < s.stop) :
    s.stop = text.length ∨ text[s.stop]? = some (byte '\n') := by
  unfold EndsRight at h
  unfold Span.bodyStop at hstop
  cases hc : s.kind.closer? with
  -- a line comment ends where its line does
  | none =>
    rw [hc] at h
    exact h.2.2.1
  | some closer =>
    -- a block: its body stops at the closer when it has one, so it did not have one
    rw [hc] at h hstop
    have hcpos : 0 < closer.length := by
      revert hc
      cases s.kind <;> rintro ⟨⟩ <;> decide
    by_cases hterm : s.terminated = true
    · simp only [hterm, if_true] at hstop
      omega
    · simp only [hterm, if_false, Bool.false_eq_true] at h
      exact Or.inl h.1

namespace SameButBody

variable {x y : Text} {s : Span}

theorem getElem?_of_lt (h : SameButBody x y s) {o : Nat} (ho : o < s.bodyStart) : y[o]? = x[o]? :=
  h.outside o fun hin => absurd hin.1 (by omega)

theorem getElem?_of_le (h : SameButBody x y s) {o : Nat} (ho : s.bodyStop ≤ o) : y[o]? = x[o]? :=
  h.outside o fun hin => absurd hin.2 (by omega)

/-- The opener of the comment stands in both texts. -/
theorem opener (h : SameButBody x y s) (hs : s ∈ spans x) : s.kind.opener <+: y.drop s.start :=
  (Text.prefix_drop_congr fun _ _ hi => h.getElem?_of_lt hi).mpr (opensAt_of_mem_spans hs).1

theorem opener_iff_before (h : SameButBody x y s) (hs : s ∈ spans x) {o : Nat} (ho : o < s.start)
    (kind : Kind) : kind.opener <+: y.drop o ↔ kind.opener <+: x.drop o := by
  by_cases hreach : o + kind.opener.length ≤ s.bodyStart
  · exact Text.prefix_drop_congr fun i _ hi => h.getElem?_of_lt (by omega)
  · refine iff_of_false ?_ ?_
    · exact not_opener_into_body (h.opener hs) ho (by omega)
    · exact not_opener_into_body (opensAt_of_mem_spans hs).1 ho (by omega)

/-- **Outside the comment the same openers stand in both texts.** -/
theorem opensAt_iff (h : SameButBody x y s) (hs : s ∈ spans x) {o : Nat}
    (ho : o < s.start ∨ s.stop ≤ o) (kind : Kind) : OpensAt y kind o ↔ OpensAt x kind o := by
  have hstart := s.start_lt_bodyStart
  have hstop := s.bodyStop_le
  have hseg := isSegmentation_spans x
  have hne := hseg.nonempty s hs
  unfold OpensAt
  rcases ho with hbefore | hbehind
  · rw [h.opener_iff_before hs hbefore, h.getElem?_of_lt (o := o - 1) (by omega)]
  · have hopener : kind.opener <+: y.drop o ↔ kind.opener <+: x.drop o :=
      Text.prefix_drop_congr fun i hi _ => h.getElem?_of_le (by omega)
    by_cases hclosed : s.bodyStop ≤ o - 1
    · rw [hopener, h.getElem?_of_le hclosed]
    · -- the byte before the offset is in the body, but then no opener stands at the offset
      have hnone : ¬ kind.opener <+: x.drop o := by
        intro hat
        obtain ⟨b, hhead, hnl, -⟩ := exists_head?_of_opener hat
        rw [List.head?_drop] at hhead
        obtain rfl : o = s.stop := by omega
        rcases (hseg.ends s hs).at_stop (by omega) (by omega) with hend | hline
        · rw [List.getElem?_eq_none (by omega)] at hhead
          cases hhead
        · rw [hline] at hhead
          exact hnl (Option.some.inj hhead).symm
      exact iff_of_false (fun hy => hnone (hopener.mp hy.1)) fun hx => hnone hx.1

/-! ### Ends -/

theorem lineEndAt (h : SameButBody x y s) {start o : Nat} (hend : LineEndAt x start o) :
    LineEndAt y start o := by
  obtain ⟨hle, hat, hfirst⟩ := hend
  refine ⟨hle, ?_, fun i hi hlt => ?_⟩
  · rw [h.length, h.newline]
    exact hat
  · rw [Ne, h.newline]
    exact hfirst i hi hlt

/-- The comment itself ends where it did. -/
theorem endsRight_self (h : SameButBody x y s) (hs : s ∈ spans x) : s.EndsRight y := by
  have hends := (isSegmentation_spans x).ends s hs
  unfold Span.EndsRight at hends ⊢
  cases hc : s.kind.closer? with
  | none =>
    rw [hc] at hends
    exact ⟨hends.1, h.lineEndAt hends.2⟩
  | some closer =>
    rw [hc] at hends
    have hcloser := h.closer closer hc
    by_cases hterm : s.terminated = true
    · simp only [hterm, if_true] at hends ⊢
      obtain ⟨o, hfirst, hstop⟩ := hends
      exact ⟨o, (hcloser o).mpr hfirst, hstop⟩
    · simp only [hterm, if_false, Bool.false_eq_true] at hends ⊢
      refine ⟨hends.1.trans h.length.symm, fun o ho hat => ?_⟩
      -- a closer in the new body would have a first place, and that would be one in the old body
      obtain ⟨first, hfirst⟩ := Text.exists_firstAt ho hat
      have hx := (hcloser first).mp hfirst
      exact hends.2 first hx.1 hx.2.1

/-- A comment before or behind it ends where it did. -/
theorem endsRight_other (h : SameButBody x y s) (hs : s ∈ spans x) {t : Span} (ht : t ∈ spans x)
    (hapart : t.stop ≤ s.start ∨ s.stop ≤ t.start) : t.EndsRight y := by
  have hseg := isSegmentation_spans x
  have hends := hseg.ends t ht
  have hstart := s.start_lt_bodyStart
  have hstop := s.bodyStop_le
  unfold Span.EndsRight at hends ⊢
  cases hc : t.kind.closer? with
  | none =>
    rw [hc] at hends
    exact ⟨hends.1, h.lineEndAt hends.2⟩
  | some closer =>
    rw [hc] at hends
    by_cases hterm : t.terminated = true
    · simp only [hterm, if_true] at hends ⊢
      obtain ⟨o, ⟨hle, hat, hfirst⟩, heq⟩ := hends
      -- up to the closer the bytes are those of the first text
      have hsame : ∀ i, t.start + t.kind.opener.length ≤ i → i ≤ o →
          (closer <+: y.drop i ↔ closer <+: x.drop i) := by
        intro i hi hio
        refine Text.prefix_drop_congr fun j hj hlt => ?_
        rcases hapart with hbefore | hbehind
        · exact h.getElem?_of_lt (by omega)
        · exact h.getElem?_of_le (by omega)
      refine ⟨o, ⟨hle, (hsame o hle (Nat.le_refl o)).mpr hat, fun i hi hlt => ?_⟩, heq⟩
      rw [hsame i hi hlt.le]
      exact hfirst i hi hlt
    · simp only [hterm, if_false, Bool.false_eq_true] at hends ⊢
      refine ⟨hends.1.trans h.length.symm, fun o ho => ?_⟩
      have hne := hseg.nonempty s hs
      have hin := hseg.inside s hs
      -- a comment that runs to the end of the text is behind all others
      rw [Text.prefix_drop_congr fun i hi _ => h.getElem?_of_le (by omega)]
      exact hends.2 o ho

/-! ### Quotes -/

/-- Before and in a comment the same quotes are open in both texts, and in a string the same number
of backslashes stands before an offset. -/
theorem quoteAt_eq (h : SameButBody x y s) (hs : s ∈ spans x) {o : Nat} (ho : o ≤ x.length) :
    quoteAt y (spans x) o = quoteAt x (spans x) o ∧
      (quoteAt x (spans x) o ≠ none → backslashes y o = backslashes x o) := by
  refine quoteAt_of_agree h.length (fun o hout => ⟨hout, ?_⟩)
    (fun o b hnot hout _ => absurd hout hnot) ho
  -- a byte outside of the comments is the same in both texts
  refine h.outside o fun hin => ?_
  have hs' := hout s hs
  have hstart := s.start_lt_bodyStart
  have hstop := s.bodyStop_le
  have hin1 := hin.1
  have hin2 := hin.2
  omega

/-! ### The two texts -/

/-- The comments of the first text segment the second one. -/
theorem isSegmentation (h : SameButBody x y s) (hs : s ∈ spans x) :
    IsSegmentation y (spans x) := by
  have hseg := isSegmentation_spans x
  refine ⟨hseg.ordered, hseg.nonempty, ?_, ?_, ?_, ?_, ?_⟩
  · intro t ht
    rw [h.length]
    exact hseg.inside t ht
  · intro t ht
    have hlt := hseg.nonempty t ht
    have hin := hseg.inside t ht
    rw [(h.quoteAt_eq hs (by omega)).1]
    exact hseg.unquoted t ht
  · intro t ht
    by_cases hts : t = s
    · rw [hts]
      refine ⟨h.opener hs, fun hhash => ?_⟩
      have hstart := s.start_lt_bodyStart
      rw [h.getElem?_of_lt (o := s.start - 1) (by omega)]
      exact (hseg.opens s hs).2 hhash
    · refine (h.opensAt_iff hs ?_ t.kind).mpr (hseg.opens t ht)
      have hlt := hseg.nonempty t ht
      have hlt' := hseg.nonempty s hs
      rcases hseg.apart ht hs hts with hle | hle <;> omega
  · intro t ht
    by_cases hts : t = s
    · rw [hts]
      exact h.endsRight_self hs
    · exact h.endsRight_other hs ht (hseg.apart ht hs hts)
  · intro o hout hquote kind hopens
    by_cases ho : o ≤ x.length
    · rw [(h.quoteAt_eq hs ho).1] at hquote
      exact hseg.complete o hout hquote kind ((h.opensAt_iff hs (hout s hs) kind).mp hopens)
    · -- behind the text there is nothing
      have hlen := hopens.1.length_le
      rw [List.length_drop, h.length] at hlen
      have hpos := kind.opener_pos
      omega

theorem spans_eq (h : SameButBody x y s) (hs : s ∈ spans x) : spans y = spans x :=
  (isSegmentation_spans y).unique (h.isSegmentation hs)

theorem strip_eq (h : SameButBody x y s) (hs : s ∈ spans x) : strip y = strip x := by
  refine List.ext_getElem? fun o => ?_
  rw [getElem?_strip, getElem?_strip, h.spans_eq hs]
  by_cases hout : Outside (spans x) o
  · rw [h.outside o fun hin => ?_]
    have hs' := hout s hs
    have hstart := s.start_lt_bodyStart
    have hstop := s.bodyStop_le
    have hin1 := hin.1
    have hin2 := hin.2
    omega
  · -- inside a comment only newlines are seen, and they are the same
    have hblank : ∀ b, blankAt (spans x) o b = if b = byte '\n' then byte '\n' else byte ' ' := by
      intro b
      rw [blankAt_of_not_outside hout]
      split <;> simp_all
    have hnl := h.newline o
    cases hx : x[o]? with
    | none =>
      have hy : y[o]? = none := by
        rw [List.getElem?_eq_none_iff, h.length]
        exact List.getElem?_eq_none_iff.mp hx
      rw [hy]
    | some b =>
      obtain ⟨hlt, -⟩ := List.getElem?_eq_some_iff.mp hx
      obtain ⟨c, hc⟩ : ∃ c, y[o]? = some c :=
        ⟨_, List.getElem?_eq_getElem (h.length ▸ hlt : o < y.length)⟩
      rw [hx, hc, Option.some.injEq, Option.some.injEq] at hnl
      rw [hc, Option.map_some, Option.map_some, hblank, hblank]
      simp only [hnl]

end SameButBody

end Comment

/-! ### Lines -/

/-- The length of a line without its carriage return, byte by byte. -/
theorem length_dropTail_return_cons (a : UInt8) (rest : Text) :
    (Text.dropTail [byte '\r'] (a :: rest)).length =
      if rest = [] then if a = byte '\r' then 0 else 1
      else (Text.dropTail [byte '\r'] rest).length + 1 := by
  unfold Text.dropTail
  cases rest with
  | nil =>
    by_cases ha : a = byte '\r'
    · -- the only byte is the tail, and is dropped if it is a return
      rw [ha]
      rfl
    · have hnot : ¬ [byte '\r'].isSuffixOf [a] = true := by
        rw [List.isSuffixOf_iff_suffix, List.suffix_cons_iff]
        simp [Ne.symm ha]
      rw [if_neg hnot, if_pos rfl, if_neg ha]
      rfl
  | cons b rest =>
    -- a second byte: whether the text ends in a return is up to the bytes from it on
    have hsuffix : [byte '\r'].isSuffixOf (a :: b :: rest) = [byte '\r'].isSuffixOf (b :: rest) := by
      rw [Bool.eq_iff_iff, List.isSuffixOf_iff_suffix, List.isSuffixOf_iff_suffix,
        List.suffix_cons_iff]
      simp
    rw [hsuffix, if_neg (List.cons_ne_nil b rest)]
    split
    · simp
    · rfl

namespace Comment.SameLineEnds

variable {x y : Text} {a b : UInt8}

theorem tail (h : SameLineEnds (a :: x) (b :: y)) : SameLineEnds x y where
  length := Nat.succ.inj h.length
  newline o := h.newline (o + 1)
  lineReturn o := by
    have hshift := h.lineReturn (o + 1)
    unfold LineReturnAt at hshift ⊢
    simpa only [List.getElem?_cons_succ, List.length_cons, Nat.add_right_cancel_iff] using hshift

theorem head_newline (h : SameLineEnds (a :: x) (b :: y)) : b = byte '\n' ↔ a = byte '\n' := by
  simpa using h.newline 0

/-- The first lines are both empty, or neither is. -/
theorem takeWhile_eq_nil_iff (h : SameLineEnds x y) :
    y.takeWhile (· != byte '\n') = [] ↔ x.takeWhile (· != byte '\n') = [] := by
  cases x with
  | nil =>
    obtain rfl := List.eq_nil_of_length_eq_zero h.length
    exact Iff.rfl
  | cons a x =>
    cases y with
    | nil => exact absurd h.length (by simp)
    | cons b y =>
      have hnl := h.head_newline
      rw [List.takeWhile_cons, List.takeWhile_cons]
      by_cases ha : a = byte '\n'
      · -- `x` begins with the end of its line, so `y` does too
        simp [ha, hnl.mpr ha]
      · -- neither does
        simp [ha, mt hnl.mp ha]

/-- A line of one byte is a carriage return in both texts, or in neither. -/
theorem head_return (h : SameLineEnds (a :: x) (b :: y))
    (hempty : x.takeWhile (· != byte '\n') = []) : b = byte '\r' ↔ a = byte '\r' := by
  -- a byte whose line ends right after it is a return exactly if it is a line return
  have hends : ∀ {t : Text} {c : UInt8}, t.takeWhile (· != byte '\n') = [] →
      (c = byte '\r' ↔ LineReturnAt (c :: t) 0) := by
    intro t c ht
    unfold LineReturnAt
    cases t with
    | nil => simp
    | cons d t =>
      rw [List.takeWhile_cons] at ht
      have hd : d = byte '\n' := by
        by_contra hd
        simp [hd] at ht
      simp [hd]
  rw [hends (h.tail.takeWhile_eq_nil_iff.mpr hempty), hends hempty]
  exact h.lineReturn 0

/-- Line by line, the contents have the same lengths. -/
theorem map_length_split (h : SameLineEnds x y) :
    (Text.split (byte '\n') y).map (fun raw => (Text.dropTail [byte '\r'] raw).length) =
      (Text.split (byte '\n') x).map fun raw => (Text.dropTail [byte '\r'] raw).length := by
  induction x generalizing y with
  | nil =>
    obtain rfl := List.eq_nil_of_length_eq_zero h.length
    rfl
  | cons a x ih =>
    cases y with
    | nil => exact absurd h.length (by simp)
    | cons b y =>
      have hih := ih h.tail
      rw [Text.split, Text.split]
      by_cases ha : a = byte '\n'
      · rw [if_pos ha, if_pos (h.head_newline.mpr ha), List.map_cons, List.map_cons, hih]
      · rw [if_neg ha, if_neg (mt h.head_newline.mp ha)]
        have hx := Text.head?_split (byte '\n') x
        have hy := Text.head?_split (byte '\n') y
        cases hsx : Text.split (byte '\n') x with
        | nil => rw [hsx] at hx; cases hx
        | cons p ps =>
          cases hsy : Text.split (byte '\n') y with
          | nil => rw [hsy] at hy; cases hy
          | cons q qs =>
            rw [hsx] at hx hih
            rw [hsy] at hy hih
            obtain rfl : p = _ := Option.some.inj hx
            obtain rfl : q = _ := Option.some.inj hy
            rw [List.map_cons, List.map_cons] at hih
            obtain ⟨hhead, htail⟩ := List.cons.inj hih
            dsimp only
            rw [List.map_cons, List.map_cons, htail, length_dropTail_return_cons,
              length_dropTail_return_cons]
            congr 1
            -- the byte in front is the whole line, or it makes a longer one longer by one
            by_cases hempty : x.takeWhile (· != byte '\n') = []
            · rw [if_pos hempty, if_pos (h.tail.takeWhile_eq_nil_iff.mpr hempty)]
              simp only [h.head_return hempty]
            · rw [if_neg hempty, if_neg (mt h.tail.takeWhile_eq_nil_iff.mp hempty), hhead]

/-- **Texts whose lines end at the same offsets have lines of the same lengths.** -/
theorem sameLineLengths (h : SameLineEnds x y) : SameLineLengths ⟨y⟩ ⟨x⟩ := by
  intro i
  unfold Document.line Document.rawLines
  split
  · rfl
  · have hmap := congrArg (fun l => l[i.toNat]?.getD 0) h.map_length_split
    simp only [List.getElem?_map] at hmap
    rw [List.getD_eq_getElem?_getD, List.getD_eq_getElem?_getD]
    cases hy : (Text.split (byte '\n') y)[i.toNat]? <;>
      cases hx : (Text.split (byte '\n') x)[i.toNat]? <;> rw [hx, hy] at hmap <;>
      simpa [Text.dropTail] using hmap

end Comment.SameLineEnds

/-! ### The main result -/

/-- **What stands in a comment does not matter.** A text and the same text with another body in one
of its comments have the same comments, are the same once blanked, and get the same diagnostics and
blocks for every window. -/
theorem analyze_eq_of_sameButBody {x y : Text} {s : Comment.Span} (hs : s ∈ Comment.spans x)
    (h : Comment.SameButBody x y s) :
    Comment.spans y = Comment.spans x ∧ Comment.strip y = Comment.strip x ∧
      ∀ window, analyze window y = analyze window x := by
  refine ⟨h.spans_eq hs, h.strip_eq hs, fun window => ?_⟩
  refine analyze_congr h.toSameLineEnds.sameLineLengths ?_ window
  rw [h.strip_eq hs]

/-- A body with a quote, a backslash, a directive and an opener of another comment, and a carriage
return that ends no line. -/
theorem analyze_eq_of_sameButBody_markup :
    let x := Text.ofString "<!-- aaaaaaaaa\n -->#\r\n@endif"
    let y := Text.ofString "<!-- '\\@if/*\r.\n -->#\r\n@endif"
    let s : Comment.Span := ⟨.markup, 0, 19, true⟩
    s ∈ Comment.spans x ∧ Comment.SameButBody x y s ∧
      Comment.spans y = Comment.spans x ∧ Comment.strip y = Comment.strip x ∧
        ∀ window, analyze window y = analyze window x := by
  intro x y s
  -- the comment is the whole `<!-- ... -->`, and its body the 12 bytes between
  have hs : s ∈ Comment.spans x := by decide +kernel
  have hlen : x.length = 28 ∧ y.length = 28 := by decide +kernel
  -- past the 28 bytes both texts have nothing, which leaves finitely many offsets
  have hnone : ∀ o, ¬ o < 28 → x[o]? = none ∧ y[o]? = none := by
    intro o ho
    exact ⟨List.getElem?_eq_none (by omega), List.getElem?_eq_none (by omega)⟩
  have hfirst : ∀ {t : Text}, Text.find? (Text.ofString "-->") (t.drop 4) = some 12 →
      FirstAt t (Text.ofString "-->") 4 16 := fun h =>
    Text.firstAt_drop.mp (Text.firstAt_of_find? h)
  have hx : FirstAt x (Text.ofString "-->") 4 16 := hfirst (by decide +kernel)
  have hy : FirstAt y (Text.ofString "-->") 4 16 := hfirst (by decide +kernel)
  have hsame : Comment.SameButBody x y s := by
    refine ⟨⟨by rw [hlen.1, hlen.2], fun o => ?_, fun o => ?_⟩, fun o hout => ?_, ?_⟩
    · -- the same line ends
      by_cases ho : o < 28
      · revert o
        decide +kernel
      · rw [(hnone o ho).1, (hnone o ho).2]
    · -- the same returns before them
      by_cases ho : o < 28
      · revert o
        unfold Comment.LineReturnAt
        decide +kernel
      · unfold Comment.LineReturnAt
        rw [(hnone o ho).1, (hnone o ho).2]
        simp
    · -- the same bytes outside the body
      by_cases ho : o < 28
      · have hsmall : ∀ o < 28, ¬ s.InBody o → y[o]? = x[o]? := by
          unfold Comment.Span.InBody
          decide +kernel
        exact hsmall o ho hout
      · rw [(hnone o ho).1, (hnone o ho).2]
    · -- the closer stands first at 16 in both
      intro closer hcloser o
      obtain rfl := Option.some.inj hcloser
      exact ⟨fun h => hy.unique h ▸ hx, fun h => hx.unique h ▸ hy⟩
  exact ⟨hs, hsame, analyze_eq_of_sameButBody hs hsame⟩

end ViewLint
