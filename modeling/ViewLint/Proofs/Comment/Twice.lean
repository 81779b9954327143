import ViewLint.Proofs.Comment.Live

/-!
# Blanking twice

Blanking the blanked text need not leave it as it is. A hash is a comment only behind white space, and
blanking puts white space in front of a hash that stands right behind a comment (`BaresHash`). This is
the only way in which a blanked text can have a comment (`spans_strip_eq_nil_iff`), and a text without
comments is the only one that blanking leaves as it is (`strip_eq_self_iff`); hence
`strip_strip_eq_self_iff`.

No second scan is run. That the blanked text has no comment means that the empty list is a segmentation
of it, and of a segmentation only completeness is left to prove: outside strings no opener stands in the
blanked text.

* The same quotes are open in both texts (`quoteAt_strip`), for blanking takes away no quote outside
  comments and puts none in.
* The bytes of an opener are solid, so the opener stands in the text itself, outside all comments. There
  it would be a comment, were it not for the byte before (`exists_baresHash`).
-/

namespace ViewLint.Comment

open Text (byte Solid)
open scoped Text.Bytewise

/-- A hash stands right behind the comment, which is terminated and has a closer. -/
structure Span.BaresHash (text : Text) (s : Span) : Prop where
  terminated : s.terminated = true
  delimited : s.kind = .template ∨ s.kind = .markup ∨ s.kind = .block
  hash : text[s.stop]? = some (byte '#')

variable {text : Text}

/-! ### Quotes and openers of the blanked text -/

/-- What blanking writes is white space. -/
theorem mem_spaceBytes_of_not_outside {o : Nat} {b : UInt8} (hin : ¬ Outside (spans text) o)
    (h : (strip text)[o]? = some b) : b ∈ spaceBytes := by
  rw [getElem?_strip] at h
  obtain ⟨c, -, rfl⟩ := Option.map_eq_some_iff.mp h
  rw [blankAt_of_not_outside hin]
  split
  · next hnewline =>
    rw [hnewline]
    decide
  · decide

/-- A byte outside comments stays. -/
theorem getElem?_strip_of_outside {o : Nat} (hout : Outside (spans text) o) :
    (strip text)[o]? = text[o]? := by
  have hid : blankAt (spans text) o = id := funext (blankAt_of_outside hout)
  rw [getElem?_strip, hid, Option.map_id]
  rfl

/-- **The same quotes are open in the blanked text**, read without regard to comments. -/
theorem quoteAt_strip {o : Nat} (ho : o ≤ text.length) :
    quoteAt (strip text) [] o = quoteAt text (spans text) o := by
  refine (quoteAt_of_agree (length_strip text) (fun o hout => ?_) (fun o b hin _ hb => ?_) ho).1
  · exact ⟨outside_nil o, getElem?_strip_of_outside hout⟩
  · have hspace := mem_spaceBytes_of_not_outside hin hb
    have hnone : ∀ c ∈ spaceBytes, isQuote c = false := by decide
    exact hnone b hspace

theorem Kind.solid_opener (kind : Kind) : ∀ b ∈ kind.opener, Solid b := by
  cases kind <;> decide

/-- A closer does not end with white space. -/
theorem Kind.getLast?_closer {kind : Kind} {closer : Text} (h : kind.closer? = some closer) :
    ∃ b, closer.getLast? = some b ∧ b ∉ spaceBytes := by
  cases kind <;> cases h <;> exact ⟨_, rfl, by decide⟩

theorem Kind.delimited_iff (kind : Kind) :
    (kind = .template ∨ kind = .markup ∨ kind = .block) ↔ kind.closer? ≠ none := by
  cases kind <;> decide

/-! ### The end of a comment -/

/-- Behind a comment that has no closer there is a newline or nothing, so a hash shows that the
comment has one. -/
theorem baresHash_of_mem {s : Span} (hs : s ∈ spans text) (hhash : text[s.stop]? = some (byte '#')) :
    s.BaresHash text := by
  have hends := (isSegmentation_spans text).ends s hs
  obtain ⟨hlt, -⟩ := List.getElem?_eq_some_iff.mp hhash
  unfold Span.EndsRight at hends
  cases hc : s.kind.closer? with
  | none =>
    -- a line comment
    rw [hc] at hends
    obtain ⟨-, -, hstop, -⟩ := hends
    rcases hstop with hstop | hnewline
    · omega
    · rw [hhash] at hnewline
      exact absurd (Option.some.inj hnewline) (by decide)
  | some closer =>
    have hkind := s.kind.delimited_iff.mpr (by rw [hc]; exact Option.some_ne_none closer)
    rw [hc] at hends
    by_cases hterm : s.terminated = true
    · exact ⟨hterm, hkind, hhash⟩
    · -- an open comment goes on to the end of the text
      simp only [hterm, if_false, Bool.false_eq_true] at hends
      omega

/-- The last byte of a comment that bares a hash is no white space. -/
theorem Span.BaresHash.last_not_mem {s : Span} (h : s.BaresHash text) (hs : s ∈ spans text) :
    ∃ b, text[s.stop - 1]? = some b ∧ b ∉ spaceBytes := by
  have hends := (isSegmentation_spans text).ends s hs
  -- a closed comment ends in the last byte of its closer, which is no space
  obtain ⟨closer, hc⟩ := Option.ne_none_iff_exists'.mp (s.kind.delimited_iff.mp h.delimited)
  obtain ⟨b, hlast, hspace⟩ := Kind.getLast?_closer hc
  unfold EndsRight at hends
  rw [hc] at hends
  simp only [h.terminated, if_true] at hends
  obtain ⟨o, ⟨-, hat, -⟩, hstop⟩ := hends
  have hpos : 0 < closer.length := by
    refine List.length_pos_iff.mpr fun hnil => ?_
    rw [hnil] at hlast
    cases hlast
  have hbyte := Text.getElem?_of_prefix_drop hat (i := closer.length - 1) (by omega)
  rw [← List.getLast?_eq_getElem?, hlast] at hbyte
  refine ⟨b, ?_, hspace⟩
  rwa [hstop, Nat.add_sub_assoc hpos]

/-- The hash that a comment bares stands in no comment. -/
theorem Span.BaresHash.outside {s : Span} (h : s.BaresHash text) (hs : s ∈ spans text) :
    Outside (spans text) s.stop := by
  have hseg := isSegmentation_spans text
  have hpos := hseg.nonempty s hs
  by_contra hin
  unfold Outside at hin
  push Not at hin
  obtain ⟨t, ht, hle, hlt⟩ := hin
  -- a comment around the hash starts with it
  have hstart : t.start = s.stop := by
    by_cases hst : s = t
    · rw [hst] at hlt
      exact absurd hlt (Nat.lt_irrefl _)
    · rcases hseg.apart hs ht hst with hapart | hapart <;> omega
  have hopens := hseg.opens t ht
  rw [hstart] at hopens
  have hkind : t.kind = .hash := by
    refine Kind.eq_of_opener hopens.1 ?_
    obtain ⟨hin, hbyte⟩ := List.getElem?_eq_some_iff.mp h.hash
    rw [List.drop_eq_getElem_cons hin, hbyte]
    exact ⟨_, rfl⟩
  -- but in front of it there is no white space
  obtain ⟨b, hb, hspace⟩ := h.last_not_mem hs
  rcases hopens.2 hkind with hzero | ⟨c, hc, hbyte⟩
  · omega
  · rw [hb] at hbyte
    exact hspace (Option.some.inj hbyte ▸ hc)

/-! ### Openers of the blanked text -/

/-- **Only a bared hash opens a comment in the blanked text.** -/
theorem exists_baresHash {kind : Kind} {o : Nat} (hquote : quoteAt (strip text) [] o = none)
    (hopens : OpensAt (strip text) kind o) : ∃ s ∈ spans text, s.BaresHash text ∧ s.stop = o := by
  have hseg := isSegmentation_spans text
  obtain ⟨hopener, hbefore⟩ := hopens
  have hpos := kind.opener_pos
  have hlen : o < text.length := by
    have hle := hopener.length_le
    rw [List.length_drop, length_strip] at hle
    omega
  -- the opener stands in the text, outside all comments
  obtain ⟨hlive, houtside⟩ := prefix_of_solid_strip kind.solid_opener hopener
  have hout : Outside (spans text) o := houtside o (Nat.le_refl o) (by omega)
  rw [quoteAt_strip hlen.le] at hquote
  have hnot : ¬ (kind = .hash → o = 0 ∨ ∃ b ∈ spaceBytes, text[o - 1]? = some b) :=
    fun hspace => hseg.complete o hout hquote kind ⟨hlive, hspace⟩
  -- so it is a hash, with white space in front of it only in the blanked text
  obtain ⟨rfl, hnone⟩ := Classical.not_imp.mp hnot
  rw [not_or] at hnone
  obtain ⟨b, hb, hbyte⟩ := (hbefore rfl).resolve_left hnone.1
  have hblanked : ¬ Outside (spans text) (o - 1) := by
    intro hkept
    rw [getElem?_strip_of_outside hkept] at hbyte
    exact hnone.2 ⟨b, hb, hbyte⟩
  unfold Outside at hblanked
  push Not at hblanked
  obtain ⟨s, hs, hle, hlt⟩ := hblanked
  have hstop : s.stop = o := by
    rcases hout s hs with hfront | hbehind <;> omega
  refine ⟨s, hs, baresHash_of_mem hs ?_, hstop⟩
  -- the opener of a hash is the hash
  rw [hstop]
  exact Text.getElem?_of_prefix_drop hlive Nat.one_pos

/-- A bared hash opens a comment in the blanked text. -/
theorem Span.BaresHash.opensAt {s : Span} (h : s.BaresHash text) (hs : s ∈ spans text) :
    quoteAt (strip text) [] s.stop = none ∧ OpensAt (strip text) .hash s.stop := by
  have hseg := isSegmentation_spans text
  have hpos := hseg.nonempty s hs
  have hin := hseg.inside s hs
  constructor
  · rw [quoteAt_strip hin]
    exact hseg.quoteAt_of_inside hs hpos.le (Nat.le_refl _)
  · have hbyte : (strip text)[s.stop]? = some (byte '#') := by
      rw [getElem?_strip_of_outside (h.outside hs), h.hash]
    obtain ⟨hlt, hget⟩ := List.getElem?_eq_some_iff.mp hbyte
    refine ⟨?_, fun _ => Or.inr ?_⟩
    · rw [List.drop_eq_getElem_cons hlt, hget]
      exact ⟨_, rfl⟩
    · -- the last byte of the comment is blanked
      have hcovered : ¬ Outside (spans text) (s.stop - 1) := by
        intro hout
        rcases hout s hs with hfront | hbehind <;> omega
      have hlast : s.stop - 1 < (strip text).length := by omega
      have hget := List.getElem?_eq_getElem hlast
      exact ⟨_, mem_spaceBytes_of_not_outside hcovered hget, hget⟩

/-! ### The main result -/

/-- **A blanked text has a comment just in case a comment of the text bares a hash.** -/
theorem spans_strip_eq_nil_iff (text : Text) :
    spans (strip text) = [] ↔ ∀ s ∈ spans text, ¬ s.BaresHash text := by
  have hnone : ∀ {P : Span → Prop}, ∀ s ∈ ([] : List Span), P s :=
    fun s hs => absurd hs List.not_mem_nil
  rw [spans_eq_iff]
  constructor
  · intro hseg s hs hbares
    obtain ⟨hquote, hopens⟩ := hbares.opensAt hs
    exact hseg.complete s.stop (outside_nil _) hquote .hash hopens
  · intro hbares
    refine ⟨List.Pairwise.nil, hnone, hnone, hnone, hnone, hnone, fun o _ hquote kind hopens => ?_⟩
    obtain ⟨s, hs, hbared, -⟩ := exists_baresHash hquote hopens
    exact hbares s hs hbared

/-- **Only a text without comments is left as it is.** -/
theorem strip_eq_self_iff (text : Text) : strip text = text ↔ spans text = [] := by
  constructor
  · intro hself
    refine List.eq_nil_iff_forall_not_mem.mpr fun s hs => ?_
    -- the first byte of a comment is solid, but blanking leaves none in a comment
    obtain ⟨b, hhead, -⟩ := s.kind.head?_opener
    have hbyte := Text.getElem?_of_prefix_drop (opensAt_of_mem_spans hs).1 s.kind.opener_pos
    rw [Nat.add_zero, ← List.head?_eq_getElem?, hhead, ← hself] at hbyte
    have hsolid := s.kind.solid_opener b (List.mem_of_head? hhead)
    have hpos := (isSegmentation_spans text).nonempty s hs
    rcases outside_of_solid_strip hbyte hsolid s hs with hlt | hle <;> omega
  · intro hnil
    ext1 o
    refine getElem?_strip_of_outside ?_
    rw [hnil]
    exact outside_nil o

/-- **Blanking twice.** Blanking a blanked text leaves it as it is if and only if no terminated template,
markup or block comment of the text has a hash right behind it; and then, and only then, the blanked
text has no comments. -/
theorem strip_strip_eq_self_iff (text : Text) :
    (strip (strip text) = strip text ↔ ∀ s ∈ spans text, ¬ s.BaresHash text) ∧
      (spans (strip text) = [] ↔ ∀ s ∈ spans text, ¬ s.BaresHash text) := by
  have hspans := spans_strip_eq_nil_iff text
  exact ⟨(strip_eq_self_iff (strip text)).trans hspans, hspans⟩

/-- The hash behind the comment becomes one. -/
example : strip (Text.ofString "/**/#a") = Text.ofString "    #a" ∧
    strip (strip (Text.ofString "/**/#a")) = Text.ofString "      " := by decide +kernel

end ViewLint.Comment
