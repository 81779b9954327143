import ViewLint.Event
import ViewLint.Proofs.Text.Occurrence

/-!
# The patterns of the events

Where the four patterns of a template match. A directive is an `@` with the longest word behind it,
a run of `@` is the longest one (`directivePattern_eq_some_iff`, `doubleAtPattern_eq_some_iff`): both
look at the byte behind the match.

A component tag ends with its `>` and does not care for what follows. So its grammar is a set of
texts, `IsOpenTag` and `IsCloseTag`, said without the patterns: a name, then attributes in which
quoted values may hold any byte but their quote. The patterns decide these sets
(`decides_openTag`, `decides_closeTag`).
-/

namespace ViewLint

open Text (byte Pattern)

/-! ### A head and the longest run behind it -/

namespace Text

/-- The longest first part of a text that has bytes of one class only. -/
theorem takeWhile_append_of_stop {p : UInt8 → Bool} {run rest : Text} (hrun : ∀ b ∈ run, p b = true)
    (hstop : ∀ b, rest.head? = some b → p b = false) : (run ++ rest).takeWhile p = run := by
  rw [List.takeWhile_append_of_pos hrun]
  cases rest with
  | nil => rw [List.takeWhile_nil, List.append_nil]
  | cons b rest =>
    have hb : p b = false := hstop b rfl
    rw [List.takeWhile_cons_of_neg (by simp [hb]), List.append_nil]

/-- A text is such a first part and the rest. -/
theorem exists_run (p : UInt8 → Bool) (text : Text) :
    ∃ rest, text = text.takeWhile p ++ rest ∧ (∀ b ∈ text.takeWhile p, p b = true) ∧
      ∀ b, rest.head? = some b → p b = false := by
  refine ⟨text.dropWhile p, List.takeWhile_append_dropWhile.symm, ?_, ?_⟩
  · intro b hb
    exact List.all_eq_true.mp List.all_takeWhile b hb
  · intro b hb
    have hnot := List.head?_dropWhile_not p text
    rw [hb] at hnot
    simpa using hnot

theorem afterHead_eq_some_iff {head text : Text} {p : UInt8 → Bool} {n : Nat} :
    afterHead head p text = some n ↔
      ∃ run rest, text = head ++ run ++ rest ∧ run ≠ [] ∧ (∀ b ∈ run, p b = true) ∧
        (∀ b, rest.head? = some b → p b = false) ∧ n = (head ++ run).length := by
  unfold afterHead
  constructor
  · -- a match: the run is the longest one after the head
    intro h
    split at h
    · next hhead =>
      obtain ⟨tail, rfl⟩ := List.isPrefixOf_iff_prefix.mp hhead
      rw [List.drop_left] at h
      dsimp only at h
      obtain ⟨rest, hsplit, hrun, hstop⟩ := exists_run p tail
      split at h
      · cases h
      · next hne =>
        refine ⟨tail.takeWhile p, rest, ?_, ?_, hrun, hstop, ?_⟩
        · rw [List.append_assoc, ← hsplit]
        · simpa using hne
        · rw [List.length_append]
          exact (Option.some.inj h).symm
    · cases h
  · -- a head, a run and what stops it: the run taken is that one
    rintro ⟨run, rest, rfl, hne, hrun, hstop, rfl⟩
    have hhead : head.isPrefixOf (head ++ run ++ rest) = true := by
      rw [List.isPrefixOf_iff_prefix, List.append_assoc]
      exact List.prefix_append head _
    rw [if_pos hhead, List.append_assoc, List.drop_left, takeWhile_append_of_stop hrun hstop,
      if_neg (by simpa using hne), List.length_append]

end Text

namespace Event

/-! ### Directives and runs of `@` -/

theorem directivePattern_eq_some_iff {text : Text} {n : Nat} :
    directivePattern text = some n ↔
      ∃ word rest, text = byte '@' :: word ++ rest ∧ word ≠ [] ∧
        (∀ b ∈ word, Text.isWordByte b = true) ∧
        (∀ b, rest.head? = some b → Text.isWordByte b = false) ∧ n = word.length + 1 := by
  unfold directivePattern
  rw [Text.afterHead_eq_some_iff]
  rfl

theorem doubleAtPattern_eq_some_iff {text : Text} {n : Nat} :
    doubleAtPattern text = some n ↔
      ∃ rest, text = List.replicate n (byte '@') ++ rest ∧ 2 ≤ n ∧
        ∀ b, rest.head? = some b → b ≠ byte '@' := by
  unfold doubleAtPattern
  dsimp only
  constructor
  · -- the bytes taken are all `@`, and there are two at least
    intro h
    obtain ⟨rest, hsplit, hrun, hstop⟩ := Text.exists_run (· == byte '@') text
    have hrep : text.takeWhile (· == byte '@') =
        List.replicate (text.takeWhile (· == byte '@')).length (byte '@') :=
      List.eq_replicate_of_mem fun b hb => by simpa using hrun b hb
    split at h
    · next htwo =>
      obtain rfl := Option.some.inj h
      refine ⟨rest, ?_, htwo, fun b hb => by simpa using hstop b hb⟩
      rw [← hrep]
      exact hsplit
    · cases h
  · -- the longest run of `@` at the front is the given one
    rintro ⟨rest, rfl, htwo, hstop⟩
    have hrun : ∀ b ∈ List.replicate n (byte '@'), (b == byte '@') = true := by
      intro b hb
      simp [(List.mem_replicate.mp hb).2]
    rw [Text.takeWhile_append_of_stop hrun fun b hb => by simpa using hstop b hb,
      List.length_replicate, if_pos htwo]

theorem anchored_directive : directivePattern.Anchored (byte '@') where
  ascii := by decide
  starts h := by
    obtain ⟨word, rest, rfl, -, -, -, rfl⟩ := directivePattern_eq_some_iff.mp h
    refine ⟨rfl, Nat.succ_pos _, ?_⟩
    simp

theorem anchored_doubleAt : doubleAtPattern.Anchored (byte '@') where
  ascii := by decide
  starts {text n} h := by
    obtain ⟨rest, rfl, htwo, -⟩ := doubleAtPattern_eq_some_iff.mp h
    obtain ⟨n, rfl⟩ : ∃ m, n = m + 1 := ⟨n - 1, by omega⟩
    refine ⟨rfl, Nat.succ_pos n, ?_⟩
    simp

/-! ### The grammar of a tag -/

/-- The name of a component. -/
def IsName (name : Text) : Prop := name ≠ [] ∧ ∀ b ∈ name, isNameByte b = true

/-- **The attributes of a tag**: quoted values, which may hold any byte but their quote, and bytes
that are neither quotes nor angle brackets. -/
inductive Attributes : Text → Prop
  | nil : Attributes []
  | quoted {quote : UInt8} {value rest : Text} : quote = byte '"' ∨ quote = byte '\'' →
      quote ∉ value → Attributes rest → Attributes (quote :: value ++ quote :: rest)
  | plain {b : UInt8} {rest : Text} : b ∉ [byte '<', byte '>', byte '"', byte '\''] →
      Attributes rest → Attributes (b :: rest)

/-- What may stand between the name of an opening tag and its `>`. -/
inductive TagTail : Text → Prop
  | bare : TagTail []
  | attributes {blank : UInt8} {attrs : Text} : Text.isBlank blank = true → Attributes attrs →
      TagTail (blank :: attrs)
  | slash : TagTail [byte '/']

/-- An opening or self-closed tag of the name. -/
def IsOpenTag (name tag : Text) : Prop :=
  IsName name ∧ ∃ tail, TagTail tail ∧ tag = Text.ofString "<c-" ++ name ++ tail ++ [byte '>']

/-- A closing tag of the name. -/
def IsCloseTag (name tag : Text) : Prop :=
  IsName name ∧ ∃ blanks : Text, (∀ b ∈ blanks, Text.isBlank b = true) ∧
    tag = Text.ofString "</c-" ++ name ++ blanks ++ [byte '>']

/-! ### Attributes -/

/-- In a quoted value only its quote counts. -/
theorem attributes_quoted {quote : UInt8} {value : Text} (h : quote ∉ value) (rest : Text) :
    attributes (some quote) (value ++ quote :: rest) =
      (attributes none rest).map (· + (value.length + 1)) := by
  induction value with
  | nil =>
    rw [List.nil_append, attributes, if_pos rfl]
    rfl
  | cons b value ih =>
    rw [List.mem_cons, not_or] at h
    rw [List.cons_append, attributes, if_neg (Ne.symm h.1), ih h.2, Option.map_map]
    congr 1

/-- A value that is never closed is none. -/
theorem attributes_unclosed {quote : UInt8} {text : Text} (h : quote ∉ text) :
    attributes (some quote) text = none := by
  induction text with
  | nil => rfl
  | cons b rest ih =>
    rw [List.mem_cons, not_or] at h
    rw [attributes, if_neg (Ne.symm h.1), ih h.2]
    rfl

theorem attributes_quote {quote : UInt8} (h : quote = byte '"' ∨ quote = byte '\'') (rest : Text) :
    attributes none (quote :: rest) = (attributes (some quote) rest).map (· + 1) := by
  have hgt : quote ≠ byte '>' := by rcases h with rfl | rfl <;> decide
  have hlt : quote ≠ byte '<' := by rcases h with rfl | rfl <;> decide
  rw [attributes, if_neg hgt, if_neg hlt, if_pos h]

theorem attributes_plain {b : UInt8} (h : b ∉ [byte '<', byte '>', byte '"', byte '\''])
    (rest : Text) : attributes none (b :: rest) = (attributes none rest).map (· + 1) := by
  simp only [List.mem_cons, List.not_mem_nil, or_false, not_or] at h
  rw [attributes, if_neg h.2.1, if_neg h.1, if_neg (not_or.mpr h.2.2)]

/-- Attributes are passed over. -/
theorem attributes_append {attrs : Text} (h : Attributes attrs) (rest : Text) :
    attributes none (attrs ++ rest) = (attributes none rest).map (· + attrs.length) := by
  -- induction on the attributes: a quoted value is passed over whole, any other byte alone
  induction h with
  | nil => simp
  | @quoted quote value attrs hquote hvalue _ ih =>
    rw [List.append_assoc, List.cons_append, List.cons_append, attributes_quote hquote,
      attributes_quoted hvalue, ih, Option.map_map, Option.map_map]
    congr 1
    funext n
    simp only [Function.comp_apply, List.length_append, List.length_cons]
    omega
  | @plain b attrs hb _ ih =>
    rw [List.cons_append, attributes_plain hb, ih, Option.map_map]
    congr 1

/-- A value that ends does so at its first quote. -/
theorem attributes_some_eq_some {quote : UInt8} {text : Text} {n : Nat}
    (h : attributes (some quote) text = some n) :
    ∃ value rest m, text = value ++ quote :: rest ∧ quote ∉ value ∧
      attributes none rest = some m ∧ n = value.length + 1 + m := by
  -- induction on the text: the value ends at the first `quote`
  induction text generalizing n with
  | nil => cases h
  | cons b rest ih =>
    rw [attributes] at h
    obtain ⟨m, hm, rfl⟩ := Option.map_eq_some_iff.mp h
    by_cases hb : b = quote
    · rw [if_pos hb] at hm
      exact ⟨[], rest, m, by rw [hb]; rfl, List.not_mem_nil, hm, by simp [Nat.add_comm]⟩
    · rw [if_neg hb] at hm
      obtain ⟨value, rest', k, rfl, hvalue, hk, rfl⟩ := ih hm
      refine ⟨b :: value, rest', k, rfl, ?_, hk, by rw [List.length_cons]; omega⟩
      rw [List.mem_cons, not_or]
      exact ⟨Ne.symm hb, hvalue⟩

/-- **The attributes end at the first `>` outside quotes.** -/
theorem attributes_none_eq_some_iff {text : Text} {n : Nat} :
    attributes none text = some n ↔
      ∃ attrs rest, text = attrs ++ byte '>' :: rest ∧ Attributes attrs ∧ n = attrs.length + 1 := by
  constructor
  · -- a quoted value takes several bytes at once, so the induction is on the length
    intro h
    generalize hlen : text.length = len
    induction len using Nat.strongRecOn generalizing text n with
    | ind len ih =>
      cases text with
      | nil => cases h
      | cons b rest =>
        rw [List.length_cons] at hlen
        by_cases hgt : b = byte '>'
        · rw [attributes, if_pos hgt] at h
          exact ⟨[], rest, by rw [hgt]; rfl, .nil, (Option.some.inj h).symm⟩
        by_cases hlt : b = byte '<'
        · rw [attributes, if_neg hgt, if_pos hlt] at h
          cases h
        by_cases hquote : b = byte '"' ∨ b = byte '\''
        · rw [attributes_quote hquote] at h
          obtain ⟨m, hm, rfl⟩ := Option.map_eq_some_iff.mp h
          obtain ⟨value, rest', k, rfl, hvalue, hk, rfl⟩ := attributes_some_eq_some hm
          rw [List.length_append, List.length_cons] at hlen
          obtain ⟨attrs, rest'', rfl, hattrs, rfl⟩ := ih rest'.length (by omega) hk rfl
          refine ⟨b :: value ++ b :: attrs, rest'', by simp, .quoted hquote hvalue hattrs, ?_⟩
          simp only [List.length_append, List.length_cons]
        · have hplain : b ∉ [byte '<', byte '>', byte '"', byte '\''] := by
            simp only [List.mem_cons, List.not_mem_nil, or_false, not_or]
            exact ⟨hlt, hgt, not_or.mp hquote⟩
          rw [attributes_plain hplain] at h
          obtain ⟨m, hm, rfl⟩ := Option.map_eq_some_iff.mp h
          obtain ⟨attrs, rest', rfl, hattrs, rfl⟩ := ih rest.length (by omega) hm rfl
          exact ⟨b :: attrs, rest', rfl, .plain hplain hattrs, rfl⟩
  · rintro ⟨attrs, rest, rfl, hattrs, rfl⟩
    rw [attributes_append hattrs, attributes, if_pos rfl, Option.map_some, Nat.add_comm]

/-! ### Tags -/

/-- Behind a blank come attributes. -/
theorem tagTail_of_isBlank {b : UInt8} (h : Text.isBlank b = true) (rest : Text) :
    tagTail (b :: rest) = (attributes none rest).map (· + 1) := by
  have hgt : b ≠ byte '>' := by rintro rfl; revert h; decide
  have hslash : b ≠ byte '/' := by rintro rfl; revert h; decide
  rw [tagTail, if_neg hgt, if_neg hslash, if_pos h]

theorem tagTail_eq_some_iff {text : Text} {n : Nat} :
    tagTail text = some n ↔
      ∃ tail rest, text = tail ++ byte '>' :: rest ∧ TagTail tail ∧ n = tail.length + 1 := by
  constructor
  · -- one case per way `tagTail` can go on: `>`, `/>`, or attributes after a blank
    intro h
    unfold tagTail at h
    split at h
    · cases h
    next b rest =>
    by_cases hgt : b = byte '>'
    · rw [if_pos hgt] at h
      exact ⟨[], rest, by rw [hgt]; rfl, .bare, (Option.some.inj h).symm⟩
    rw [if_neg hgt] at h
    by_cases hslash : b = byte '/'
    · rw [if_pos hslash] at h
      split at h
      · next hnext =>
        obtain ⟨rest', rfl⟩ := List.head?_eq_some_iff.mp hnext
        exact ⟨[byte '/'], rest', by rw [hslash]; rfl, .slash, (Option.some.inj h).symm⟩
      · cases h
    rw [if_neg hslash] at h
    split at h
    · next hblank =>
      obtain ⟨m, hm, rfl⟩ := Option.map_eq_some_iff.mp h
      obtain ⟨attrs, rest', rfl, hattrs, rfl⟩ := attributes_none_eq_some_iff.mp hm
      exact ⟨b :: attrs, rest', rfl, .attributes hblank hattrs, rfl⟩
    · cases h
  · -- one case per form of the tail
    rintro ⟨tail, rest, rfl, htail, rfl⟩
    cases htail with
    | bare => rfl
    | slash => rfl
    | @attributes blank attrs hblank hattrs =>
      have hfound : attributes none (attrs ++ byte '>' :: rest) = some (attrs.length + 1) :=
        attributes_none_eq_some_iff.mpr ⟨attrs, rest, rfl, hattrs, rfl⟩
      rw [List.cons_append, tagTail_of_isBlank hblank, hfound]
      rfl

theorem isNameByte_of_isWordByte {b : UInt8} (h : Text.isWordByte b = true) :
    isNameByte b = true := by
  unfold isNameByte
  rw [h]
  rfl

theorem not_isNameByte_of_isBlank {b : UInt8} (h : Text.isBlank b = true) :
    isNameByte b = false := by
  simp only [Text.isBlank, Bool.or_eq_true, beq_iff_eq] at h
  rcases h with (((rfl | rfl) | rfl) | rfl) | rfl <;> decide

/-- No byte of a name follows the name. -/
theorem TagTail.head_not_name {tail : Text} (h : TagTail tail) (rest : Text) :
    ∀ b, (tail ++ byte '>' :: rest).head? = some b → isNameByte b = false := by
  intro b hb
  cases h with
  | bare => obtain rfl := Option.some.inj hb; decide
  | slash => obtain rfl := Option.some.inj hb; decide
  | attributes hblank _ =>
    obtain rfl := Option.some.inj hb
    exact not_isNameByte_of_isBlank hblank

/-- Blanks and the `>` behind them are no bytes of a name either. -/
theorem head_not_name_of_blanks {blanks : Text} (h : ∀ b ∈ blanks, Text.isBlank b = true)
    (rest : Text) :
    ∀ b, (blanks ++ byte '>' :: rest).head? = some b → isNameByte b = false := by
  intro b hb
  cases blanks with
  | nil => exact TagTail.bare.head_not_name rest b hb
  | cons c blanks =>
    obtain rfl := Option.some.inj hb
    exact not_isNameByte_of_isBlank (h c List.mem_cons_self)

/-- **The pattern of an opening tag decides its grammar.** -/
theorem decides_openTag : openTagPattern.Decides fun tag => ∃ name, IsOpenTag name tag := by
  intro text n
  unfold openTagPattern
  simp only [Option.bind_eq_bind, Option.bind_eq_some_iff, Option.pure_def, Option.some.injEq]
  constructor
  · -- head and name make the stem, the tail and its `>` the rest of the length
    rintro ⟨stem, hstem, k, hk, rfl⟩
    obtain ⟨name, rest, rfl, hne, hname, -, rfl⟩ := Text.afterHead_eq_some_iff.mp hstem
    rw [List.drop_left] at hk
    obtain ⟨tail, rest', rfl, htail, rfl⟩ := tagTail_eq_some_iff.mp hk
    refine ⟨_, rest', ?_, ⟨name, ⟨hne, hname⟩, tail, htail, rfl⟩, ?_⟩
    · simp
    · simp only [List.length_append, List.length_singleton]
      omega
  · rintro ⟨tag, rest, rfl, ⟨name, ⟨hne, hname⟩, tail, htail, rfl⟩, rfl⟩
    refine ⟨(Text.ofString "<c-" ++ name).length, ?_, tail.length + 1, ?_, ?_⟩
    · exact Text.afterHead_eq_some_iff.mpr
        ⟨name, tail ++ byte '>' :: rest, by simp, hne, hname, htail.head_not_name rest, rfl⟩
    · rw [List.append_assoc, List.append_assoc, List.drop_left]
      exact tagTail_eq_some_iff.mpr ⟨tail, rest, rfl, htail, rfl⟩
    · simp only [List.length_append, List.length_singleton]
      omega

/-- **The pattern of a closing tag decides its grammar.** -/
theorem decides_closeTag : closeTagPattern.Decides fun tag => ∃ name, IsCloseTag name tag := by
  intro text n
  unfold closeTagPattern
  simp only [Option.bind_eq_bind, Option.bind_eq_some_iff, Option.pure_def]
  constructor
  · rintro ⟨stem, hstem, h⟩
    obtain ⟨name, rest, rfl, hne, hname, -, rfl⟩ := Text.afterHead_eq_some_iff.mp hstem
    rw [List.drop_left] at h
    -- behind the name comes the longest run of blanks, which may be empty
    obtain ⟨rest', hsplit, hblanks, -⟩ := Text.exists_run Text.isBlank rest
    generalize rest.takeWhile Text.isBlank = blanks at hsplit hblanks h
    subst hsplit
    rw [List.drop_left] at h
    split at h
    · next hnext =>
      obtain ⟨rest'', rfl⟩ := List.head?_eq_some_iff.mp hnext
      obtain rfl := Option.some.inj h
      refine ⟨_, rest'', ?_, ⟨name, ⟨hne, hname⟩, blanks, hblanks, rfl⟩, ?_⟩
      · simp
      · simp only [List.length_append, List.length_singleton]
    · cases h
  · rintro ⟨tag, rest, rfl, ⟨name, ⟨hne, hname⟩, blanks, hblanks, rfl⟩, rfl⟩
    refine ⟨(Text.ofString "</c-" ++ name).length, ?_, ?_⟩
    · -- a blank or the `>` ends the name
      exact Text.afterHead_eq_some_iff.mpr ⟨name, blanks ++ byte '>' :: rest, by simp, hne, hname,
        head_not_name_of_blanks hblanks rest, rfl⟩
    · have hrun : (blanks ++ byte '>' :: rest).takeWhile Text.isBlank = blanks :=
        Text.takeWhile_append_of_stop hblanks fun b hb => by
          obtain rfl := Option.some.inj hb
          decide
      rw [List.append_assoc, List.append_assoc, List.drop_left, List.singleton_append, hrun,
        List.drop_left, if_pos List.head?_cons]
      simp only [List.length_append, List.length_singleton]

theorem anchored_openTag : openTagPattern.Anchored (byte '<') where
  ascii := by decide
  starts h := by
    obtain ⟨tag, rest, rfl, ⟨name, -, tail, -, rfl⟩, rfl⟩ := decides_openTag.mp h
    refine ⟨rfl, Nat.succ_pos _, ?_⟩
    simp

theorem anchored_closeTag : closeTagPattern.Anchored (byte '<') where
  ascii := by decide
  starts h := by
    obtain ⟨tag, rest, rfl, ⟨name, -, blanks, -, rfl⟩, rfl⟩ := decides_closeTag.mp h
    refine ⟨rfl, Nat.succ_pos _, ?_⟩
    simp

end Event

end ViewLint
