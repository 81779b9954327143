import ViewLint.Proofs.Event.Tags
import ViewLint.Proofs.Text.Padding

/-!
# Events of padded texts

`ofText_padded`: a text and the padded text have the same events at the same places. Each of the
four patterns tolerates padding (`Pattern.Tolerant`): it matches both texts or none, and where it
matches, padding takes the end of the one match to the end of the other. So a search finds the same
occurrences, moved (`occurrences_padded`). Names are solid, and places do not move. The one thing
that is left is the slash before the `>` of a tag: the pads between them are white space like the
newlines.
-/

namespace ViewLint

open Text (byte Padded Solid IsPad shifted Pattern Occurrence searchFrom occurrences runes)
open scoped Text.Bytewise

/-! ### Patterns that tolerate padding -/

namespace Text

/-- The pattern matches a text and the padded text alike. -/
def Pattern.Tolerant (p : Pattern) : Prop :=
  ∀ {u v}, Padded u v → p v = (p u).map (shifted u)

variable {u v : Text}

/-- A solid first part. -/
theorem shifted_of_solid {front : Text} (h : ∀ b ∈ front, Solid b) (rest : Text) :
    shifted (front ++ rest) front.length = front.length :=
  shifted_eq_self (by rw [List.take_left]; exact not_mem_of_solid h)

theorem shifted_afterHead {head : Text} {p : UInt8 → Bool} (hhead : ∀ b ∈ head, Solid b)
    (hp : ∀ b, p b = true → Solid b) {n : Nat} (h : afterHead head p u = some n) :
    shifted u n = n := by
  obtain ⟨run, rest, rfl, -, hrun, -, rfl⟩ := afterHead_eq_some_iff.mp h
  refine shifted_of_solid (fun b hb => ?_) rest
  exact (List.mem_append.mp hb).elim (hhead b) fun hb => hp b (hrun b hb)

theorem afterHead_padded {head : Text} {p : UInt8 → Bool} (hhead : ∀ b ∈ head, Solid b)
    (hp : ∀ b, p b = true → Solid b) (h : Padded u v) :
    afterHead head p v = afterHead head p u := by
  unfold afterHead
  rw [h.isPrefixOf_eq hhead]
  by_cases hat : head.isPrefixOf u = true
  · obtain ⟨r, rfl⟩ := List.isPrefixOf_iff_prefix.mp hat
    obtain ⟨r', rfl, hr⟩ := h.split_of_not_mem (not_mem_of_solid hhead)
    rw [List.drop_left, List.drop_left, hr.takeWhile_eq hp]
  · rw [if_neg hat, if_neg hat]

theorem tolerant_afterHead {head : Text} {p : UInt8 → Bool} (hhead : ∀ b ∈ head, Solid b)
    (hp : ∀ b, p b = true → Solid b) : Pattern.Tolerant (afterHead head p) := by
  intro u v h
  rw [afterHead_padded hhead hp h]
  cases hat : afterHead head p u with
  | none => rfl
  | some n => rw [Option.map_some, shifted_afterHead hhead hp hat]

theorem Padded.head?_eq_some_iff {b : UInt8} (hb : Solid b) (h : Padded u v) :
    v.head? = some b ↔ u.head? = some b := by
  cases h with
  | nil => exact Iff.rfl
  | newline hpad _ =>
    refine iff_of_false ?_ ?_
    · rintro heq
      obtain rfl := Option.some.inj heq
      exact hb.2 hpad
    · exact fun heq => hb.1 (Option.some.inj heq).symm
  | keep _ _ => exact Iff.rfl

/-! ### Occurrences -/

/-- An occurrence in the padded text. -/
def Occurrence.padded (text : Text) (o : Occurrence) : Occurrence :=
  ⟨shifted text o.start, shifted text o.stop⟩

theorem shifted_append (front rest : Text) (n : Nat) :
    shifted (front ++ rest) (front.length + n) = shifted front front.length + shifted rest n := by
  rw [shifted_add, List.drop_left]
  unfold shifted
  rw [List.take_left, List.take_length]

theorem searchFrom_padded {p : Pattern} {head : UInt8} (ht : p.Tolerant) (hp : p.Anchored head)
    (hhead : Solid head) {x y : Text} (hx : Padded x y) (h : Padded u v) :
    searchFrom p y.length v = (searchFrom p x.length u).map (Occurrence.padded (x ++ u)) := by
  -- behind a match or a byte the texts before the search are longer by it
  generalize hlen : u.length = len
  induction len using Nat.strongRecOn generalizing x y u v with
  | ind len ih =>
    subst hlen
    have hfound := ht h
    cases hat : p u with
    | some n =>
      obtain ⟨-, hpos, hle⟩ := hp.starts hat
      rw [hat, Option.map_some] at hfound
      have hstep := ih (u.drop n).length (by rw [List.length_drop]; omega)
        (hx.append (h.take n)) (h.drop n) rfl
      rw [List.append_assoc, List.take_append_drop, List.length_append, List.length_append,
        List.length_take_of_le hle] at hstep
      have htake : (v.take (shifted u n)).length = shifted u n := by
        rw [(h.take n).length_eq]
        unfold shifted
        rw [List.take_length, List.length_take_of_le hle]
      rw [htake] at hstep
      rw [hp.searchFrom_of_some hat, hp.searchFrom_of_some hfound, List.map_cons, hstep]
      congr 1
      -- the match itself, moved by what stands before it
      unfold Occurrence.padded
      have hzero := shifted_append x u 0
      rw [Nat.add_zero, shifted_zero, Nat.add_zero] at hzero
      rw [shifted_append, hzero, hx.length_eq]
    | none =>
      rw [hat, Option.map_none] at hfound
      cases h with
      | nil => rw [hp.searchFrom_nil, hp.searchFrom_nil]; rfl
      | @newline pad u v hpad h =>
        have hstep := ih u.length (Nat.lt_succ_self _)
          (hx.append (Padded.newline hpad .nil)) h rfl
        rw [hp.searchFrom_cons hat, hp.searchFrom_cons hfound,
          hp.searchFrom_cons (hp.cons_of_ne (Ne.symm hhead.1) v)]
        simpa using hstep
      | @keep b u v hb h =>
        have hstep := ih u.length (Nat.lt_succ_self _) (hx.append (Padded.keep hb .nil)) h rfl
        rw [hp.searchFrom_cons hat, hp.searchFrom_cons hfound]
        simpa using hstep

/-- **A search finds the same occurrences in the padded text, moved.** -/
theorem occurrences_padded {p : Pattern} {head : UInt8} (ht : p.Tolerant) (hp : p.Anchored head)
    (hhead : Solid head) (h : Padded u v) :
    occurrences p v = (occurrences p u).map (Occurrence.padded u) :=
  searchFrom_padded ht hp hhead .nil h

theorem padded_text (h : Padded u v) {o : Occurrence} (ho : o.start ≤ o.stop) :
    Padded (o.text u) ((o.padded u).text v) := by
  have hstop := shifted_add u o.start (o.stop - o.start)
  rw [Nat.add_sub_cancel' ho] at hstop
  unfold Occurrence.text Occurrence.padded
  dsimp only
  rw [hstop, Nat.add_sub_cancel_left]
  exact (h.drop o.start).take _

end Text

namespace Event

variable {u v : Text}

/-! ### The four patterns -/

theorem solid_of_isNameByte {b : UInt8} (h : isNameByte b = true) : Solid b := by
  refine ⟨?_, ?_⟩
  · rintro rfl
    revert h
    decide
  · rintro (rfl | rfl) <;> revert h <;> decide

theorem solid_of_isWordByte {b : UInt8} (h : Text.isWordByte b = true) : Solid b :=
  solid_of_isNameByte (isNameByte_of_isWordByte h)

theorem tolerant_directive : directivePattern.Tolerant :=
  Text.tolerant_afterHead (by decide) fun _ => solid_of_isWordByte

theorem tolerant_doubleAt : doubleAtPattern.Tolerant := by
  intro u v h
  have hsolid : ∀ b : UInt8, (b == byte '@') = true → Solid b := by
    intro b hb
    rw [beq_iff_eq.mp hb]
    decide
  unfold doubleAtPattern
  dsimp only
  rw [h.takeWhile_eq hsolid]
  split
  · -- the run has no newline in it, so its length stays
    rw [Option.map_some, Text.shifted_eq_self]
    rw [← List.prefix_iff_eq_take.mp (List.takeWhile_prefix _)]
    exact Text.not_mem_of_solid fun b hb => hsolid b (List.all_eq_true.mp List.all_takeWhile b hb)
  · rfl

theorem map_shifted_cons {b : UInt8} (hb : b ≠ byte '\n') (u : Text) (n : Option Nat) :
    (n.map (shifted u)).map (· + 1) = (n.map (· + 1)).map (shifted (b :: u)) := by
  cases n with
  | none => rfl
  | some n => simp [Text.shifted_cons hb]

theorem map_shifted_newline (u : Text) (n : Option Nat) :
    ((n.map (shifted u)).map (· + 1)).map (· + 1) =
      (n.map (· + 1)).map (shifted (byte '\n' :: u)) := by
  cases n with
  | none => rfl
  | some n => simp

theorem plain_of_not_solid {b : UInt8} (h : ¬ Solid b) :
    b ∉ [byte '<', byte '>', byte '"', byte '\''] := by
  intro hmem
  have hall : ∀ c ∈ [byte '<', byte '>', byte '"', byte '\''], Solid c := by decide
  exact h (hall b hmem)

theorem isBlank_of_not_solid {b : UInt8} (h : ¬ Solid b) : Text.isBlank b = true := by
  unfold Solid at h
  rw [not_and_or, not_not, not_not] at h
  rcases h with rfl | rfl | rfl <;> decide

/-- Attributes end at the same `>`. -/
theorem attributes_padded (h : Padded u v) {quote : Option UInt8}
    (hquote : ∀ q ∈ quote, Solid q) : attributes quote v = (attributes quote u).map (shifted u) := by
  have hnone : ∀ q ∈ (none : Option UInt8), Solid q := fun q hq => by cases hq
  induction h generalizing quote with
  | nil => cases quote <;> rfl
  | @newline pad u v hpad h ih =>
    cases quote with
    | none =>
      rw [attributes_plain (plain_of_not_solid fun hs => hs.2 hpad),
        attributes_plain (plain_of_not_solid (by decide)),
        attributes_plain (plain_of_not_solid (by decide)), ih hnone, map_shifted_newline]
    | some q =>
      -- neither the pad nor the newline closes the value
      have hq := hquote q rfl
      have hpadq : pad ≠ q := by
        rintro rfl
        exact hq.2 hpad
      rw [attributes, if_neg hpadq, attributes, if_neg (Ne.symm hq.1), attributes,
        if_neg (Ne.symm hq.1), ih hquote, map_shifted_newline]
  | @keep b u v hb h ih =>
    cases quote with
    | some q =>
      rw [attributes, attributes]
      split
      · rw [ih hnone, map_shifted_cons hb]
      · rw [ih hquote, map_shifted_cons hb]
    | none =>
      rw [attributes, attributes]
      split
      · simp [Text.shifted_cons hb]
      split
      · rfl
      split
      · next hq =>
        have hsolid : ∀ q ∈ some b, Solid q := by
          intro q heq
          obtain rfl := Option.some.inj heq
          rcases hq with rfl | rfl <;> decide
        rw [ih hsolid, map_shifted_cons hb]
      · rw [ih hnone, map_shifted_cons hb]

theorem tagTail_padded (h : Padded u v) : tagTail v = (tagTail u).map (shifted u) := by
  have hnone : ∀ q ∈ (none : Option UInt8), Solid q := fun q hq => by cases hq
  cases h with
  | nil => rfl
  | @newline pad u v hpad h =>
    rw [tagTail_of_isBlank (isBlank_of_not_solid fun hs => hs.2 hpad),
      tagTail_of_isBlank (by decide), attributes_plain (plain_of_not_solid (by decide)),
      attributes_padded h hnone, map_shifted_newline]
  | @keep b u v hb h =>
    rw [tagTail, tagTail]
    split
    · simp [Text.shifted_cons hb]
    split
    · -- the slash has its `>` right behind it
      have hhead := h.head?_eq_some_iff (b := byte '>') (by decide)
      by_cases hgt : u.head? = some (byte '>')
      · obtain ⟨rest, rfl⟩ := List.head?_eq_some_iff.mp hgt
        rw [if_pos hgt, if_pos (hhead.mpr hgt), Option.map_some, Text.shifted_cons hb,
          Text.shifted_cons (by decide), Text.shifted_zero]
      · rw [if_neg hgt, if_neg (mt hhead.mp hgt)]
        rfl
    split
    · rw [attributes_padded h hnone, map_shifted_cons hb]
    · rfl

theorem tolerant_openTag : openTagPattern.Tolerant := by
  intro u v h
  have hhead : ∀ b ∈ Text.ofString "<c-", Solid b := by decide
  unfold openTagPattern
  rw [Text.afterHead_padded hhead (fun _ => solid_of_isNameByte) h]
  cases hstem : Text.afterHead (Text.ofString "<c-") isNameByte u with
  | none => rfl
  | some stem =>
    -- name and head are solid, so the rest starts at the same offset
    have hshift := Text.shifted_afterHead hhead (fun _ => solid_of_isNameByte) hstem
    have hdrop := h.drop stem
    rw [hshift] at hdrop
    simp only [Option.bind_eq_bind, Option.bind_some, tagTail_padded hdrop]
    cases tagTail (u.drop stem) with
    | none => rfl
    | some n => simp [Text.shifted_add, hshift]

/-- The blanks at the start of a text. -/
theorem length_takeWhile_isBlank (h : Padded u v) :
    (v.takeWhile Text.isBlank).length = shifted u (u.takeWhile Text.isBlank).length := by
  induction h with
  | nil => rfl
  | newline hpad h ih =>
    rw [List.takeWhile_cons_of_pos (isBlank_of_not_solid fun hs => hs.2 hpad),
      List.takeWhile_cons_of_pos (by decide), List.takeWhile_cons_of_pos (by decide),
      List.length_cons, List.length_cons, List.length_cons, Text.shifted_newline, ih]
  | keep hb h ih =>
    rw [List.takeWhile_cons, List.takeWhile_cons]
    split
    · rw [List.length_cons, List.length_cons, Text.shifted_cons hb, ih]
    · rfl

theorem tolerant_closeTag : closeTagPattern.Tolerant := by
  intro u v h
  have hhead : ∀ b ∈ Text.ofString "</c-", Solid b := by decide
  unfold closeTagPattern
  rw [Text.afterHead_padded hhead (fun _ => solid_of_isNameByte) h]
  cases hstem : Text.afterHead (Text.ofString "</c-") isNameByte u with
  | none => rfl
  -- a head and a name are solid; after them come the blanks, and then `>` or no match
  | some stem =>
    have hshift := Text.shifted_afterHead hhead (fun _ => solid_of_isNameByte) hstem
    have hdrop := h.drop stem
    rw [hshift] at hdrop
    simp only [Option.bind_eq_bind, Option.bind_some]
    rw [length_takeWhile_isBlank hdrop]
    generalize ((u.drop stem).takeWhile Text.isBlank).length = blanks
    have hgt := (hdrop.drop blanks).head?_eq_some_iff (b := byte '>') (by decide)
    by_cases hclose : ((u.drop stem).drop blanks).head? = some (byte '>')
    · obtain ⟨rest, hrest⟩ := List.head?_eq_some_iff.mp hclose
      have hone : shifted ((u.drop stem).drop blanks) 1 = 1 := by
        rw [hrest, Text.shifted_cons (by decide), Text.shifted_zero]
      rw [if_pos hclose, if_pos (hgt.mpr hclose)]
      simp only [Option.pure_def, Option.map_some]
      rw [Text.shifted_add, Text.shifted_add, hshift, ← List.drop_drop, hone]
    · rw [if_neg hclose, if_neg (mt hgt.mp hclose)]
      rfl

/-! ### The events -/

theorem ofOccurrence_padded (h : Padded u v) (kind : Kind) (name : Text) (o : Occurrence) :
    ofOccurrence ⟨v⟩ kind name (o.padded u) = ofOccurrence ⟨u⟩ kind name o := by
  unfold ofOccurrence Occurrence.padded
  dsimp only
  rw [Document.placeAt_eq, Document.placeAt_eq, Document.placeAt_eq, Document.placeAt_eq,
    (h.take o.start).endPlace_eq, (h.take o.stop).endPlace_eq]

/-- An occurrence that a search has found. -/
theorem le_and_found {p : Pattern} {head : UInt8} (hp : p.Anchored head) {o : Occurrence}
    (ho : o ∈ occurrences p u) :
    o.start ≤ o.stop ∧ p (u.drop o.start) = some (o.stop - o.start) := by
  have hbounds := (hp.bounds_searchFrom 0 u).1 o ho
  exact ⟨by omega, hp.some_of_mem_searchFrom ho⟩

/-- A solid occurrence has the same bytes in both texts. -/
theorem text_padded_of_solid (h : Padded u v) {o : Occurrence} (ho : o.start ≤ o.stop)
    (hsolid : ∀ b ∈ o.text u, Solid b) : (o.padded u).text v = o.text u :=
  (Text.padded_text h ho).eq_of_not_mem (Text.not_mem_of_solid hsolid)

theorem doubleAts_padded (h : Padded u v) : doubleAts v = doubleAts u := by
  unfold doubleAts
  rw [Text.occurrences_padded tolerant_doubleAt anchored_doubleAt (by decide) h, List.map_map]
  refine List.map_congr_left fun o ho => ?_
  obtain ⟨hle, hfound⟩ := le_and_found anchored_doubleAt ho
  obtain ⟨rest, hdrop, -, -⟩ := doubleAtPattern_eq_some_iff.mp hfound
  have hsolid : ∀ b ∈ o.text u, Solid b := by
    intro b hb
    rw [Occurrence.text, hdrop, List.take_left' List.length_replicate] at hb
    rw [(List.mem_replicate.mp hb).2]
    decide
  rw [Function.comp_apply, text_padded_of_solid h hle hsolid, ofOccurrence_padded h]

theorem directives_padded (h : Padded u v) : directives v = directives u := by
  unfold directives
  rw [Text.occurrences_padded tolerant_directive anchored_directive (by decide) h,
    List.filterMap_map]
  refine List.filterMap_congr fun o ho => ?_
  obtain ⟨hle, hfound⟩ := le_and_found anchored_directive ho
  obtain ⟨word, rest, hdrop, -, hword, -, hlen⟩ := directivePattern_eq_some_iff.mp hfound
  have hsolid : ∀ b ∈ o.text u, Solid b := by
    intro b hb
    rw [Occurrence.text, hdrop, List.take_left' (by simpa using hlen.symm)] at hb
    rcases List.mem_cons.mp hb with rfl | hb
    · decide
    · exact solid_of_isWordByte (hword b hb)
  -- the byte before the directive is the same too
  have hlast : (v.take (o.padded u).start).getLast? = (u.take o.start).getLast? :=
    (h.take o.start).getLast?_eq
  rw [Function.comp_apply, hlast, text_padded_of_solid h hle hsolid]
  simp only [ofOccurrence_padded h]

/-! ### Tags -/

/-- The name of a tag behind its solid head. -/
theorem name_padded (head : Text) {m m' : Text} (hhead : ∀ b ∈ head, Solid b) (hat : head <+: m)
    (h : Padded m m') :
    (m'.drop head.length).takeWhile isNameByte = (m.drop head.length).takeWhile isNameByte := by
  obtain ⟨r, rfl⟩ := hat
  obtain ⟨r', rfl, hr⟩ := h.split_of_not_mem (Text.not_mem_of_solid hhead)
  rw [List.drop_left, List.drop_left, hr.takeWhile_eq fun _ => solid_of_isNameByte]

/-- A white ASCII byte cuts a text into two that are white or not on their own. -/
theorem white_append_cons {c : UInt8} (hc : c < 0x80)
    (hwhite : Text.isUnicodeSpace c.toNat = true) (front rest : Text) :
    (∀ r ∈ runes (front ++ c :: rest), Text.isUnicodeSpace r.code = true) ↔
      (∀ r ∈ runes front, Text.isUnicodeSpace r.code = true) ∧
        ∀ r ∈ runes rest, Text.isUnicodeSpace r.code = true := by
  rw [List.append_cons, Text.runes_append_of_ascii front hc, Text.runes_concat_ascii front hc]
  simp only [List.mem_append, List.mem_singleton, or_imp, forall_and, forall_eq, hwhite, and_true]

/-- White space stays white. -/
theorem white_padded (h : Padded u v) (front : Text) :
    (∀ r ∈ runes (front ++ v), Text.isUnicodeSpace r.code = true) ↔
      ∀ r ∈ runes (front ++ u), Text.isUnicodeSpace r.code = true := by
  -- a character may have several bytes, so those before the newline are kept in `front`
  induction h generalizing front with
  | nil => exact Iff.rfl
  | @newline pad u v hpad h ih =>
    have hascii : pad < 0x80 := by rcases hpad with rfl | rfl <;> decide
    have hwhite : Text.isUnicodeSpace pad.toNat = true := by rcases hpad with rfl | rfl <;> decide
    have hbehind := white_append_cons (c := byte '\n') (by decide) (by decide) [] v
    have hrest := ih []
    rw [List.nil_append] at hbehind
    rw [List.nil_append, List.nil_append] at hrest
    rw [white_append_cons hascii hwhite, white_append_cons (by decide) (by decide), hbehind, hrest]
    simp
  | @keep b u v hb h ih =>
    rw [List.append_cons, List.append_cons front b u]
    exact ih (front ++ [b])

/-- The slash before a `>` stays there. -/
theorem slashLast_padded (h : Padded u v) : SlashLast v ↔ SlashLast u := by
  constructor
  · -- slash and `>` are solid, so that the padded text can be cut at them
    rintro ⟨front, white, rfl, hwhite⟩
    obtain ⟨front', r, rfl, -, hr⟩ :=
      h.split_right (b := byte '/') (by rw [List.append_assoc]; rfl) (by decide)
    obtain ⟨white', r', rfl, hpadded, hr'⟩ := hr.split_right rfl (by decide)
    cases hr'
    exact ⟨front', white', by simp, (white_padded hpadded []).mp hwhite⟩
  · rintro ⟨front, white, rfl, hwhite⟩
    obtain ⟨body, r, rfl, hbody, hr⟩ := h.split
    obtain ⟨front', r', rfl, -, hr'⟩ := hbody.split
    obtain ⟨white', rfl, hpadded⟩ := hr'.split_of_not_mem (x := [byte '/']) (by decide)
    obtain rfl := hr.eq_of_not_mem (by decide)
    exact ⟨front', white', rfl, (white_padded hpadded []).mpr hwhite⟩

theorem isSelfClosed_padded {inner tag : Text} (h : Padded (inner ++ [byte '>']) tag) :
    isSelfClosed tag = isSelfClosed (inner ++ [byte '>']) := by
  obtain ⟨inner', r, rfl, -, hr⟩ := h.split
  obtain rfl := hr.eq_of_not_mem (by decide)
  rw [Bool.eq_iff_iff, isSelfClosed_iff, isSelfClosed_iff, slashLast_padded h]

theorem openTags_padded (h : Padded u v) : openTags v = openTags u := by
  unfold openTags
  rw [Text.occurrences_padded tolerant_openTag anchored_openTag (by decide) h, List.map_map]
  -- each match keeps its name and whether it is self-closed; only its range moves
  refine List.map_congr_left fun o ho => ?_
  obtain ⟨hle, hfound⟩ := le_and_found anchored_openTag ho
  obtain ⟨tag, rest, hdrop, ⟨name, -, tail, -, rfl⟩, hlen⟩ := decides_openTag.mp hfound
  have hpadded := Text.padded_text h hle
  have htext : o.text u = Text.ofString "<c-" ++ name ++ tail ++ [byte '>'] := by
    rw [Occurrence.text, hdrop, hlen, List.take_left]
  have hname : (((o.padded u).text v).drop 3).takeWhile isNameByte =
      ((o.text u).drop 3).takeWhile isNameByte := by
    refine name_padded (Text.ofString "<c-") (by decide) ?_ hpadded
    rw [htext, List.append_assoc, List.append_assoc]
    exact List.prefix_append _ _
  have hself : isSelfClosed ((o.padded u).text v) = isSelfClosed (o.text u) := by
    rw [htext] at hpadded ⊢
    exact isSelfClosed_padded hpadded
  dsimp only [Function.comp_apply]
  rw [hname, hself, ofOccurrence_padded h]

theorem closeTags_padded (h : Padded u v) : closeTags v = closeTags u := by
  unfold closeTags
  rw [Text.occurrences_padded tolerant_closeTag anchored_closeTag (by decide) h, List.map_map]
  refine List.map_congr_left fun o ho => ?_
  obtain ⟨hle, hfound⟩ := le_and_found anchored_closeTag ho
  obtain ⟨tag, rest, hdrop, ⟨name, -, blanks, -, rfl⟩, hlen⟩ := decides_closeTag.mp hfound
  have hpadded := Text.padded_text h hle
  have hname : (((o.padded u).text v).drop 4).takeWhile isNameByte =
      ((o.text u).drop 4).takeWhile isNameByte := by
    refine name_padded (Text.ofString "</c-") (by decide) ?_ hpadded
    rw [Occurrence.text, hdrop, hlen, List.take_left, List.append_assoc, List.append_assoc]
    exact List.prefix_append _ _
  rw [Function.comp_apply, hname, ofOccurrence_padded h]

/-- **A text and the padded text have the same events.** -/
theorem ofText_padded (h : Padded u v) : ofText v = ofText u := by
  unfold ofText
  rw [doubleAts_padded h, directives_padded h, openTags_padded h, closeTags_padded h]

end Event

end ViewLint
