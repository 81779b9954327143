import ViewLint.Proofs.Comment.Strip
import ViewLint.Proofs.Text.Padding

/-!
# Comments of padded texts

`Padded.strip`: if a text is padded, then so is the text that blanking leaves. The scans of the two
texts run side by side. Openers and closers are solid, so that the same comments start, and they end
at offsets that padding takes to each other; only a comment that ends with its line takes in the pad
of the newline behind it (`at?_padded`). Outside comments the pad is neither a quote, nor a
backslash, nor the start of a comment, and what counts before a hash is the newline.

Blanking is followed from state to state (`stripFrom`), a whole comment at a time.
-/

namespace ViewLint.Comment

open Text (byte Padded Solid IsPad shifted)
open scoped Text.Bytewise

/-! ### One comment -/

/-- A comment at the start of a text, once the text is padded. One that ends with its line takes in
the pad. -/
def Found.padded (text : Text) (f : Found) : Found :=
  { f with length := shifted text f.length +
      if f.kind.closer? = none ∧ text[f.length]? = some (byte '\n') then 1 else 0 }

section

variable {u v : Text}

theorem Delimiter.solid {d : Delimiter} (hd : d ∈ delimiters) :
    (∀ b ∈ d.opener, Solid b) ∧ (∀ b ∈ d.closer, Solid b) ∧ d.closer ≠ [] := by
  simp only [delimiters, List.mem_cons, List.not_mem_nil, or_false] at hd
  rcases hd with rfl | rfl | rfl <;> decide

theorem Delimiter.at?_padded {d : Delimiter} (hd : d ∈ delimiters) (h : Padded u v) :
    d.at? v = (d.at? u).map (Found.padded u) := by
  obtain ⟨hopener, hcloser, hne⟩ := solid hd
  have hkind : d.kind.closer? = some d.closer := (opener_closer hd).2
  unfold at?
  rw [h.isPrefixOf_eq hopener]
  by_cases hat : d.opener.isPrefixOf u = true
  · obtain ⟨r, rfl⟩ := List.isPrefixOf_iff_prefix.mp hat
    have hnl := Text.not_mem_of_solid hopener
    have hlen := h.length_eq
    obtain ⟨r', rfl, hr⟩ := h.split_of_not_mem hnl
    have hstem : shifted (d.opener ++ r) d.opener.length = d.opener.length :=
      Text.shifted_eq_self (by rwa [List.take_left])
    obtain ⟨b, needle, hneedle⟩ := List.exists_cons_of_ne_nil hne
    rw [hneedle] at hcloser
    rw [if_pos hat, if_pos hat, List.drop_left, List.drop_left, hneedle, hr.find?_eq hcloser]
    cases hfind : Text.find? (b :: needle) r with
    | none => simp [Found.padded, hkind, hlen]
    | some n =>
      -- behind the opener padding moves the closer as a whole
      obtain ⟨-, ⟨rest, hrest⟩, -⟩ := Text.firstAt_of_find? hfind
      have hsolid : shifted (b :: needle ++ rest) (b :: needle).length = (b :: needle).length :=
        Text.shifted_eq_self (by rw [List.take_left]; exact Text.not_mem_of_solid hcloser)
      have hstop : shifted r (n + (b :: needle).length) = shifted r n + (b :: needle).length := by
        rw [Text.shifted_add, ← hrest, hsolid]
      have hwhole : shifted (d.opener ++ r) (d.opener.length + n + (b :: needle).length) =
          d.opener.length + shifted r n + (b :: needle).length := by
        rw [Nat.add_assoc, Text.shifted_add, List.drop_left, hstem, hstop, Nat.add_assoc]
      simp only [Option.map_some, Found.padded, hkind, hwhole]
      simp
  · rw [if_neg hat, if_neg hat]
    rfl

/-- The first delimiter that matches is the same. -/
theorem findSome?_at?_padded {ds : List Delimiter} (hds : ∀ d ∈ ds, d ∈ delimiters)
    (h : Padded u v) : ds.findSome? (·.at? v) = (ds.findSome? (·.at? u)).map (Found.padded u) := by
  induction ds with
  | nil => rfl
  | cons d ds ih =>
    obtain ⟨hd, hds⟩ := List.forall_mem_cons.mp hds
    rw [List.findSome?_cons, List.findSome?_cons, Delimiter.at?_padded hd h, ih hds]
    cases d.at? u <;> rfl

theorem restOfLine_padded (h : Padded u v) :
    restOfLine v = restOfLine u + if u[restOfLine u]? = some (byte '\n') then 1 else 0 := by
  have hcons : ∀ {b : UInt8} (rest : Text), b ≠ byte '\n' →
      restOfLine (b :: rest) = restOfLine rest + 1 := by
    intro b rest hb
    unfold restOfLine
    rw [List.takeWhile_cons_of_pos (by simpa using hb), List.length_cons]
  have hnewline : ∀ rest : Text, restOfLine (byte '\n' :: rest) = 0 := by
    intro rest
    simp [restOfLine]
  -- the line ends at the first newline, with the return put before it if it has one
  induction h with
  | nil => rfl
  | newline hpad _ _ => rw [hcons _ hpad.ne_newline, hnewline, hnewline]; rfl
  | keep hb _ ih =>
    rw [hcons _ hb, hcons _ hb, ih, List.getElem?_cons_succ]
    omega

/-- A comment that ends with its line. -/
theorem padded_lineComment (kind : Kind) (hkind : kind.closer? = none)
    (hopener : ∀ b ∈ kind.opener, Solid b) (hat : kind.opener <+: u) (h : Padded u v) :
    (⟨kind, kind.opener.length + restOfLine (v.drop kind.opener.length), true⟩ : Found) =
      Found.padded u
        ⟨kind, kind.opener.length + restOfLine (u.drop kind.opener.length), true⟩ := by
  obtain ⟨r, rfl⟩ := hat
  have hnl := Text.not_mem_of_solid hopener
  obtain ⟨r', rfl, hr⟩ := h.split_of_not_mem hnl
  -- neither the opener nor the rest of the line has a newline, so padding moves nothing in them
  have hstem : shifted (kind.opener ++ r) kind.opener.length = kind.opener.length :=
    Text.shifted_eq_self (by rwa [List.take_left])
  have hline : shifted r (restOfLine r) = restOfLine r := by
    refine Text.shifted_eq_self fun hmem => ?_
    unfold restOfLine at hmem
    rw [← List.prefix_iff_eq_take.mp (List.takeWhile_prefix _)] at hmem
    exact absurd (List.all_eq_true.mp List.all_takeWhile _ hmem) (by simp)
  unfold Found.padded
  simp only [hkind, true_and]
  rw [List.drop_left, List.drop_left, restOfLine_padded hr, Text.shifted_add, hstem, List.drop_left,
    hline, List.getElem?_append_right (Nat.le_add_right _ _), Nat.add_sub_cancel_left, Nat.add_assoc]

/-- **The same comment starts a text and the padded text.** -/
theorem at?_padded (h : Padded u v) (previous : Option UInt8) :
    at? previous v = (at? previous u).map (Found.padded u) := by
  unfold at?
  rw [findSome?_at?_padded (fun _ hd => hd) h]
  -- the block comments are tried first
  cases delimiters.findSome? (·.at? u) with
  | some f => rfl
  | none =>
    -- none of them opens here: `//` is tried next, then `#` after a space
    have hline : ∀ b ∈ Text.ofString "//", Solid b := by decide
    have hhash : ∀ b ∈ Text.ofString "#", Solid b := by decide
    dsimp only [Option.map_none]
    rw [h.isPrefixOf_eq hline, h.isPrefixOf_eq hhash]
    by_cases hat : (Text.ofString "//").isPrefixOf u = true
    · rw [if_pos hat, if_pos hat]
      rw [List.isPrefixOf_iff_prefix] at hat
      exact congrArg some (padded_lineComment .line rfl hline hat h)
    · rw [if_neg hat, if_neg hat]
      by_cases hat : ((Text.ofString "#").isPrefixOf u && previous.all Text.isSpace) = true
      · rw [if_pos hat, if_pos hat]
        rw [Bool.and_eq_true, List.isPrefixOf_iff_prefix] at hat
        exact congrArg some (padded_lineComment .hash rfl hhash hat.1 h)
      · rw [if_neg hat, if_neg hat]
        rfl

/-! ### The whole text -/

/-- No comment starts at a newline or at a pad. -/
theorem no_opener_of_not_solid {b : UInt8} (hb : ¬ Solid b) (rest : Text) (kind : Kind) :
    ¬ kind.opener <+: b :: rest := by
  rintro ⟨tail, htail⟩
  refine hb ?_
  cases kind <;> obtain ⟨rfl, -⟩ := List.cons.inj htail <;> decide

theorem padded_blanks (h : Padded u v) : Padded (blanks u) (blanks v) := by
  induction h with
  | nil => exact .nil
  | @newline pad u v hpad _ ih =>
    unfold blanks
    rw [List.map_cons, List.map_cons, List.map_cons, if_pos rfl, if_neg hpad.ne_newline]
    exact .newline (Or.inl rfl) ih
  | @keep b u v hb _ ih =>
    unfold blanks
    rw [List.map_cons, List.map_cons, if_neg hb]
    exact .keep (by decide) ih

/-- The states outside comments; only quotes open strings. -/
def State.Ready : State → Prop
  | code _ => True
  | quoted quote _ => isQuote quote = true
  | comment _ => False

theorem not_isQuote_of_not_solid {b : UInt8} (hb : ¬ Solid b) : ¬ isQuote b = true := by
  intro hquote
  rw [isQuote_iff] at hquote
  refine hb ?_
  rcases hquote with rfl | rfl <;> decide

/-- A newline or a pad outside comments stays, and all that is left to know is the byte. -/
theorem stripFrom_not_solid {b : UInt8} (hb : ¬ Solid b) (previous : Option UInt8) (offset : Nat)
    (rest : Text) :
    stripFrom (.code previous) offset (b :: rest) =
      b :: stripFrom (.code (some b)) (offset + 1) rest :=
  stripFrom_of_no_opener (not_isQuote_of_not_solid hb) (no_opener_of_not_solid hb rest) previous offset

theorem afterQuoted_not_solid {quote b : UInt8} (hquote : isQuote quote = true) (hb : ¬ Solid b)
    (odd : Bool) : afterQuoted quote odd b = .quoted quote false := by
  have hback : b ≠ byte '\\' := by
    rintro rfl
    exact hb (by decide)
  have hclose : ¬ (b = quote ∧ odd = false) := by
    rintro ⟨rfl, -⟩
    exact not_isQuote_of_not_solid hb hquote
  unfold afterQuoted
  rw [if_neg hclose, beq_false_of_ne hback, Bool.false_and]

theorem State.ready_afterQuoted {quote : UInt8} (hquote : isQuote quote = true) (odd : Bool)
    (b : UInt8) : (afterQuoted quote odd b).Ready := by
  unfold afterQuoted
  split
  · trivial
  · exact hquote

/-- A comment at the start of both texts, with what follows it. -/
theorem padded_stripFrom_comment {previous : Option UInt8} {f : Found} (h : Padded u v)
    (hat : at? previous u = some f)
    (ih : ∀ {w w' : Text}, w.length < u.length → Padded w w' → ∀ (b : Option UInt8) (o o' : Nat),
      Padded (stripFrom (.code b) o w) (stripFrom (.code b) o' w')) (o o' : Nat) :
    Padded (stripFrom (.code previous) o u) (stripFrom (.code previous) o' v) := by
  obtain ⟨hopener, -, hends⟩ := at?_eq_some hat
  have hbounds := hends.bounds hopener
  have hpos : 0 < f.length := by simpa [Found.span] using hbounds.1
  have hle : f.length ≤ u.length := by simpa [Found.span] using hbounds.2
  have hat' := at?_padded h previous
  rw [hat, Option.map_some] at hat'
  -- the comment and the rest
  obtain ⟨c, w, rfl, hlen⟩ : ∃ c w, u = c ++ w ∧ f.length = c.length :=
    ⟨u.take f.length, u.drop f.length, (List.take_append_drop _ _).symm,
      (List.length_take_of_le hle).symm⟩
  obtain ⟨c', r, rfl, hc, hr⟩ := h.split
  have hshort : w.length < (c ++ w).length := by
    rw [List.length_append]
    omega
  have hclen : c'.length = shifted (c ++ w) f.length := by
    rw [hc.length_eq, hlen]
    unfold shifted
    rw [List.take_length, List.take_left]
  rw [stripFrom_some hat hlen]
  unfold Found.padded at hat'
  by_cases hline : f.kind.closer? = none ∧ (c ++ w)[f.length]? = some (byte '\n')
  · -- the comment ends at a newline, and its pad becomes a part of it
    rw [if_pos hline] at hat'
    have hhead := hline.2
    rw [hlen, List.getElem?_append_right (Nat.le_refl _), Nat.sub_self,
      ← List.head?_eq_getElem?] at hhead
    obtain ⟨w, rfl⟩ := List.head?_eq_some_iff.mp hhead
    cases hr with
    | keep hne _ => exact absurd rfl hne
    | @newline pad _ w' hpad hw =>
      have hcut : c' ++ pad :: byte '\n' :: w' = c' ++ [pad] ++ byte '\n' :: w' := by simp
      have hblank : blanks (c' ++ [pad]) = blanks c' ++ [byte ' '] := by
        simp [blanks, hpad.ne_newline]
      rw [hcut] at hat' ⊢
      rw [stripFrom_some hat' (by simp [hclen]), hblank, stripFrom_not_solid (by decide),
        stripFrom_not_solid (by decide), List.append_assoc]
      exact (padded_blanks hc).append
        (.newline (Or.inl rfl) (ih (Nat.lt_of_succ_lt hshort) hw _ _ _))
  · rw [if_neg hline] at hat'
    rw [stripFrom_some hat' hclen.symm, hc.getLast?_eq]
    exact (padded_blanks hc).append (ih hshort hr _ _ _)

/-- From states outside comments on, blanking keeps texts padded. -/
theorem padded_stripFrom (h : Padded u v) (st : State) (hst : st.Ready) (o o' : Nat) :
    Padded (stripFrom st o u) (stripFrom st o' v) := by
  -- a comment takes several bytes at once, so the induction is on the length
  generalize hlen : u.length = len
  induction len using Nat.strongRecOn generalizing u v st o o' with
  | ind len ih =>
    subst hlen
    cases h with
    | nil => exact (stripFrom_nil st o).symm ▸ (stripFrom_nil st o').symm ▸ Padded.nil
    | @newline pad u v hpad h =>
      have hsolid : ¬ Solid pad := fun hs => hs.2 hpad
      cases st with
      | comment left => exact hst.elim
      | quoted quote odd =>
        -- a backslash before the newline escapes the pad now, which makes no difference
        rw [stripFrom_quoted, stripFrom_quoted, afterQuoted_not_solid hst hsolid, stripFrom_quoted,
          afterQuoted_not_solid hst (by decide), afterQuoted_not_solid hst (by decide)]
        exact .newline hpad (ih _ (Nat.lt_succ_self _) h (.quoted quote false) hst _ _ rfl)
      | code previous =>
        -- behind the pad comes the newline, which a hash may follow as before
        rw [stripFrom_not_solid (by decide), stripFrom_not_solid hsolid,
          stripFrom_not_solid (by decide)]
        exact .newline hpad (ih _ (Nat.lt_succ_self _) h (.code _) trivial _ _ rfl)
    | @keep b u v hb h =>
      cases st with
      | comment left => exact hst.elim
      | quoted quote odd =>
        rw [stripFrom_quoted, stripFrom_quoted]
        exact .keep hb (ih _ (Nat.lt_succ_self _) h _ (State.ready_afterQuoted hst odd b) _ _ rfl)
      | code previous =>
        by_cases hquote : isQuote b = true
        · rw [stripFrom_quote hquote, stripFrom_quote hquote]
          exact .keep hb (ih _ (Nat.lt_succ_self _) h (.quoted b false) hquote _ _ rfl)
        cases hat : at? previous (b :: u) with
        | some f =>
          exact padded_stripFrom_comment (h.keep hb) hat
            (fun hlt hw b o o' => ih _ hlt hw (.code b) trivial o o' rfl) o o'
        | none =>
          have hat' : at? previous (b :: v) = none := by rw [at?_padded (h.keep hb), hat]; rfl
          rw [stripFrom_none hquote hat, stripFrom_none hquote hat']
          exact .keep hb (ih _ (Nat.lt_succ_self _) h (.code _) trivial _ _ rfl)

/-- **Blanking a padded text gives a padded text.** -/
theorem padded_strip (h : Padded u v) : Padded (strip u) (strip v) :=
  padded_stripFrom h (.code none) trivial 0 0

end

end ViewLint.Comment
