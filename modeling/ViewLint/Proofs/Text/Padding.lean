import ViewLint.Proofs.Text.Places
import ViewLint.Proofs.Text.Search

/-!
# Texts with a byte in front of every newline

`Padded u v` says that `v` is `u` with a carriage return or a space put in front of every newline.
A text with the other line ends is padded so, and so is that text once its comments are blanked,
because a carriage return in a comment becomes a space.

Padding moves offsets (`shifted`) but neither places (`Padded.endPlace_eq`) nor anything that is
told by bytes other than newlines, spaces and carriage returns: words (`Padded.takeWhile_eq`), fixed
heads (`Padded.isPrefixOf_eq`), first occurrences (`Padded.find?_eq`).
-/

namespace ViewLint.Text

/-- A byte that may be put in front of a newline. -/
def IsPad (b : UInt8) : Prop := b = byte ' ' ∨ b = byte '\r'

/-- **The second text is the first one with a pad in front of every newline.** -/
inductive Padded : Text → Text → Prop
  | nil : Padded [] []
  | newline {pad : UInt8} {u v : Text} : IsPad pad → Padded u v →
      Padded (byte '\n' :: u) (pad :: byte '\n' :: v)
  | keep {b : UInt8} {u v : Text} : b ≠ byte '\n' → Padded u v → Padded (b :: u) (b :: v)

/-- Where an offset of a text is in the padded text. -/
def shifted (text : Text) (n : Nat) : Nat := n + (text.take n).count (byte '\n')

/-- A byte that padding does not touch. -/
def Solid (b : UInt8) : Prop := b ≠ byte '\n' ∧ ¬ IsPad b

instance (b : UInt8) : Decidable (IsPad b) := inferInstanceAs (Decidable (_ ∨ _))

instance (b : UInt8) : Decidable (Solid b) := inferInstanceAs (Decidable (_ ∧ _))

/-! ### Offsets -/

@[simp] theorem shifted_zero (text : Text) : shifted text 0 = 0 := by
  simp [shifted]

@[simp] theorem shifted_newline (text : Text) (n : Nat) :
    shifted (byte '\n' :: text) (n + 1) = shifted text n + 2 := by
  unfold shifted
  rw [List.take_succ_cons, List.count_cons_self]
  omega

theorem shifted_cons {b : UInt8} (h : b ≠ byte '\n') (text : Text) (n : Nat) :
    shifted (b :: text) (n + 1) = shifted text n + 1 := by
  unfold shifted
  rw [List.take_succ_cons, List.count_cons_of_ne (by simpa using h)]
  omega

theorem shifted_add (text : Text) (n m : Nat) :
    shifted text (n + m) = shifted text n + shifted (text.drop n) m := by
  unfold shifted
  rw [List.take_add, List.count_append]
  omega

/-- Without a newline before it an offset stays. -/
theorem shifted_eq_self {text : Text} {n : Nat} (h : byte '\n' ∉ text.take n) :
    shifted text n = n := by
  unfold shifted
  rw [List.count_eq_zero_of_not_mem h, Nat.add_zero]

theorem IsPad.ne_newline {b : UInt8} (h : IsPad b) : b ≠ byte '\n' := by
  rcases h with rfl | rfl <;> decide

theorem not_mem_of_solid {text : Text} (h : ∀ b ∈ text, Solid b) : byte '\n' ∉ text :=
  fun hmem => (h _ hmem).1 rfl

namespace Padded

variable {u v x r : Text}

/-! ### Cutting padded texts -/

theorem append {u' v' : Text} (h : Padded u v) (h' : Padded u' v') : Padded (u ++ u') (v ++ v') := by
  induction h with
  | nil => exact h'
  | newline hpad _ ih => exact .newline hpad ih
  | keep hb _ ih => exact .keep hb ih

theorem eq_of_not_mem (h : Padded u v) (hu : byte '\n' ∉ u) : v = u := by
  induction h with
  | nil => rfl
  | newline => exact absurd List.mem_cons_self hu
  | keep _ _ ih => rw [ih fun hmem => hu (List.mem_cons_of_mem _ hmem)]

/-- A cut of a text is a cut of the padded text. -/
theorem split (h : Padded (x ++ r) v) : ∃ x' r', v = x' ++ r' ∧ Padded x x' ∧ Padded r r' := by
  induction x generalizing v with
  | nil => exact ⟨[], v, rfl, .nil, h⟩
  | cons b x ih =>
    cases h with
    | newline hpad h =>
      obtain ⟨x', r', rfl, hx, hr⟩ := ih h
      exact ⟨_, r', rfl, .newline hpad hx, hr⟩
    | keep hb h =>
      obtain ⟨x', r', rfl, hx, hr⟩ := ih h
      exact ⟨_, r', rfl, .keep hb hx, hr⟩

/-- Up to a newline the two texts are the same. -/
theorem split_of_not_mem (h : Padded (x ++ r) v) (hx : byte '\n' ∉ x) :
    ∃ r', v = x ++ r' ∧ Padded r r' := by
  obtain ⟨x', r', rfl, hpadded, hr⟩ := h.split
  exact ⟨r', by rw [hpadded.eq_of_not_mem hx], hr⟩

/-- A cut of the padded text in front of a solid byte is a cut of the text. -/
theorem split_right {y s : Text} {b : UInt8} (h : Padded u v) (hv : v = y ++ b :: s)
    (hb : Solid b) : ∃ x r, u = x ++ b :: r ∧ Padded x y ∧ Padded r s := by
  induction h generalizing y with
  | nil => simp at hv
  | newline hpad h ih =>
    -- neither the pad nor the newline behind it is the solid byte
    rcases List.cons_eq_append_iff.mp hv with ⟨-, hv'⟩ | ⟨y', rfl, hv'⟩
    · obtain ⟨rfl, -⟩ := List.cons.inj hv'
      exact absurd hpad hb.2
    rcases List.cons_eq_append_iff.mp hv' with ⟨-, hv''⟩ | ⟨y'', rfl, hv''⟩
    · exact absurd (List.cons.inj hv'').1 hb.1
    obtain ⟨x, r, rfl, hx, hr⟩ := ih hv''
    exact ⟨_, r, rfl, .newline hpad hx, hr⟩
  | keep hc h ih =>
    rcases List.cons_eq_append_iff.mp hv with ⟨rfl, hv'⟩ | ⟨y', rfl, hv'⟩
    · obtain ⟨rfl, rfl⟩ := List.cons.inj hv'
      exact ⟨[], _, rfl, .nil, h⟩
    · obtain ⟨x, r, rfl, hx, hr⟩ := ih hv'
      exact ⟨_, r, rfl, .keep hc hx, hr⟩

theorem take (h : Padded u v) (n : Nat) : Padded (u.take n) (v.take (shifted u n)) := by
  -- along the padding: what is cut before a newline is cut before the return put there
  induction h generalizing n with
  | nil => simpa using Padded.nil
  | newline hpad _ ih =>
    cases n with
    | zero => simpa using Padded.nil
    | succ n =>
      rw [shifted_newline, List.take_succ_cons, List.take_succ_cons, List.take_succ_cons]
      exact .newline hpad (ih n)
  | keep hb _ ih =>
    cases n with
    | zero => simpa using Padded.nil
    | succ n =>
      rw [shifted_cons hb, List.take_succ_cons, List.take_succ_cons]
      exact .keep hb (ih n)

theorem drop (h : Padded u v) (n : Nat) : Padded (u.drop n) (v.drop (shifted u n)) := by
  -- as for `take`
  induction h generalizing n with
  | nil => simpa using Padded.nil
  | newline hpad h ih =>
    cases n with
    | zero => exact .newline hpad h
    | succ n =>
      rw [shifted_newline, List.drop_succ_cons, List.drop_succ_cons, List.drop_succ_cons]
      exact ih n
  | keep hb h ih =>
    cases n with
    | zero => exact .keep hb h
    | succ n =>
      rw [shifted_cons hb, List.drop_succ_cons, List.drop_succ_cons]
      exact ih n

theorem length_eq (h : Padded u v) : v.length = shifted u u.length := by
  induction h with
  | nil => rfl
  | newline _ _ ih => rw [List.length_cons, List.length_cons, List.length_cons, shifted_newline, ih]
  | keep hb _ ih => rw [List.length_cons, List.length_cons, shifted_cons hb, ih]

/-! ### Ends -/

theorem getLast?_eq (h : Padded u v) : v.getLast? = u.getLast? := by
  induction h with
  | nil => rfl
  | newline _ _ ih => rw [List.getLast?_cons_cons, List.getLast?_cons, List.getLast?_cons, ih]
  | keep _ _ ih => rw [List.getLast?_cons, List.getLast?_cons, ih]

theorem count_newline (h : Padded u v) : v.count (byte '\n') = u.count (byte '\n') := by
  induction h with
  | nil => rfl
  | @newline pad u v hpad _ ih =>
    rw [List.count_cons_of_ne (by simpa using hpad.ne_newline), List.count_cons_self,
      List.count_cons_self, ih]
  | keep hb _ ih =>
    rw [List.count_cons_of_ne (by simpa using hb), List.count_cons_of_ne (by simpa using hb), ih]

/-- The bytes behind the last newline are the same. -/
theorem lastLine_eq (h : Padded u v) : lastLine v = lastLine u := by
  obtain ⟨front, hfront, hsplit⟩ := exists_append_lastLine u
  rw [hsplit] at h
  obtain ⟨front', hv, hpadded⟩ : ∃ front', v = front' ++ lastLine u ∧ Padded front front' := by
    obtain ⟨front', rest, hv, hfront', hrest⟩ := h.split
    rw [hrest.eq_of_not_mem (not_mem_lastLine u)] at hv
    exact ⟨front', hv, hfront'⟩
  -- the part before it is empty or ends with a newline, like that of the other text
  have hnil : lastLine front' = [] := by
    rcases hfront with rfl | ⟨f, rfl⟩
    · cases hpadded
      rfl
    · have hlast := hpadded.getLast?_eq
      rw [List.getLast?_concat] at hlast
      obtain ⟨f', rfl⟩ := List.getLast?_eq_some_iff.mp hlast
      exact lastLine_newline f'
  rw [hv, lastLine_append (not_mem_lastLine u), hnil, List.nil_append]

/-- **Padding moves no place.** -/
theorem endPlace_eq (h : Padded u v) : endPlace v = endPlace u := by
  unfold endPlace
  rw [h.count_newline, h.lastLine_eq]

/-! ### Solid bytes -/

/-- A run of solid bytes is the same in both texts. -/
theorem takeWhile_eq {p : UInt8 → Bool} (hp : ∀ b, p b = true → Solid b) (h : Padded u v) :
    v.takeWhile p = u.takeWhile p := by
  have hnl : ¬ p (byte '\n') = true := fun hb => (hp _ hb).1 rfl
  induction h with
  | nil => rfl
  | newline hpad _ _ =>
    rw [List.takeWhile_cons_of_neg hnl, List.takeWhile_cons_of_neg fun hb => (hp _ hb).2 hpad]
  | keep hb _ ih => rw [List.takeWhile_cons, List.takeWhile_cons, ih]

/-- A solid head stands in both texts or in none. -/
theorem isPrefixOf_eq {head : Text} (hhead : ∀ b ∈ head, Solid b) (h : Padded u v) :
    head.isPrefixOf v = head.isPrefixOf u := by
  induction head generalizing u v with
  | nil => rfl
  | cons b head ih =>
    obtain ⟨hb, hhead⟩ := List.forall_mem_cons.mp hhead
    cases h with
    | nil => rfl
    | newline hpad _ =>
      -- the head is neither at the newline nor at its pad
      have hne : b ≠ _ := fun heq => hb.2 (heq ▸ hpad)
      rw [List.isPrefixOf_cons_cons, List.isPrefixOf_cons_cons, beq_false_of_ne hne,
        beq_false_of_ne hb.1]
      rfl
    | keep _ h => rw [List.isPrefixOf_cons_cons, List.isPrefixOf_cons_cons, ih hhead h]

/-- **A solid needle is found in both texts or in none**, at offsets that padding takes to each
other. -/
theorem find?_eq {b : UInt8} {needle : Text} (hneedle : ∀ c ∈ b :: needle, Solid c)
    (h : Padded u v) : find? (b :: needle) v = (find? (b :: needle) u).map (shifted u) := by
  have hb := hneedle b List.mem_cons_self
  have hnot : ∀ {c : UInt8} (rest : Text), c ≠ b → ¬ b :: needle <+: c :: rest := by
    intro c rest hne hat
    exact hne (List.cons_prefix_cons.mp hat).1.symm
  induction h with
  | nil => rfl
  | @newline pad u v hpad h ih =>
    have hpadb : pad ≠ b := by
      rintro rfl
      exact hb.2 hpad
    -- two bytes are passed over in the one text, one in the other
    rw [find?_cons_of_not_starts (hnot _ hpadb), find?_cons_of_not_starts (hnot _ (Ne.symm hb.1)),
      find?_cons_of_not_starts (hnot _ (Ne.symm hb.1)), ih, Option.map_map, Option.map_map,
      Option.map_map]
    congr 1
    funext n
    simp
  | @keep c u v hc h ih =>
    have hstarts := (h.keep hc).isPrefixOf_eq hneedle
    rw [Bool.eq_iff_iff, List.isPrefixOf_iff_prefix, List.isPrefixOf_iff_prefix] at hstarts
    by_cases hat : b :: needle <+: c :: u
    · rw [find?_cons_of_starts hat, find?_cons_of_starts (hstarts.mpr hat), Option.map_some,
        shifted_zero]
    · rw [find?_cons_of_not_starts hat, find?_cons_of_not_starts (mt hstarts.mp hat), ih,
        Option.map_map, Option.map_map]
      congr 1
      funext n
      simp [shifted_cons hc]

end Padded

end ViewLint.Text
