import ViewLint.Glob
import ViewLint.Proofs.Patterns

/-!
# The matcher on the patterns of suffixes

The pattern `**/*` followed by a suffix is meant for the names that end in the suffix. If no byte of the
suffix has a meaning in patterns, that is what it matches, character by character (`matches?_suffix`), and
the matcher reads the pattern part by part as it is asked to (`readsSuffix`).

The machine looks for the suffix at one character of the name after the other. An attempt at a place
compares the characters of the suffix with those that stand there (`settles_attempt`); it fails for good
only if the name is over too early. After any other mismatch the star takes one more character, and
where that would be a slash the next segment of the name is entered: in both cases the next attempt is
at the next character (`settles_starred`). A star without directories in front of it has no next segment
to enter, and gives up at the slash (`settles_alone`).
-/

namespace ViewLint.Glob

open Text (codes firstRune)
open Patterns (metas IsLiteral)

/-! ### Runs of the machine -/

section Run

variable {pattern name : Text} {choose : Text → State → List Text → Option Bool} {s next : State}
  {n m : Nat} {b : Bool}

/-- From a state on, so many moves are enough to tell whether the name matches. -/
def Settles (pattern name : Text) (choose : Text → State → List Text → Option Bool) (s : State)
    (n : Nat) (b : Bool) : Prop :=
  ∀ fuel, n ≤ fuel → (runWith name choose fuel pattern s == some true) = b

theorem Settles.mono (h : Settles pattern name choose s n b) (hle : n ≤ m) :
    Settles pattern name choose s m b :=
  fun fuel hfuel => h fuel (Nat.le_trans hle hfuel)

/-- What a move leads to settles the match in so many moves more. -/
def Yields (pattern name : Text) (choose : Text → State → List Text → Option Bool) (move : Move)
    (n : Nat) (b : Bool) : Prop :=
  match move with
  | .goOn next => Settles pattern name choose next n b
  | .done matched => matched = b
  | .malformed => b = false
  | .choose .. => False

/-- One move before the end of the name. -/
theorem Yields.of_step (h : Yields pattern name choose (step pattern name s) n b)
    (hinside : name.drop s.cursor.name ≠ []) : Settles pattern name choose s (n + 1) b := by
  intro fuel hfuel
  obtain ⟨fuel, rfl⟩ := Nat.exists_eq_add_of_lt (Nat.lt_of_lt_of_le (Nat.succ_pos n) hfuel)
  have hlt : ¬ name.length ≤ s.cursor.name := fun hle => hinside (List.drop_eq_nil_of_le hle)
  rw [Nat.zero_add, runWith, if_neg hlt]
  -- one case per outcome of the step
  cases hstep : step pattern name s with
  | goOn next =>
    rw [hstep] at h
    exact h fuel (by omega)
  | done matched =>
    rw [hstep] at h
    obtain rfl : matched = b := h
    cases matched <;> rfl
  | malformed =>
    rw [hstep] at h
    obtain rfl : b = false := h
    rfl
  -- a step that has to choose is ruled out by `h`
  | choose reached rests =>
    rw [hstep] at h
    exact absurd h id

theorem Settles.of_step (h : Settles pattern name choose next n b)
    (hinside : name.drop s.cursor.name ≠ []) (hstep : step pattern name s = .goOn next) :
    Settles pattern name choose s (n + 1) b := by
  refine Yields.of_step ?_ hinside
  rw [hstep]
  exact h

/-- Without a `**/` behind it the machine has nowhere to go back to. -/
theorem yields_resumeDeep (hdeep : s.deep = none) (stuck : Nat) :
    Yields pattern name choose (resumeDeep pattern name stuck s) n false := by
  unfold resumeDeep
  rw [hdeep]
  simp only [Option.bind_none]
  split <;> rfl

/-- At the end of the name nothing but the rest of the pattern counts. -/
theorem settles_end (hend : name.drop s.cursor.name = [])
    (hempty : (emptyMatch (pattern.length + 1) (pattern.drop s.cursor.pattern) == some true) = b) :
    Settles pattern name choose s 1 b := by
  intro fuel hfuel
  obtain ⟨fuel, rfl⟩ := Nat.exists_eq_add_of_lt hfuel
  rw [Nat.zero_add, runWith, if_pos (List.drop_eq_nil_iff.mp hend), hempty]

theorem emptyMatch_nil (fuel : Nat) : (emptyMatch (fuel + 1) [] == some true) = true := by
  rw [emptyMatch, if_pos (by decide)]
  rfl

/-- What is left of a pattern matches nothing if it is none of the patterns that do. -/
theorem emptyMatch_of_not_mem {rest : Text} (hrest : rest ∉ matchesNothing)
    (hbrace : rest.head? ≠ some brace) (fuel : Nat) :
    (emptyMatch (fuel + 1) rest == some true) = false := by
  cases rest with
  | nil => exact absurd (by decide) hrest
  | cons b behind =>
    have hb : b ≠ brace := fun heq => hbrace (congrArg some heq)
    rw [emptyMatch, if_neg (by simpa using hrest), if_neg hb]
    split <;> rfl

theorem emptyMatch_of_isLiteral {rest : Text} (hlit : IsLiteral rest) (hne : rest ≠ []) (fuel : Nat) :
    (emptyMatch (fuel + 1) rest == some true) = false := by
  apply emptyMatch_of_not_mem
  · -- all patterns of nothing but the empty one have a star
    intro hmem
    have hstar : ∀ t ∈ matchesNothing, t = [] ∨ Text.byte '*' ∈ t := by decide
    rcases hstar rest hmem with rfl | hstar
    · exact hne rfl
    · exact hlit _ hstar (by decide)
  · intro hhead
    exact hlit brace (List.mem_of_mem_head? hhead) (by decide)

theorem emptyMatch_of_dot {rest : Text} (hhead : rest.head? = some (Text.byte '*'))
    (hdot : Text.byte '.' ∈ rest) (fuel : Nat) : (emptyMatch (fuel + 1) rest == some true) = false := by
  apply emptyMatch_of_not_mem
  · intro hmem
    have hdots : ∀ t ∈ matchesNothing, Text.byte '.' ∉ t := by decide
    exact hdots rest hmem hdot
  · rw [hhead]
    decide

theorem step_of_literal {c : UInt8} {behind : Text} (hp : pattern.drop s.cursor.pattern = c :: behind)
    (hc : c ∉ metas) : step pattern name s = stepLiteral pattern name s.cursor.pattern s := by
  have hnot : ∀ d ∈ metas, c ≠ d := fun d hd heq => hc (heq ▸ hd)
  unfold step
  simp only [hp]
  rw [if_neg (hnot _ (by decide)), if_neg (hnot _ (by decide)), if_neg (hnot _ (by decide)),
    if_neg (hnot _ (by decide)), if_neg (hnot _ (by decide))]

/-- Compares code points one by one: they are the same, or there are too few of the second, or they
differ. -/
def compareCodes : List Nat → List Nat → Option Bool
  | [], [] => some true
  | _ :: _, [] => some false
  | [], _ :: _ => none
  | c :: cs, d :: ds => if c = d then compareCodes cs ds else none

theorem compareCodes_cons_self (c : Nat) (cs ds : List Nat) :
    compareCodes (c :: cs) (c :: ds) = compareCodes cs ds := if_pos rfl

theorem compareCodes_cons_of_ne {c d : Nat} (h : c ≠ d) (cs ds : List Nat) :
    compareCodes (c :: cs) (d :: ds) = none := if_neg h

/-- **An attempt at one place.** Literal text is compared with what stands in the name; after a mismatch
the machine goes on where the last star says. -/
theorem settles_attempt {suffix text : Text} (hlit : IsLiteral suffix)
    (hp : pattern.drop s.cursor.pattern = suffix) (hn : name.drop s.cursor.name = text)
    (hmiss : ∀ stuck (t : State), t.star = s.star → t.deep = s.deep →
      Yields pattern name choose (resume pattern name stuck t) m b) :
    Settles pattern name choose s (suffix.length + m + 1)
      ((compareCodes (codes suffix) (codes text)).getD b) := by
  induction suffix using Text.firstRune_induction generalizing s text with
  | nil =>
    by_cases htext : text = []
    · subst htext
      refine (settles_end hn ?_).mono (by omega)
      rw [hp]
      exact emptyMatch_nil _
    · -- the suffix is over, and some of the name is left
      have hstep : step pattern name s = resume pattern name s.cursor.pattern s := by
        unfold step
        simp only [hp]
      have hyields : Yields pattern name choose (step pattern name s) m b := by
        rw [hstep]
        exact hmiss _ s rfl rfl
      rw [Text.codes_of_ne_nil htext]
      exact (hyields.of_step (hn ▸ htext)).mono (by omega)
  | cons suffix hne ih =>
    rw [Text.codes_of_ne_nil hne]
    by_cases htext : text = []
    · -- the name is over, and some of the suffix is left
      subst htext
      refine (settles_end hn ?_).mono (by omega)
      rw [hp]
      exact emptyMatch_of_isLiteral hlit hne _
    have hstep : step pattern name s = stepLiteral pattern name s.cursor.pattern s := by
      obtain ⟨c, behind, rfl⟩ := List.exists_cons_of_ne_nil hne
      exact step_of_literal hp (hlit c List.mem_cons_self)
    rw [Text.codes_of_ne_nil htext]
    by_cases hsame : (firstRune suffix).code = (firstRune text).code
    · -- the same character: both move on, and the star stays where it is
      have hwidth := Text.width_firstRune hne
      unfold stepLiteral at hstep
      simp only [hp, hn, if_pos hsame] at hstep
      rw [← hsame, compareCodes_cons_self]
      have hrest := ih (s := ⟨⟨_, _⟩, (firstRune suffix).code == 47, s.star, s.deep⟩)
        (fun c hc => hlit c (List.mem_of_mem_drop hc)) (Text.drop_firstRune_of_drop hp)
        (Text.drop_firstRune_of_drop hn) hmiss
      refine (hrest.of_step (hn ▸ htext) hstep).mono ?_
      rw [List.length_drop]
      omega
    · -- another character: back to the star
      unfold stepLiteral at hstep
      simp only [hp, hn, if_neg hsame] at hstep
      have hyields : Yields pattern name choose (step pattern name s) m b := by
        rw [hstep]
        exact hmiss _ s rfl rfl
      rw [compareCodes_cons_of_ne hsame]
      exact (hyields.of_step (hn ▸ htext)).mono (by omega)

end Run

/-! ### The search for a suffix -/

theorem eq_of_compareCodes {cs ds : List Nat} (h : compareCodes cs ds = some true) : cs = ds := by
  induction cs, ds using compareCodes.induct with
  | case1 => rfl
  | case2 => exact absurd h (by simp [compareCodes])
  | case3 => exact absurd h (by simp [compareCodes])
  | case4 c cs ds ih =>
    rw [compareCodes_cons_self] at h
    rw [ih h]
  | case5 c cs d ds hne =>
    rw [compareCodes_cons_of_ne hne] at h
    exact absurd h (by simp)

theorem length_lt_of_compareCodes {cs ds : List Nat} (h : compareCodes cs ds = some false) :
    ds.length < cs.length := by
  induction cs, ds using compareCodes.induct with
  | case1 => exact absurd h (by simp [compareCodes])
  | case2 => simp
  | case3 => exact absurd h (by simp [compareCodes])
  | case4 c cs ds ih =>
    rw [compareCodes_cons_self] at h
    exact Nat.succ_lt_succ (ih h)
  | case5 c cs d ds hne =>
    rw [compareCodes_cons_of_ne hne] at h
    exact absurd h (by simp)

theorem compareCodes_self (cs : List Nat) : compareCodes cs cs = some true := by
  induction cs with
  | nil => rfl
  | cons c cs ih => rw [compareCodes_cons_self, ih]

/-- A comparison decides for itself, or after a mismatch leaves it to `q`, which needs as many code points
as are compared. -/
theorem getD_compareCodes {cs ds : List Nat} {p q : Prop} [Decidable p] [Decidable q]
    (hp : p ↔ cs = ds ∨ q) (hq : ds.length < cs.length → ¬ q) :
    (compareCodes cs ds).getD (decide q) = decide p := by
  cases hcompare : compareCodes cs ds with
  | none =>
    have hne : cs ≠ ds := by
      rintro rfl
      exact absurd (hcompare.symm.trans (compareCodes_self _)) (by simp)
    rw [Option.getD_none, decide_eq_decide, hp]
    exact ⟨Or.inr, fun h => h.resolve_left hne⟩
  -- no code point differs: they are the same, or the second one is over first
  | some same =>
    rw [Option.getD_some, eq_comm]
    cases same with
    | true => exact decide_eq_true (hp.mpr (Or.inl (eq_of_compareCodes hcompare)))
    | false =>
      have hlt := length_lt_of_compareCodes hcompare
      refine decide_eq_false fun h => ?_
      rcases hp.mp h with rfl | h
      · exact Nat.lt_irrefl _ hlt
      · exact hq hlt h

section Search

variable {suffix name : Text} {choose : Text → State → List Text → Option Bool}

/-- The pattern of the files with a suffix. -/
def suffixPattern (suffix : Text) : Text :=
  Text.byte '*' :: Text.byte '*' :: slash :: Text.byte '*' :: suffix

/-- Behind the star, in the segment that starts at `d`, with the name read up to `k`. -/
def starred (k d : Nat) : State := ⟨⟨4, k⟩, false, some ⟨4, k⟩, some ⟨3, d⟩⟩

/-- At the start of a segment, before the star. -/
def entered (k : Nat) : State := ⟨⟨3, k⟩, true, none, some ⟨3, k⟩⟩

/-- The next segment starts behind the first slash. -/
theorem nextSegment_eq {d k : Nat} {rest : Text} (hdk : d ≤ k)
    (hslash : slash ∉ (name.drop d).take (k - d)) (hk : name.drop k = slash :: rest) :
    nextSegment d name = some (k + 1) := by
  have hlength : k < name.length := by
    by_contra hle
    rw [List.drop_eq_nil_of_le (Nat.not_lt.mp hle)] at hk
    exact absurd hk (List.cons_ne_nil _ _).symm
  have hsplit : name.drop d = (name.drop d).take (k - d) ++ slash :: rest := by
    rw [← hk, ← Nat.add_sub_cancel' hdk, ← List.drop_drop, Nat.add_sub_cancel' hdk,
      List.take_append_drop]
  have hbefore : ((name.drop d).take (k - d)).findIdx? (· == slash) = none := by
    rw [List.findIdx?_eq_none_iff]
    intro c hc
    exact beq_eq_false_iff_ne.mpr fun heq => hslash (heq ▸ hc)
  unfold nextSegment
  -- the bytes before the slash are `k - d`
  rw [hsplit, List.findIdx?_append, hbefore, Option.none_or, List.findIdx?_cons, List.length_take,
    List.length_drop]
  simp only [beq_self_eq_true, if_true, Option.map_some, Option.some.injEq]
  omega

section Resume

variable {text : Text} {stuck k d n : Nat} {b : Bool} {s : State}

/-- The star may not take a slash, and the next segment is entered. -/
theorem yields_at_slash (htext : name.drop k = text) (hcode : (firstRune text).code = 47)
    (hsegment : nextSegment d name = some (k + 1))
    (h : Settles (suffixPattern suffix) name choose (entered (k + 1)) n b)
    (hstar : s.star = (starred k d).star) (hdeep : s.deep = (starred k d).deep) :
    Yields (suffixPattern suffix) name choose (resume (suffixPattern suffix) name stuck s) n b := by
  unfold resume
  rw [hstar]
  simp only [starred, htext, if_pos hcode]
  unfold resumeDeep
  simp only [hdeep, starred, Option.bind_some, hsegment, Option.map_some]
  exact h

/-- The star takes one more character. -/
theorem yields_at_character (htext : name.drop k = text) (hcode : (firstRune text).code ≠ 47)
    (h : Settles (suffixPattern suffix) name choose (starred (k + (firstRune text).width) d) n b)
    (hstar : s.star = (starred k d).star) (hdeep : s.deep = (starred k d).deep) :
    Yields (suffixPattern suffix) name choose (resume (suffixPattern suffix) name stuck s) n b := by
  unfold resume
  rw [hstar]
  simp only [starred, htext, if_neg hcode, hdeep]
  exact h

end Resume

theorem not_suffix_nil (hne : suffix ≠ []) : decide (codes suffix <:+ codes []) = false := by
  rw [decide_eq_false_iff_not, Text.codes_nil, List.suffix_nil, Text.codes_of_ne_nil hne]
  exact List.cons_ne_nil _ _

/-- The moves of an attempt at the first character, and those of the attempts at the others. -/
theorem attempts_le {text : Text} (hinside : text ≠ []) (n : Nat) :
    ((text.drop (firstRune text).width).length + 1) * n + n ≤ (text.length + 1) * n := by
  have hwidth := Text.width_firstRune hinside
  rw [List.length_drop, ← Nat.succ_mul]
  exact Nat.mul_le_mul_right n (by omega)

/-- At the start of a segment the star takes nothing at first. -/
theorem settles_entered (hdot : suffix.head? = some (Text.byte '.')) {text : Text} {k n : Nat}
    (htext : name.drop k = text)
    (h : Settles (suffixPattern suffix) name choose (starred k k) n
      (decide (codes suffix <:+ codes text))) :
    Settles (suffixPattern suffix) name choose (entered k) (n + 1)
      (decide (codes suffix <:+ codes text)) := by
  obtain ⟨rest, rfl⟩ := List.head?_eq_some_iff.mp hdot
  by_cases hend : text = []
  · subst hend
    rw [not_suffix_nil (List.cons_ne_nil _ _)]
    refine (settles_end htext (emptyMatch_of_dot rfl ?_ _)).mono (by omega)
    exact List.mem_cons_of_mem _ List.mem_cons_self
  · exact h.of_step (htext ▸ hend) rfl

/-- **The search for a suffix.** From the star on, the machine finds the suffix at some character of the
rest of the name, if it ends the name. -/
theorem settles_starred (hdot : suffix.head? = some (Text.byte '.')) (hlit : IsLiteral suffix)
    {text : Text} {k d : Nat} (htext : name.drop k = text) (hdk : d ≤ k)
    (hslash : slash ∉ (name.drop d).take (k - d)) :
    Settles (suffixPattern suffix) name choose (starred k d) ((text.length + 1) * (suffix.length + 3))
      (decide (codes suffix <:+ codes text)) := by
  have hne : suffix ≠ [] := by
    rintro rfl
    exact absurd hdot (by simp)
  induction text using Text.firstRune_induction generalizing k d with
  | nil =>
    rw [not_suffix_nil hne]
    exact (settles_end htext (emptyMatch_of_isLiteral hlit hne _)).mono (by simp)
  | cons text hinside ih =>
    have hwidth := Text.width_firstRune hinside
    have hdrop := Text.drop_firstRune_of_drop htext
    have hmoves := attempts_le hinside (suffix.length + 3)
    have hsplit : codes suffix <:+ codes text ↔
        codes suffix = codes text ∨ codes suffix <:+ codes (text.drop (firstRune text).width) := by
      rw [Text.codes_of_ne_nil hinside, List.suffix_cons_iff]
    have hlong : (codes text).length < (codes suffix).length →
        ¬ codes suffix <:+ codes (text.drop (firstRune text).width) := by
      intro hlt hends
      have hle := hends.length_le
      rw [Text.codes_of_ne_nil hinside, List.length_cons] at hlt
      omega
    rw [← getD_compareCodes hsplit hlong]
    by_cases hcode : (firstRune text).code = 47
    · -- the star stands before a slash, behind which the next segment starts
      obtain ⟨rest, hrest, hone⟩ := Text.firstRune_ascii (c := slash) (by decide) hcode
      have hsegment := nextSegment_eq hdk hslash (htext.trans hrest)
      rw [hone] at hdrop hmoves ih ⊢
      have hnext := settles_entered hdot hdrop (ih hdrop (Nat.le_refl _) (by simp))
      refine (settles_attempt hlit rfl htext fun stuck t =>
        yields_at_slash htext hcode hsegment hnext).mono ?_
      omega
    · -- the star takes the character, in which there is no slash
      have hswallowed : slash ∉ (name.drop d).take (k + (firstRune text).width - d) := by
        rw [Nat.sub_add_comm hdk, List.take_add, List.drop_drop, Nat.add_sub_cancel' hdk, htext,
          List.mem_append, not_or]
        exact ⟨hslash, Text.not_mem_take_firstRune (by decide) hcode⟩
      refine (settles_attempt hlit rfl htext fun stuck t =>
        yields_at_character htext hcode (ih hdrop (by omega) hswallowed)).mono ?_
      omega

/-- The bound on the moves of the machine is large enough for a search. -/
theorem le_moves (pattern name : Text) :
    (name.length + 1) * (pattern.length + 2) ≤ moves pattern name := by
  unfold moves
  have hname : name.length + 1 ≤ (pattern.length + 1) * (name.length + 1) :=
    Nat.le_mul_of_pos_left _ (by omega)
  exact Nat.mul_le_mul_right _ (Nat.le_trans hname (Nat.le_mul_of_pos_left _ (by simp)))

/-- **The pattern of a literal suffix matches the names that end in the suffix**, character by
character. -/
theorem matches?_suffix (hdot : suffix.head? = some (Text.byte '.')) (hlit : IsLiteral suffix)
    (name : Text) :
    matches? (Text.ofString "**/*" ++ suffix) name = some true ↔ codes suffix <:+ codes name := by
  have hmem : Text.byte '.' ∈ suffix := List.mem_of_mem_head? hdot
  change run name _ (suffixPattern suffix) _ = some true ↔ _
  rw [run]
  generalize (fun pattern s rests => _) = choose
  -- the run of `**` settles the name, whatever the choice at it
  have hentered : Settles (suffixPattern suffix) name choose (entered 0)
      ((name.length + 1) * (suffix.length + 3) + 1) (decide (codes suffix <:+ codes name)) :=
    settles_entered hdot rfl (settles_starred hdot hlit rfl (Nat.le_refl 0) (by simp))
  have hstart : Settles (suffixPattern suffix) name choose ⟨⟨0, 0⟩, true, none, none⟩
      -- an empty name ends at once; any other enters the run
      ((name.length + 1) * (suffix.length + 3) + 2) (decide (codes suffix <:+ codes name)) := by
    by_cases hname : name = []
    · subst hname
      rw [not_suffix_nil (List.ne_nil_of_mem hmem)]
      refine (settles_end rfl (emptyMatch_of_dot rfl ?_ _)).mono (by omega)
      simp [suffixPattern, hmem]
    · exact hentered.of_step hname rfl
  -- and the fuel given covers all the moves that takes
  have hlength : (suffixPattern suffix).length + 2 = suffix.length + 3 + 3 := rfl
  have hmoves := le_moves (suffixPattern suffix) name
  rw [hlength, Nat.mul_add] at hmoves
  rw [← beq_iff_eq, hstart _ (by omega), decide_eq_true_iff]

end Search

/-! ### A star alone -/

/-- The code points end in those of the suffix, with no slash in front of them. -/
def EndsSegment (cs ds : List Nat) : Prop := ∃ before, ds = before ++ cs ∧ 47 ∉ before

theorem endsSegment_iff {cs ds : List Nat} :
    EndsSegment cs ds ↔ cs <:+ ds ∧ 47 ∉ ds.take (ds.length - cs.length) := by
  constructor
  · rintro ⟨before, rfl, hbefore⟩
    refine ⟨List.suffix_append _ _, ?_⟩
    rw [List.length_append, Nat.add_sub_cancel, List.take_left]
    exact hbefore
  · rintro ⟨⟨before, rfl⟩, hbefore⟩
    rw [List.length_append, Nat.add_sub_cancel, List.take_left] at hbefore
    exact ⟨before, rfl, hbefore⟩

instance (cs ds : List Nat) : Decidable (EndsSegment cs ds) := decidable_of_iff _ endsSegment_iff.symm

theorem endsSegment_cons {cs ds : List Nat} {d : Nat} :
    EndsSegment cs (d :: ds) ↔ cs = d :: ds ∨ d ≠ 47 ∧ EndsSegment cs ds := by
  constructor
  · rintro ⟨before, heq, hbefore⟩
    cases before with
    | nil => exact Or.inl heq.symm
    -- a rune before the end of the segment, which is no slash
    | cons c before =>
      obtain ⟨rfl, rfl⟩ := List.cons.inj heq
      rw [List.mem_cons, not_or] at hbefore
      exact Or.inr ⟨Ne.symm hbefore.1, before, rfl, hbefore.2⟩
  · rintro (rfl | ⟨hd, before, rfl, hbefore⟩)
    · exact ⟨[], rfl, List.not_mem_nil⟩
    · refine ⟨d :: before, rfl, ?_⟩
      rw [List.mem_cons, not_or]
      exact ⟨Ne.symm hd, hbefore⟩

section Alone

variable {suffix name : Text} {choose : Text → State → List Text → Option Bool}

/-- Behind a star at the front of the pattern, with the name read up to `k`. -/
def alone (k : Nat) : State := ⟨⟨1, k⟩, false, some ⟨1, k⟩, none⟩

/-- **The search within one segment.** From the star on, the machine finds the suffix at some character
of the name, if it ends the name and no slash comes before it. -/
theorem settles_alone (hlit : IsLiteral suffix) (hne : suffix ≠ []) {text : Text} {k : Nat}
    (htext : name.drop k = text) :
    Settles (Text.byte '*' :: suffix) name choose (alone k) ((text.length + 1) * (suffix.length + 1))
      (decide (EndsSegment (codes suffix) (codes text))) := by
  induction text using Text.firstRune_induction generalizing k with
  | nil =>
    have hnot : ¬ EndsSegment (codes suffix) (codes []) := fun h =>
      absurd (endsSegment_iff.mp h).1 (of_decide_eq_false (not_suffix_nil hne))
    rw [decide_eq_false hnot]
    exact (settles_end htext (emptyMatch_of_isLiteral hlit hne _)).mono (by simp)
  | cons text hinside ih =>
    have hmoves := attempts_le hinside (suffix.length + 1)
    have hsplit : EndsSegment (codes suffix) (codes text) ↔ codes suffix = codes text ∨
        (firstRune text).code ≠ 47 ∧
          EndsSegment (codes suffix) (codes (text.drop (firstRune text).width)) := by
      rw [Text.codes_of_ne_nil hinside, endsSegment_cons]
    have hlong : (codes text).length < (codes suffix).length → ¬ ((firstRune text).code ≠ 47 ∧
        EndsSegment (codes suffix) (codes (text.drop (firstRune text).width))) := by
      rintro hlt ⟨-, hends⟩
      have hle := (endsSegment_iff.mp hends).1.length_le
      rw [Text.codes_of_ne_nil hinside, List.length_cons] at hlt
      omega
    rw [← getD_compareCodes hsplit hlong]
    have hmiss : ∀ stuck (t : State), t.star = (alone k).star → t.deep = (alone k).deep →
        Yields (Text.byte '*' :: suffix) name choose (resume (Text.byte '*' :: suffix) name stuck t)
          (((text.drop (firstRune text).width).length + 1) * (suffix.length + 1))
          (decide ((firstRune text).code ≠ 47 ∧
            EndsSegment (codes suffix) (codes (text.drop (firstRune text).width)))) := by
      intro stuck t hstar hdeep
      unfold resume
      rw [hstar]
      simp only [alone, htext]
      by_cases hcode : (firstRune text).code = 47
      · -- the star may not take a slash, and there are no directories to enter
        rw [if_pos hcode, decide_eq_false fun h => h.1 hcode]
        exact yields_resumeDeep hdeep stuck
      · -- the star takes the character
        rw [if_neg hcode, hdeep, decide_eq_decide.mpr (and_iff_right hcode)]
        exact ih (Text.drop_firstRune_of_drop htext)
    exact (settles_attempt hlit rfl htext hmiss).mono (by omega)

/-- A star before a literal suffix matches the names that end in the suffix and have no slash before
it. -/
theorem matches?_star (hdot : suffix.head? = some (Text.byte '.')) (hlit : IsLiteral suffix)
    (name : Text) :
    matches? (Text.ofString "*" ++ suffix) name = some true ↔
      EndsSegment (codes suffix) (codes name) := by
  have hmem : Text.byte '.' ∈ suffix := List.mem_of_mem_head? hdot
  have hne : suffix ≠ [] := List.ne_nil_of_mem hmem
  change run name _ (Text.byte '*' :: suffix) _ = some true ↔ _
  rw [run]
  generalize (fun pattern s rests => _) = choose
  have hstart : Settles (Text.byte '*' :: suffix) name choose ⟨⟨0, 0⟩, true, none, none⟩
      ((name.length + 1) * (suffix.length + 1) + 1)
      (decide (EndsSegment (codes suffix) (codes name))) := by
    by_cases hname : name = []
    · subst hname
      have hnot : ¬ EndsSegment (codes suffix) (codes []) := fun h =>
        absurd (endsSegment_iff.mp h).1 (of_decide_eq_false (not_suffix_nil hne))
      rw [decide_eq_false hnot]
      refine (settles_end rfl (emptyMatch_of_dot rfl ?_ _)).mono (by omega)
      exact List.mem_cons_of_mem _ hmem
    · -- what follows the star is the dot, not another star
      obtain ⟨rest, rfl⟩ := List.head?_eq_some_iff.mp hdot
      exact (settles_alone hlit hne (k := 0) rfl).of_step hname rfl
  have hlength : (Text.byte '*' :: suffix).length + 2 = suffix.length + 1 + 2 := rfl
  have hmoves := le_moves (Text.byte '*' :: suffix) name
  rw [hlength, Nat.mul_add] at hmoves
  rw [← beq_iff_eq, hstart _ (by omega), decide_eq_true_iff]

/-- A literal text matches the names with its code points. -/
theorem matches?_literal (hlit : IsLiteral suffix) (name : Text) :
    matches? suffix name = some true ↔ codes name = codes suffix := by
  change run name _ suffix _ = some true ↔ _
  rw [run]
  generalize (fun pattern s rests => _) = choose
  -- without a star there is one attempt, at the front of the name
  have hmiss : ∀ stuck (t : State), t.star = none → t.deep = none →
      Yields suffix name choose (resume suffix name stuck t) 0 (decide False) := by
    intro stuck t hstar hdeep
    unfold resume
    rw [hstar]
    exact yields_resumeDeep hdeep stuck
  have hstart : Settles suffix name choose ⟨⟨0, 0⟩, true, none, none⟩ (suffix.length + 0 + 1)
      ((compareCodes (codes suffix) (codes name)).getD (decide False)) :=
    settles_attempt (s := ⟨⟨0, 0⟩, true, none, none⟩) hlit rfl rfl hmiss
  rw [getD_compareCodes (p := codes suffix = codes name) (by simp) fun _ => id] at hstart
  have hlength : suffix.length + 2 ≤ (name.length + 1) * (suffix.length + 2) :=
    Nat.le_mul_of_pos_left _ (by omega)
  have hmoves := le_moves suffix name
  rw [← beq_iff_eq, hstart _ (by omega), decide_eq_true_iff]
  exact eq_comm

end Alone

/-! ### The parts of a pattern -/

/-- **This matcher reads the pattern of a literal suffix as it is asked to.** -/
theorem readsSuffix {suffix : Text} (hdot : suffix.head? = some (Text.byte '.'))
    (hlit : IsLiteral suffix) : patterns.ReadsSuffix suffix := by
  have hplain : ∀ name, patterns.Matches suffix name ↔ codes name = codes suffix :=
    matches?_literal hlit
  have hstar : ∀ name, patterns.Matches (Text.ofString "*" ++ suffix) name ↔
      ∃ part tail, name = part ++ tail ∧ Path.slash ∉ part ∧ patterns.Matches suffix tail := by
    intro name
    rw [show patterns.Matches (Text.ofString "*" ++ suffix) name ↔ _ from matches?_star hdot hlit name]
    constructor
    · rintro ⟨before, heq, hbefore⟩
      obtain ⟨part, tail, rfl, htail, hascii⟩ := Text.exists_append_of_codes_eq heq
      exact ⟨part, tail, rfl, hascii Path.slash (by decide) hbefore, (hplain tail).mpr htail⟩
    · rintro ⟨part, tail, rfl, hpart, htail⟩
      refine ⟨codes part, Patterns.codes_append_of_codes_eq hdot part ((hplain tail).mp htail), ?_⟩
      exact fun hmem => hpart (Text.mem_of_mem_codes (c := Path.slash) (by decide) hmem)
  refine ⟨fun name => ?_, hstar, fun _ => hplain⟩
  rw [show patterns.Matches (Text.ofString "**/*" ++ suffix) name ↔ _ from
    matches?_suffix hdot hlit name, ← Patterns.exists_tail_iff hdot]
  constructor
  · -- the directories end at the last slash in front of the suffix
    rintro ⟨head, tail, rfl, htail⟩
    obtain ⟨dirs, part, rfl, hdirs, hpart⟩ := Patterns.exists_cut_slash head
    exact ⟨dirs, part ++ tail, List.append_assoc _ _ _, hdirs,
      (hstar _).mpr ⟨part, tail, rfl, hpart, (hplain tail).mpr htail⟩⟩
  · rintro ⟨dirs, last, rfl, -, hlast⟩
    obtain ⟨part, tail, rfl, -, htail⟩ := (hstar last).mp hlast
    exact ⟨dirs ++ part, tail, (List.append_assoc _ _ _).symm, (hplain tail).mp htail⟩

/-- A `**` that fills the pattern matches at the first move, or the empty name without one. -/
theorem starsMatchAll : patterns.StarsMatchAll := by
  intro name
  change matches? (Text.ofString "**") name = some true
  cases name with
  | nil => rfl
  | cons b rest =>
    have hmoves : ∃ n, moves (Text.ofString "**") (b :: rest) = n + 1 :=
      Nat.exists_eq_succ_of_ne_zero (by simp [moves, Text.ofString])
    obtain ⟨n, hn⟩ := hmoves
    unfold matches? run
    rw [hn]
    rfl

end ViewLint.Glob
