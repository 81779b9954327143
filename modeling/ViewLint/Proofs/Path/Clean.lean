import ViewLint.Path
import ViewLint.Proofs.Text.Lines

/-!
# Cleaned paths

Cleaning runs the pieces between the slashes through a stack (`Path.push`). The stack has one shape
all along (`Settled`): proper segments on top of steps up, and no step up at all under a root. A list
of that shape is left as it is when its print is cleaned again (`segments_ofSegments`), so that
cleaning a path twice is cleaning it once (`clean_clean`), and what is seen from a rooted directory is
rooted and clean (`isRooted_absolute`).

Cleaning a rooted path never makes it longer (`length_clean_le`): every segment that is kept pays for
itself and its slash.
-/

namespace ViewLint

namespace Text

theorem not_mem_of_mem_split {sep : UInt8} {text piece : Text} (h : piece ∈ split sep text) :
    sep ∉ piece := by
  -- induction on the text, along `split`
  induction text generalizing piece with
  | nil =>
    rw [List.mem_singleton.mp h]
    exact List.not_mem_nil
  | cons b rest ih =>
    rw [split] at h
    by_cases hb : b = sep
    · rw [if_pos hb] at h
      rcases List.mem_cons.mp h with rfl | hmem
      · exact List.not_mem_nil
      · exact ih hmem
    -- any other byte goes to the front of the first piece of the rest
    · rw [if_neg hb] at h
      cases hs : split sep rest with
      | nil =>
        rw [hs] at h
        rw [List.mem_singleton.mp h, List.mem_singleton]
        exact Ne.symm hb
      | cons first pieces =>
        rw [hs] at h ih
        rcases List.mem_cons.mp h with rfl | hmem
        · rw [List.mem_cons, not_or]
          exact ⟨Ne.symm hb, ih List.mem_cons_self⟩
        · exact ih (List.mem_cons_of_mem _ hmem)

theorem split_sep_cons (sep : UInt8) (rest : Text) : split sep (sep :: rest) = [] :: split sep rest :=
  if_pos rfl

theorem join_eq_intercalate (sep : Text) (pieces : List Text) :
    join sep pieces = List.intercalate sep pieces := by
  induction pieces with
  | nil => rfl
  | cons piece pieces ih =>
    cases pieces with
    | nil => exact (List.append_nil piece).symm
    | cons next pieces =>
      change piece ++ sep ++ join sep (next :: pieces) = _
      rw [ih, List.intercalate_cons_cons, List.append_assoc]

theorem split_join {sep : UInt8} {pieces : List Text} (hne : pieces ≠ [])
    (h : ∀ piece ∈ pieces, sep ∉ piece) : split sep (join [sep] pieces) = pieces := by
  rw [split_eq_splitOn, join_eq_intercalate, List.splitOn_intercalate sep h hne]

end Text

namespace Path

/-! ### The stack -/

/-- A segment that cleaning keeps. -/
structure IsProper (segment : Text) : Prop where
  ne_nil : segment ≠ []
  ne_here : segment ≠ here
  ne_up : segment ≠ up
  no_slash : slash ∉ segment

/-- The shape of a stack: proper segments on top of steps up, which only a path without a root has. -/
def Settled (rooted : Bool) (stack : List Text) : Prop :=
  ∃ names n, stack = names ++ List.replicate n up ∧ (rooted = true → n = 0) ∧
    ∀ s ∈ names, IsProper s

theorem settled_nil (rooted : Bool) : Settled rooted [] :=
  ⟨[], 0, rfl, fun _ => rfl, fun _ h => absurd h List.not_mem_nil⟩

theorem push_of_skipped {segment : Text} (h : segment = [] ∨ segment = here) (rooted : Bool)
    (stack : List Text) : push rooted stack segment = stack := by
  unfold push
  rw [if_pos (by simpa using h)]

theorem push_of_isProper {segment : Text} (h : IsProper segment) (rooted : Bool)
    (stack : List Text) : push rooted stack segment = segment :: stack := by
  unfold push
  rw [if_neg (by simpa using ⟨h.ne_nil, h.ne_here⟩), if_neg h.ne_up]

theorem push_up_cons {top : Text} (h : top ≠ up) (rooted : Bool) (below : List Text) :
    push rooted (top :: below) up = below := by
  unfold push
  rw [if_neg (by decide), if_pos rfl]
  exact if_neg h

theorem push_up_up (rooted : Bool) (below : List Text) :
    push rooted (up :: below) up = up :: up :: below := by
  unfold push
  rw [if_neg (by decide), if_pos rfl]
  exact if_pos rfl

theorem push_up_nil (rooted : Bool) : push rooted [] up = if rooted then [] else [up] := by
  unfold push
  rw [if_neg (by decide), if_pos rfl]

/-- **A step keeps the shape.** -/
theorem Settled.push {rooted : Bool} {stack : List Text} (h : Settled rooted stack) {segment : Text}
    (hslash : slash ∉ segment) : Settled rooted (Path.push rooted stack segment) := by
  by_cases hskip : segment = [] ∨ segment = here
  · rwa [push_of_skipped hskip]
  rw [not_or] at hskip
  obtain ⟨names, n, rfl, hroot, hproper⟩ := h
  by_cases hup : segment = up
  · subst hup
    cases names with
    | cons top names =>
      rw [List.cons_append, push_up_cons (hproper top List.mem_cons_self).ne_up]
      exact ⟨names, n, rfl, hroot, fun s hs => hproper s (List.mem_cons_of_mem _ hs)⟩
    | nil =>
      cases n with
      | zero =>
        -- at the top of a rooted path a step up does nothing
        rw [List.replicate_zero, List.nil_append, push_up_nil]
        cases rooted with
        | true => exact settled_nil true
        | false => exact ⟨[], 1, rfl, fun h => absurd h (by decide), hproper⟩
      | succ n =>
        rw [List.nil_append, List.replicate_succ, push_up_up]
        exact ⟨[], n + 2, rfl, fun h => absurd (hroot h) (Nat.succ_ne_zero n), hproper⟩
  · have hsegment : IsProper segment := ⟨hskip.1, hskip.2, hup, hslash⟩
    rw [push_of_isProper hsegment]
    refine ⟨segment :: names, n, rfl, hroot, fun s hs => ?_⟩
    rcases List.mem_cons.mp hs with rfl | hs
    · exact hsegment
    · exact hproper s hs

theorem Settled.foldl {rooted : Bool} {stack : List Text} (h : Settled rooted stack)
    {pieces : List Text} (hslash : ∀ piece ∈ pieces, slash ∉ piece) :
    Settled rooted (pieces.foldl (Path.push rooted) stack) := by
  induction pieces generalizing stack with
  | nil => exact h
  | cons piece pieces ih =>
    refine ih (h.push (hslash piece List.mem_cons_self)) fun p hp => ?_
    exact hslash p (List.mem_cons_of_mem _ hp)

theorem settled_segments (path : Text) : Settled (isAbsolute path) (segments path).reverse := by
  unfold segments
  rw [List.reverse_reverse]
  exact (settled_nil _).foldl fun _ h => Text.not_mem_of_mem_split h

/-- **A settled stack is what its own segments make.** -/
theorem Settled.foldl_reverse {rooted : Bool} {stack : List Text} (h : Settled rooted stack) :
    stack.reverse.foldl (Path.push rooted) [] = stack := by
  obtain ⟨names, n, rfl, hroot, hproper⟩ := h
  -- the `..` at the bottom stay, as there is nothing below them to take off
  have hups : (List.replicate n up).foldl (Path.push rooted) [] = List.replicate n up := by
    cases n with
    | zero => rfl
    | succ n =>
      obtain rfl : rooted = false := by
        cases rooted with
        | true => exact absurd (hroot rfl) (Nat.succ_ne_zero n)
        | false => rfl
      clear hroot
      induction n with
      | zero => rfl
      | succ n ih =>
        rw [List.replicate_succ', List.foldl_append, ih, List.foldl_cons, List.foldl_nil,
          List.replicate_succ, push_up_up]
        rw [← List.replicate_succ, ← List.replicate_succ, ← List.replicate_succ']
  rw [List.reverse_append, List.reverse_replicate, List.foldl_append, hups]
  -- the names go on top one after the other
  induction names with
  | nil => rfl
  | cons s names ih =>
    rw [List.reverse_cons, List.foldl_append, ih fun t ht => hproper t (List.mem_cons_of_mem _ ht),
      List.foldl_cons, List.foldl_nil, push_of_isProper (hproper s List.mem_cons_self)]
    rfl

/-! ### Cleaning twice -/

theorem Settled.no_slash {rooted : Bool} {stack : List Text} (h : Settled rooted stack) :
    ∀ s ∈ stack, slash ∉ s := by
  obtain ⟨names, n, rfl, -, hproper⟩ := h
  intro s hs
  rcases List.mem_append.mp hs with hs | hs
  · exact (hproper s hs).no_slash
  · rw [List.eq_of_mem_replicate hs]
    decide

theorem Settled.ne_nil {rooted : Bool} {stack : List Text} (h : Settled rooted stack) :
    ∀ s ∈ stack, s ≠ [] := by
  obtain ⟨names, n, rfl, -, hproper⟩ := h
  intro s hs
  rcases List.mem_append.mp hs with hs | hs
  · exact (hproper s hs).ne_nil
  · rw [List.eq_of_mem_replicate hs]
    decide

theorem foldl_push_skipped {rooted : Bool} {first : Text} (h : first = [] ∨ first = here)
    (pieces stack : List Text) :
    (first :: pieces).foldl (push rooted) stack = pieces.foldl (push rooted) stack := by
  rw [List.foldl_cons, push_of_skipped h]

/-- The pieces of a printed list of segments are the segments, or one that is skipped. -/
theorem foldl_split_join {rooted : Bool} {segs : List Text} (h : Settled rooted segs.reverse) :
    (Text.split slash (Text.join [slash] segs)).foldl (push rooted) [] = segs.reverse := by
  cases segs with
  | nil => exact foldl_push_skipped (Or.inl rfl) [] []
  | cons s segs =>
    rw [Text.split_join (List.cons_ne_nil s segs) fun p hp => h.no_slash p (List.mem_reverse.mpr hp)]
    have hfold := h.foldl_reverse
    rwa [List.reverse_reverse] at hfold

theorem isAbsolute_ofSegments {rooted : Bool} {segs : List Text} (h : Settled rooted segs.reverse) :
    isAbsolute (ofSegments rooted segs) = rooted := by
  cases rooted with
  | true => rfl
  | false =>
    cases segs with
    | nil => decide
    | cons s segs =>
      -- the first segment is not empty and does not start with a slash
      have hmem : s ∈ (s :: segs).reverse := List.mem_reverse.mpr List.mem_cons_self
      obtain ⟨b, rest, rfl⟩ := List.exists_cons_of_ne_nil (h.ne_nil s hmem)
      have hb : b ≠ slash := fun heq => h.no_slash _ hmem (heq ▸ List.mem_cons_self)
      have hhead : (ofSegments false ((b :: rest) :: segs)).head? = some b := by
        cases segs <;> rfl
      unfold isAbsolute
      rw [hhead]
      simpa using hb

theorem segments_ofSegments {rooted : Bool} {segs : List Text} (h : Settled rooted segs.reverse) :
    segments (ofSegments rooted segs) = segs := by
  unfold segments
  rw [isAbsolute_ofSegments h, ← List.reverse_inj, List.reverse_reverse]
  cases rooted with
  | true =>
    change (Text.split slash (slash :: Text.join [slash] segs)).foldl _ _ = _
    rw [Text.split_sep_cons, foldl_push_skipped (Or.inl rfl), foldl_split_join h]
  | false =>
    cases segs with
    | nil => decide
    | cons s segs => exact foldl_split_join h

/-- **Cleaning a path twice is cleaning it once.** -/
theorem clean_clean (path : Text) : clean (clean path) = clean path := by
  have hsettled := settled_segments path
  unfold clean
  rw [isAbsolute_ofSegments hsettled, segments_ofSegments hsettled]

/-! ### Rooted paths -/

/-- The path starts at the root and is clean. -/
structure IsRooted (path : Text) : Prop where
  isAbsolute : Path.isAbsolute path = true
  clean_eq : clean path = path

theorem isAbsolute_cons (rest : Text) : isAbsolute (slash :: rest) = true := beq_self_eq_true _

theorem exists_cons_of_isAbsolute {path : Text} (h : isAbsolute path = true) :
    ∃ rest, path = slash :: rest := by
  obtain ⟨rest, hrest⟩ := List.head?_eq_some_iff.mp (beq_iff_eq.mp h)
  exact ⟨rest, hrest⟩

theorem isRooted_clean {path : Text} (h : isAbsolute path = true) : IsRooted (clean path) := by
  refine ⟨?_, clean_clean path⟩
  unfold clean
  rw [isAbsolute_ofSegments (settled_segments path), h]

/-- **What is seen from a rooted directory is rooted and clean.** -/
theorem isRooted_absolute {cwd : Text} (h : isAbsolute cwd = true) (path : Text) :
    IsRooted (absolute cwd path) := by
  unfold absolute
  split
  · next hpath => exact isRooted_clean hpath
  · obtain ⟨rest, rfl⟩ := exists_cons_of_isAbsolute h
    unfold join
    rw [List.filter_cons_of_pos (by rfl)]
    cases path with
    | nil => exact isRooted_clean h
    | cons b path => exact isRooted_clean (isAbsolute_cons _)

/-- A second slash at the root does not count. -/
theorem clean_slash_slash (rest : Text) :
    clean (slash :: slash :: rest) = clean (slash :: rest) := by
  have hsegments : segments (slash :: slash :: rest) = segments (slash :: rest) := by
    unfold segments
    rw [isAbsolute_cons, isAbsolute_cons, Text.split_sep_cons, foldl_push_skipped (Or.inl rfl)]
  unfold clean
  rw [hsegments, isAbsolute_cons, isAbsolute_cons]

/-! ### The length of a cleaned path -/

/-- The bytes of some segments, each with a slash. -/
def weight (segs : List Text) : Nat := segs.foldr (fun s n => s.length + 1 + n) 0

theorem weight_append (as bs : List Text) : weight (as ++ bs) = weight as + weight bs := by
  induction as with
  | nil => exact (Nat.zero_add _).symm
  | cons s as ih =>
    change s.length + 1 + weight (as ++ bs) = s.length + 1 + weight as + weight bs
    omega

theorem weight_reverse (segs : List Text) : weight segs.reverse = weight segs := by
  induction segs with
  | nil => rfl
  | cons s segs ih =>
    rw [List.reverse_cons, weight_append, ih]
    change weight segs + (s.length + 1 + 0) = s.length + 1 + weight segs
    omega

theorem weight_push_le (rooted : Bool) (stack : List Text) (segment : Text) :
    weight (push rooted stack segment) ≤ weight stack + (segment.length + 1) := by
  -- one case per way `push` treats a segment
  by_cases hskip : segment = [] ∨ segment = here
  · rw [push_of_skipped hskip]
    omega
  by_cases hup : segment = up
  · subst hup
    cases stack with
    | nil =>
      rw [push_up_nil]
      cases rooted <;> decide
    | cons top below =>
      by_cases htop : top = up
      · rw [htop, push_up_up]
        change up.length + 1 + weight (up :: below) ≤ weight (up :: below) + (up.length + 1)
        omega
      · rw [push_up_cons htop]
        change weight below ≤ top.length + 1 + weight below + _
        omega
  · unfold push
    rw [if_neg (by simpa using hskip), if_neg hup]
    change segment.length + 1 + weight stack ≤ _
    omega

theorem weight_foldl_le (rooted : Bool) (pieces stack : List Text) :
    weight (pieces.foldl (push rooted) stack) ≤ weight stack + weight pieces := by
  induction pieces generalizing stack with
  | nil => exact Nat.le_refl _
  | cons piece pieces ih =>
    have hpush := weight_push_le rooted stack piece
    have hrest := ih (push rooted stack piece)
    change weight (pieces.foldl (push rooted) (push rooted stack piece)) ≤
      weight stack + (piece.length + 1 + weight pieces)
    omega

theorem length_join {segs : List Text} (hne : segs ≠ []) :
    (Text.join [slash] segs).length + 1 = weight segs := by
  induction segs with
  | nil => exact absurd rfl hne
  | cons s segs ih =>
    cases segs with
    | nil => rfl
    | cons t segs =>
      have hrest := ih (List.cons_ne_nil t segs)
      change (s ++ [slash] ++ Text.join [slash] (t :: segs)).length + 1 =
        s.length + 1 + weight (t :: segs)
      rw [List.length_append, List.length_append, List.length_singleton]
      omega

/-- **Cleaning makes no rooted path longer.** -/
theorem length_clean_le {path : Text} (h : isAbsolute path = true) :
    (clean path).length ≤ path.length := by
  obtain ⟨rest, rfl⟩ := exists_cons_of_isAbsolute h
  -- the first slash pays for the first segment
  have hweight : weight (segments (slash :: rest)) ≤ (slash :: rest).length := by
    unfold segments
    rw [weight_reverse, Text.split_sep_cons, foldl_push_skipped (Or.inl rfl)]
    have hfold := weight_foldl_le (isAbsolute (slash :: rest)) (Text.split slash rest) []
    have hsplit : weight (Text.split slash rest) = rest.length + 1 :=
      Text.foldr_length_split slash rest
    change _ ≤ 0 + _ at hfold
    rw [List.length_cons]
    omega
  unfold clean
  rw [h]
  change (Text.join [slash] (segments (slash :: rest))).length + 1 ≤ _
  by_cases hne : segments (slash :: rest) = []
  · rw [hne, List.length_cons]
    exact Nat.succ_le_succ (Nat.zero_le _)
  · rw [length_join hne]
    exact hweight

end Path

end ViewLint
