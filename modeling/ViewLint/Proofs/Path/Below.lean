import ViewLint.Proofs.Path.Clean

/-!
# Paths below a directory

A rooted path is the print of its segments, and joining a name to it appends a segment. So the paths
below a directory are the prints of its segments followed by some names (`segments_below`): no two ways
down lead to the same path (`below_inj`), and seen from the directory such a path is its names with
slashes between them (`relative_below`).

What is joined need not be a list of proper names. Joining any text to a rooted directory pushes its
pieces onto the segments of the directory (`segments_join`), and some of them may vanish. If the result
is as long as it can be, none has (`foldl_push_of_weight`), and that tells which texts lead to a given
path (`join_eq_below_iff`).
-/

namespace ViewLint

namespace Text

theorem join_split (sep : UInt8) (text : Text) : join [sep] (split sep text) = text := by
  rw [join_eq_intercalate, split_eq_splitOn, List.intercalate_splitOn]

theorem dropHead_append (head text : Text) : dropHead head (head ++ text) = text := by
  unfold dropHead
  rw [if_pos (List.isPrefixOf_iff_prefix.mpr (List.prefix_append head text)), List.drop_left]

theorem dropTail_append_of_isSuffixOf {tail text : Text} (h : tail.isSuffixOf text = true) :
    dropTail tail text ++ tail = text := by
  obtain ⟨front, rfl⟩ := List.isSuffixOf_iff_suffix.mp h
  unfold dropTail
  rw [if_pos h, List.length_append, Nat.add_sub_cancel, List.take_left]

end Text

namespace Path

/-! ### Rooted paths and their segments -/

theorem isProper_of_mem_segments {path : Text} (h : isAbsolute path = true) :
    ∀ s ∈ segments path, IsProper s := by
  obtain ⟨names, n, heq, hroot, hproper⟩ := settled_segments path
  obtain rfl := hroot h
  rw [List.replicate_zero, List.append_nil] at heq
  intro s hs
  exact hproper s (heq ▸ List.mem_reverse.mpr hs)

theorem IsRooted.ofSegments_segments {path : Text} (h : IsRooted path) :
    ofSegments true (segments path) = path := by
  have hclean := h.clean_eq
  unfold clean at hclean
  rwa [h.isAbsolute] at hclean

/-- A rooted path is known by its segments. -/
theorem IsRooted.eq_of_segments_eq {p q : Text} (hp : IsRooted p) (hq : IsRooted q)
    (h : segments p = segments q) : p = q := by
  rw [← hp.ofSegments_segments, h, hq.ofSegments_segments]

theorem segments_clean (path : Text) : segments (clean path) = segments path :=
  segments_ofSegments (settled_segments path)

/-! ### Joining to a directory -/

theorem isAbsolute_append {base : Text} (h : isAbsolute base = true) (rest : Text) :
    isAbsolute (base ++ rest) = true := by
  obtain ⟨tail, rfl⟩ := exists_cons_of_isAbsolute h
  exact isAbsolute_cons _

/-- The pieces behind a slash are pushed onto the segments before it. -/
theorem segments_append_slash {base : Text} (h : isAbsolute base = true) (rest : Text) :
    segments (base ++ slash :: rest) =
      ((Text.split slash rest).foldl (push true) (segments base).reverse).reverse := by
  unfold segments
  rw [isAbsolute_append h, h, Text.split_append_cons, List.foldl_append, List.reverse_reverse]

theorem join_pair {base rest : Text} (hbase : base ≠ []) (hrest : rest ≠ []) :
    join [base, rest] = clean (base ++ slash :: rest) := by
  unfold join
  rw [List.filter_cons_of_pos (by simpa using hbase), List.filter_cons_of_pos (by simpa using hrest),
    List.filter_nil]
  change clean (base ++ [slash] ++ rest) = _
  rw [List.append_assoc]
  rfl

theorem join_nil_right {base : Text} (hbase : base ≠ []) : join [base, []] = clean base := by
  unfold join
  rw [List.filter_cons_of_pos (by simpa using hbase)]
  rfl

theorem ne_nil_of_isAbsolute {base : Text} (h : isAbsolute base = true) : base ≠ [] := by
  rintro rfl
  exact absurd h (by decide)

theorem isRooted_join {base : Text} (hbase : isAbsolute base = true) (rest : Text) :
    IsRooted (join [base, rest]) := by
  have hne := ne_nil_of_isAbsolute hbase
  cases rest with
  | nil =>
    rw [join_nil_right hne]
    exact isRooted_clean hbase
  | cons b rest =>
    rw [join_pair hne (List.cons_ne_nil b rest)]
    exact isRooted_clean (isAbsolute_append hbase _)

theorem segments_join {base rest : Text} (hbase : IsRooted base) (hrest : rest ≠ []) :
    segments (join [base, rest]) =
      ((Text.split slash rest).foldl (push true) (segments base).reverse).reverse := by
  rw [join_pair (ne_nil_of_isAbsolute hbase.isAbsolute) hrest, segments_clean,
    segments_append_slash hbase.isAbsolute]

theorem foldl_push_of_isProper {names : List Text} (h : ∀ s ∈ names, IsProper s)
    (stack : List Text) : names.foldl (push true) stack = names.reverse ++ stack := by
  induction names generalizing stack with
  | nil => rfl
  | cons s names ih =>
    rw [List.foldl_cons, push_of_isProper (h s List.mem_cons_self),
      ih fun t ht => h t (List.mem_cons_of_mem _ ht), List.reverse_cons, List.append_assoc]
    rfl

theorem join_here {base : Text} (hbase : isAbsolute base = true) : join [base, here] = clean base := by
  refine (isRooted_join hbase here).eq_of_segments_eq (isRooted_clean hbase) ?_
  rw [join_pair (ne_nil_of_isAbsolute hbase) (by decide), segments_clean, segments_clean,
    segments_append_slash hbase]
  have hsplit : Text.split slash here = [here] := by decide
  rw [hsplit, List.foldl_cons, List.foldl_nil, push_of_skipped (Or.inr rfl), List.reverse_reverse]

/-- Cleaning the front first makes no difference. -/
theorem join_clean {front : Text} (hfront : isAbsolute front = true) (way : Text) :
    join [clean front, way] = join [front, way] := by
  have hrooted := isRooted_clean hfront
  cases way with
  | nil =>
    rw [join_nil_right (ne_nil_of_isAbsolute hrooted.isAbsolute),
      join_nil_right (ne_nil_of_isAbsolute hfront), clean_clean]
  | cons b way =>
    have hway : b :: way ≠ [] := List.cons_ne_nil b way
    refine (isRooted_join hrooted.isAbsolute _).eq_of_segments_eq (isRooted_join hfront _) ?_
    rw [segments_join hrooted hway, join_pair (ne_nil_of_isAbsolute hfront) hway, segments_clean,
      segments_clean, segments_append_slash hfront]

/-- Joining a directory to the root and a way to the result is joining all three. -/
theorem join_join {root dir way : Text} (hroot : isAbsolute root = true) (hway : way ≠ []) :
    join [join [root, dir], way] = join [root, dir, way] := by
  have hne := ne_nil_of_isAbsolute hroot
  -- the root is never dropped as empty
  have hkeeps : ∀ rest : List Text,
      (root :: rest).filter (!·.isEmpty) = root :: rest.filter (!·.isEmpty) :=
    fun rest => List.filter_cons_of_pos (by simpa using hne)
  cases dir with
  -- no directory: the two joins are of the same names
  | nil =>
    have hall : join [root, [], way] = join [root, way] := by
      unfold join
      rw [hkeeps, hkeeps, List.filter_cons_of_neg (by decide)]
    rw [join_nil_right hne, hall, join_clean hroot]
  | cons b dir =>
    -- both joins clean the three names with slashes between them
    have hfront := isAbsolute_append hroot (slash :: b :: dir)
    have hall : join [root, b :: dir, way] = clean ((root ++ slash :: b :: dir) ++ slash :: way) := by
      unfold join
      rw [hkeeps, List.filter_cons_of_pos (by rfl), List.filter_cons_of_pos (by simpa using hway),
        List.filter_nil]
      change clean (root ++ [slash] ++ (b :: dir ++ [slash] ++ way)) = _
      congr 1
      simp
    rw [join_pair hne (List.cons_ne_nil b dir), hall, join_clean hfront,
      join_pair (ne_nil_of_isAbsolute hfront) hway]

/-! ### Ways down -/

/-- The path to which some names lead from a directory. -/
def below (base : Text) (names : List Text) : Text :=
  names.foldl (fun path name => join [path, name]) base

theorem below_cons (base name : Text) (names : List Text) :
    below base (name :: names) = below (join [base, name]) names := rfl

/-- A way down starts at the clean form of its directory. -/
theorem below_clean {base : Text} (hbase : isAbsolute base = true) {names : List Text}
    (hne : names ≠ []) : below (clean base) names = below base names := by
  obtain ⟨name, rest, rfl⟩ := List.exists_cons_of_ne_nil hne
  rw [below_cons, below_cons, join_clean hbase]

theorem IsProper.split_eq {name : Text} (h : IsProper name) : Text.split slash name = [name] := by
  have hsplit := Text.split_join (List.cons_ne_nil name []) fun piece hpiece => by
    rw [List.mem_singleton.mp hpiece]
    exact h.no_slash
  exact hsplit

theorem segments_join_of_isProper {base name : Text} (hbase : IsRooted base) (hname : IsProper name) :
    segments (join [base, name]) = segments base ++ [name] := by
  rw [segments_join hbase hname.ne_nil, hname.split_eq, List.foldl_cons, List.foldl_nil,
    push_of_isProper hname, List.reverse_cons, List.reverse_reverse]

theorem isRooted_below {base : Text} (hbase : IsRooted base) {names : List Text}
    (hnames : ∀ s ∈ names, IsProper s) : IsRooted (below base names) := by
  induction names generalizing base with
  | nil => exact hbase
  | cons name names ih =>
    have hname := hnames name List.mem_cons_self
    exact ih (isRooted_join hbase.isAbsolute name) fun s hs =>
      hnames s (List.mem_cons_of_mem _ hs)

theorem segments_below {base : Text} (hbase : IsRooted base) {names : List Text}
    (hnames : ∀ s ∈ names, IsProper s) : segments (below base names) = segments base ++ names := by
  induction names generalizing base with
  | nil => exact (List.append_nil _).symm
  | cons name names ih =>
    have hname := hnames name List.mem_cons_self
    rw [below_cons, ih (isRooted_join hbase.isAbsolute name) fun s hs =>
      hnames s (List.mem_cons_of_mem _ hs), segments_join_of_isProper hbase hname, List.append_assoc]
    rfl

theorem below_inj {base : Text} (hbase : IsRooted base) {ns ms : List Text}
    (hns : ∀ s ∈ ns, IsProper s) (hms : ∀ s ∈ ms, IsProper s) (h : below base ns = below base ms) :
    ns = ms := by
  have hsegments := congrArg segments h
  rw [segments_below hbase hns, segments_below hbase hms] at hsegments
  exact List.append_cancel_left hsegments

/-- A rooted path is known by its way from a directory. -/
theorem IsRooted.eq_below {base path : Text} (hpath : IsRooted path) (hbase : IsRooted base)
    {names : List Text} (hsegments : segments path = segments base ++ names) :
    path = below base names := by
  have hnames : ∀ s ∈ names, IsProper s := fun s hs =>
    isProper_of_mem_segments hpath.isAbsolute s (hsegments ▸ List.mem_append_right _ hs)
  refine hpath.eq_of_segments_eq (isRooted_below hbase hnames) ?_
  rw [hsegments, segments_below hbase hnames]

theorem name_below {base : Text} (hbase : IsRooted base) {names : List Text}
    (hnames : ∀ s ∈ names, IsProper s) (hne : names ≠ []) :
    some (name (below base names)) = names.getLast? := by
  have hbelow := isRooted_below hbase hnames
  have hsegments := segments_below hbase hnames
  have hall : segments (below base names) ≠ [] := by
    rw [hsegments]
    exact List.append_ne_nil_of_right_ne_nil _ hne
  -- before the leading slash there is an empty piece
  have hsplit : Text.split slash (below base names) = [] :: segments (below base names) := by
    conv_lhs => rw [← hbelow.ofSegments_segments]
    change Text.split slash (slash :: Text.join [slash] _) = _
    rw [Text.split_sep_cons, Text.split_join hall fun s hs =>
      (isProper_of_mem_segments hbelow.isAbsolute s hs).no_slash]
  unfold name
  rw [hsplit, hsegments, ← List.cons_append, List.getLast?_append, List.getLast?_eq_some_getLast hne,
    Option.some_or, Option.getD_some]

theorem dropShared_append (as bs : List Text) : dropShared as (as ++ bs) = ([], bs) := by
  induction as with
  | nil => cases bs <;> rfl
  | cons a as ih =>
    rw [List.cons_append, dropShared, if_pos rfl, ih]

/-- **Seen from the directory, a path below it is its names.** -/
theorem relative_below {base : Text} (hbase : IsRooted base) {names : List Text}
    (hnames : ∀ s ∈ names, IsProper s) (hne : names ≠ []) :
    relative base (below base names) = some (Text.join [slash] names) := by
  have hbelow := isRooted_below hbase hnames
  have hdiffer : clean base ≠ clean (below base names) := by
    rw [hbase.clean_eq, hbelow.clean_eq]
    intro heq
    exact hne (below_inj hbase hnames (fun _ h => absurd h List.not_mem_nil) heq.symm)
  have htarget : targetSegments (below base names) = segments base ++ names := by
    unfold targetSegments
    rw [hbelow.isAbsolute, segments_below hbase hnames]
    rfl
  unfold relative
  -- all segments of the directory are shared, so there is no way out of it
  rw [if_neg hdiffer, hbase.isAbsolute, hbelow.isAbsolute, htarget, dropShared_append]
  rfl

/-! ### Which texts lead to a path -/

theorem weight_split (text : Text) : weight (Text.split slash text) = text.length + 1 :=
  Text.foldr_length_split slash text

/-- A push that adds all the weight of a segment adds the segment. -/
theorem push_of_weight {rooted : Bool} {stack : List Text} {segment : Text}
    (h : weight (push rooted stack segment) = weight stack + (segment.length + 1)) :
    push rooted stack segment = segment :: stack := by
  -- only a name put on the stack adds its whole weight: a skipped one adds none, and `..` takes
  -- one off
  by_cases hskip : segment = [] ∨ segment = here
  · rw [push_of_skipped hskip] at h
    omega
  by_cases hup : segment = up
  · subst hup
    cases stack with
    | nil =>
      rw [push_up_nil] at h ⊢
      cases rooted with
      | true => exact absurd h (by decide)
      | false => rfl
    | cons top below =>
      by_cases htop : top = up
      · rw [htop, push_up_up]
      · rw [push_up_cons htop] at h
        change weight below = top.length + 1 + weight below + _ at h
        omega
  · unfold push
    rw [if_neg (by simpa using hskip), if_neg hup]

/-- **If no weight is lost, no piece is.** -/
theorem foldl_push_of_weight {rooted : Bool} {pieces stack : List Text}
    (h : weight (pieces.foldl (push rooted) stack) = weight stack + weight pieces) :
    pieces.foldl (push rooted) stack = pieces.reverse ++ stack := by
  induction pieces generalizing stack with
  | nil => rfl
  | cons piece pieces ih =>
    have hstep := weight_push_le rooted stack piece
    have hrest := weight_foldl_le rooted pieces (push rooted stack piece)
    change weight (pieces.foldl (push rooted) (push rooted stack piece)) =
      weight stack + (piece.length + 1 + weight pieces) at h
    have hpush : push rooted stack piece = piece :: stack := push_of_weight (by omega)
    rw [List.foldl_cons, ih (by omega), hpush, List.reverse_cons, List.append_assoc]
    rfl

theorem join_ne_nil {names : List Text} (hnames : ∀ s ∈ names, IsProper s) (hne : names ≠ []) :
    Text.join [slash] names ≠ [] := by
  obtain ⟨name, rest, rfl⟩ := List.exists_cons_of_ne_nil hne
  have hpos := List.length_pos_iff.mpr (hnames name List.mem_cons_self).ne_nil
  have hlength : (Text.join [slash] (name :: rest)).length + 1 = name.length + 1 + weight rest :=
    length_join hne
  apply List.ne_nil_of_length_pos
  omega

/-- **A text of the right length leads to a path only if it spells the way.** -/
theorem join_eq_below_iff {base : Text} (hbase : IsRooted base) {names : List Text}
    (hnames : ∀ s ∈ names, IsProper s) (hne : names ≠ []) {text : Text}
    (hlength : text.length = (Text.join [slash] names).length) :
    join [base, text] = below base names ↔ text = Text.join [slash] names := by
  have hslash : ∀ s ∈ names, slash ∉ s := fun s hs => (hnames s hs).no_slash
  have hweight : (Text.join [slash] names).length + 1 = weight names := length_join hne
  have htext : text ≠ [] := by
    rintro rfl
    exact join_ne_nil hnames hne (List.eq_nil_of_length_eq_zero hlength.symm)
  constructor
  · intro heq
    have hsegments := congrArg segments heq
    rw [segments_join hbase htext, segments_below hbase hnames, ← List.reverse_inj,
      List.reverse_reverse, List.reverse_append] at hsegments
    -- what is reached weighs as much as the directory and all pieces together
    have hall : weight ((Text.split slash text).foldl (push true) (segments base).reverse) =
        weight (segments base).reverse + weight (Text.split slash text) := by
      rw [hsegments, weight_append, weight_reverse names, weight_split, hlength, hweight]
      omega
    rw [foldl_push_of_weight hall, List.append_cancel_right_eq, List.reverse_inj] at hsegments
    rw [← hsegments, Text.join_split]
  · rintro rfl
    refine (isRooted_join hbase.isAbsolute _).eq_of_segments_eq (isRooted_below hbase hnames) ?_
    rw [segments_join hbase htext, segments_below hbase hnames, Text.split_join hne hslash,
      foldl_push_of_isProper hnames, List.reverse_append, List.reverse_reverse, List.reverse_reverse]

end Path

end ViewLint
