import ViewLint.Hover
import ViewLint.Proofs.Component.Listed

/-!
# A tag cannot leave the components directory

The tag of a component is read off a template, so it can be any text at all: it may hold slashes, runs
of dots, or nothing but separators. `tag_stays_below` says that its file is strictly below the
components directory all the same, and that a look-up, a hover and a jump to a definition depend on no
other part of the file system.

The reason is that a tag has no way to say `..`: its dots become slashes before the path is cleaned, so
that a piece between two slashes is empty or a name. Cleaning drops the empty ones and keeps the others
(`Path.join_eq_below`), and it is left with at least one, because the last piece has the suffix in it
(`Resolver.exists_names`).
-/

namespace ViewLint

open Text (byte)

namespace Text

/-- A piece has no bytes but those of the text. -/
theorem subset_of_mem_split {sep : UInt8} {text piece : Text} (h : piece ∈ split sep text) :
    piece ⊆ text := by
  -- induction on the text, along `split`
  induction text generalizing piece with
  | nil =>
    rw [List.mem_singleton.mp h]
    exact List.nil_subset _
  | cons b rest ih =>
    rw [split] at h
    by_cases hb : b = sep
    · -- a separator: an empty piece before those of the rest
      rw [if_pos hb] at h
      rcases List.mem_cons.mp h with rfl | h
      · exact List.nil_subset _
      · exact List.subset_cons_of_subset b (ih h)
    · -- any other byte goes to the front of the first piece of the rest
      rw [if_neg hb] at h
      cases hs : split sep rest with
      | nil =>
        rw [hs] at h
        rw [List.mem_singleton.mp h]
        exact List.cons_subset_cons b (List.nil_subset rest)
      | cons first pieces =>
        rw [hs] at h ih
        rcases List.mem_cons.mp h with rfl | h
        · exact List.cons_subset_cons b (ih List.mem_cons_self)
        · exact List.subset_cons_of_subset b (ih (List.mem_cons_of_mem _ h))

/-- A text without a separator that is added behind another one goes on with its last piece. -/
theorem exists_split_append {sep : UInt8} {tail : Text} (h : sep ∉ tail) (text : Text) :
    ∃ front last, split sep text = front ++ [last] ∧
      split sep (text ++ tail) = front ++ [last ++ tail] := by
  induction text with
  | nil =>
    have htail : split sep tail = [tail] := split_join (List.cons_ne_nil tail []) fun piece hp => by
      rwa [List.mem_singleton.mp hp]
    exact ⟨[], [], rfl, htail⟩
  | cons b rest ih =>
    -- the last piece is the one that grows; the byte at the front only changes the first
    obtain ⟨front, last, hsplit, happend⟩ := ih
    rw [List.cons_append, split, split, hsplit, happend]
    by_cases hb : b = sep
    · rw [if_pos hb, if_pos hb]
      exact ⟨[] :: front, last, rfl, rfl⟩
    · rw [if_neg hb, if_neg hb]
      -- the first piece may be the last as well
      cases front with
      | nil => exact ⟨[], b :: last, rfl, rfl⟩
      | cons first front => exact ⟨(b :: first) :: front, last, rfl, rfl⟩

/-- What starts with a byte that the front does not have has no such front, unless it is empty. -/
theorem append_ne_of_not_mem_head {front rest text : Text} {b : UInt8} (hfront : b ∉ front)
    (hhead : text.head? = some b) (halone : front = [] → rest ≠ text) : front ++ rest ≠ text := by
  cases front with
  | nil => exact halone rfl
  | cons c front =>
    rintro rfl
    obtain rfl := Option.some.inj hhead
    exact hfront List.mem_cons_self

end Text

namespace Path

/-! ### Ways that only lead down -/

/-- **A way that only leads down**: a relative path that is not empty, and has no segment that is
empty, `.` or `..`. -/
structure LeadsDown (way : Text) : Prop where
  ne_nil : way ≠ []
  relative : isAbsolute way = false
  segments : ∀ s ∈ Text.split slash way, s ≠ [] ∧ s ≠ here ∧ s ≠ up

/-- Names written with slashes between them lead down. -/
theorem leadsDown_join {names : List Text} (hnames : ∀ s ∈ names, IsProper s) (hne : names ≠ []) :
    LeadsDown (Text.join [slash] names) := by
  have hslash : ∀ s ∈ names, slash ∉ s := fun s hs => (hnames s hs).no_slash
  have hpieces := Text.split_join hne hslash
  have hway := join_ne_nil hnames hne
  refine ⟨hway, ?_, fun s hs => ?_⟩
  · by_contra habsolute
    rw [Bool.not_eq_false] at habsolute
    -- in front of a leading slash there would be an empty name
    obtain ⟨rest, hrest⟩ := exists_cons_of_isAbsolute habsolute
    rw [hrest, Text.split_sep_cons] at hpieces
    exact (hnames [] (hpieces ▸ List.mem_cons_self)).ne_nil rfl
  · rw [hpieces] at hs
    have hproper := hnames s hs
    exact ⟨hproper.ne_nil, hproper.ne_here, hproper.ne_up⟩

/-- Of pieces that are empty or names, cleaning keeps the names. -/
theorem foldl_push_of_skipped_or_isProper {pieces : List Text}
    (h : ∀ s ∈ pieces, s = [] ∨ IsProper s) (stack : List Text) :
    pieces.foldl (push true) stack = (pieces.filter (!·.isEmpty)).reverse ++ stack := by
  induction pieces generalizing stack with
  | nil => rfl
  | cons piece pieces ih =>
    obtain ⟨hpiece, hrest⟩ := List.forall_mem_cons.mp h
    rw [List.foldl_cons, ih hrest]
    rcases hpiece with rfl | hproper
    · rw [push_of_skipped (Or.inl rfl), List.filter_cons_of_neg (by decide)]
    · rw [push_of_isProper hproper, List.filter_cons_of_pos (by simpa using hproper.ne_nil),
        List.reverse_cons, List.append_assoc]
      rfl

/-- **A text whose pieces are empty or names leads down the names.** -/
theorem join_eq_below {base text : Text} (hbase : IsRooted base) (htext : text ≠ [])
    (h : ∀ s ∈ Text.split slash text, s = [] ∨ IsProper s) :
    join [base, text] = below base ((Text.split slash text).filter (!·.isEmpty)) := by
  refine (isRooted_join hbase.isAbsolute text).eq_below hbase ?_
  rw [segments_join hbase htext, foldl_push_of_skipped_or_isProper h, List.reverse_append,
    List.reverse_reverse, List.reverse_reverse]

/-- A way that only leads down keeps all its segments. -/
theorem LeadsDown.segments_join {base way : Text} (hbase : IsRooted base) (h : LeadsDown way) :
    Path.segments (join [base, way]) = Path.segments base ++ Text.split slash way := by
  have hproper : ∀ s ∈ Text.split slash way, IsProper s := by
    intro s hs
    obtain ⟨hne, hhere, hup⟩ := h.segments s hs
    exact ⟨hne, hhere, hup, Text.not_mem_of_mem_split hs⟩
  rw [Path.segments_join hbase h.ne_nil, foldl_push_of_isProper hproper, List.reverse_append,
    List.reverse_reverse, List.reverse_reverse]

end Path

namespace Resolver

variable {r : Resolver}

/-! ### The file of a tag -/

theorem dot_not_mem_nameToPath (name : Text) : byte '.' ∉ nameToPath name := by
  unfold nameToPath
  rw [List.mem_map]
  rintro ⟨b, -, hb⟩
  split at hb
  · exact absurd hb (by decide)
  · next hkept => exact hkept (Or.inl hb)

/-- The file of a tag, seen from the components directory. -/
theorem pathFor_eq_join (hroot : Path.isAbsolute r.root = true) (hsuffix : r.suffix ≠ []) (tag : Text) :
    r.pathFor tag = Path.join [r.dir, nameToPath (Text.dropHead tagHead tag) ++ r.suffix] := by
  have hway := List.append_ne_nil_of_right_ne_nil (nameToPath (Text.dropHead tagHead tag)) hsuffix
  unfold pathFor
  rw [dir_of_isAbsolute hroot, Path.join_join hroot hway]

section

-- the suffix starts with a dot and belongs to one segment
variable (hdot : r.suffix.head? = some (byte '.')) (hslash : Path.slash ∉ r.suffix)

include hdot

theorem suffix_ne_nil : r.suffix ≠ [] := by
  intro hnil
  rw [hnil] at hdot
  cases hdot

include hslash

/-- The suffix behind a piece without dots is a name, unless it stands alone and is `.` or `..`. -/
theorem isProper_append_suffix {piece : Text} (hpiece : Path.slash ∉ piece)
    (hplain : byte '.' ∉ piece)
    (halone : piece = [] → r.suffix ≠ Path.here ∧ r.suffix ≠ Path.up) :
    Path.IsProper (piece ++ r.suffix) where
  ne_nil := List.append_ne_nil_of_right_ne_nil piece (suffix_ne_nil hdot)
  ne_here := Text.append_ne_of_not_mem_head hplain rfl fun hnil => (halone hnil).1
  ne_up := Text.append_ne_of_not_mem_head hplain rfl fun hnil => (halone hnil).2
  no_slash := by
    rw [List.mem_append, not_or]
    exact ⟨hpiece, hslash⟩

/-- **The names that lead to the file of a tag.** The pieces in front of the last one are empty or
names, and the last one is the suffix with what stands before it. -/
theorem exists_names (hroot : Path.isAbsolute r.root = true) (tag : Text) :
    ∃ front last, Text.split Path.slash (nameToPath (Text.dropHead tagHead tag)) = front ++ [last] ∧
      ((last = [] → r.suffix ≠ Path.here ∧ r.suffix ≠ Path.up) →
        (∀ s ∈ front.filter (!·.isEmpty) ++ [last ++ r.suffix], Path.IsProper s) ∧
        r.pathFor tag =
          Path.below r.dir (front.filter (!·.isEmpty) ++ [last ++ r.suffix])) := by
  have hsuffix := suffix_ne_nil hdot
  obtain ⟨front, last, hsplit, happend⟩ :=
    Text.exists_split_append hslash (nameToPath (Text.dropHead tagHead tag))
  -- the pieces have no slash, and no dot either
  have hpiece : ∀ s ∈ front ++ [last], Path.slash ∉ s ∧ byte '.' ∉ s := by
    intro s hs
    rw [← hsplit] at hs
    exact ⟨Text.not_mem_of_mem_split hs, fun hmem =>
      dot_not_mem_nameToPath _ (Text.subset_of_mem_split hs hmem)⟩
  have hfront : ∀ s ∈ front, s = [] ∨ Path.IsProper s := by
    intro s hs
    obtain ⟨hnoslash, hnodot⟩ := hpiece s (List.mem_append_left _ hs)
    refine or_iff_not_imp_left.mpr fun hne => ⟨hne, ?_, ?_, hnoslash⟩
    · rintro rfl
      exact hnodot (by decide)
    · rintro rfl
      exact hnodot (by decide)
  refine ⟨front, last, hsplit, fun halone => ?_⟩
  obtain ⟨hnoslash, hnodot⟩ := hpiece last (List.mem_append_right _ List.mem_cons_self)
  have hlast : Path.IsProper (last ++ r.suffix) :=
    isProper_append_suffix hdot hslash hnoslash hnodot halone
  constructor
  · intro s hs
    rcases List.mem_append.mp hs with hs | hs
    · obtain ⟨hmem, hne⟩ := List.mem_filter.mp hs
      exact (hfront s hmem).resolve_left (by simpa using hne)
    · rwa [List.mem_singleton.mp hs]
  · have hall : ∀ s ∈ front ++ [last ++ r.suffix], s = [] ∨ Path.IsProper s := by
      intro s hs
      rcases List.mem_append.mp hs with hs | hs
      · exact hfront s hs
      · exact Or.inr ((List.mem_singleton.mp hs).symm ▸ hlast)
    have hkept : [last ++ r.suffix].filter (!·.isEmpty) = [last ++ r.suffix] :=
      List.filter_cons_of_pos (by simpa using hlast.ne_nil)
    rw [← happend] at hall
    rw [pathFor_eq_join hroot hsuffix, Path.join_eq_below (isRooted_dir hroot)
      (List.append_ne_nil_of_right_ne_nil _ hsuffix) hall, happend, List.filter_append, hkept]

end

/-! ### What depends on the file system -/

/-- A look-up asks for the file of its tag, and for nothing else. -/
theorem lookup_congr {host : Host} {tag : Text}
    (h : host.files.stat (r.pathFor tag) = r.host.files.stat (r.pathFor tag)) :
    { r with host }.lookup tag = r.lookup tag := by
  have hpath : { r with host }.pathFor tag = r.pathFor tag := rfl
  unfold lookup
  dsimp only
  rw [hpath, h]

/-- A hover and a jump to a definition ask by looking tags up. -/
theorem target?_congr {host : Host} (h : ∀ tag, { r with host }.lookup tag = r.lookup tag)
    (doc : Document) (place : Place) : { r with host }.target? doc place = r.target? doc place := by
  unfold target?
  refine congrArg (Option.bind (tagAt? doc place)) ?_
  funext found
  dsimp only
  rw [h]

/-- **A tag never reaches outside the components directory.** Let the root be absolute, and let the
suffix start with a dot, hold no slash, and be neither `.` nor `..`. Whatever text a tag is, its file is
the components directory joined with a way that only leads down, and seen from there it is this way.
What a look-up finds, and what a hover or a jump to a definition answers in any document, stays the same
in any file system that agrees with this one on such files. -/
theorem tag_stays_below (r : Resolver) (hroot : Path.isAbsolute r.root = true)
    (hdot : r.suffix.head? = some (byte '.')) (hslash : Path.slash ∉ r.suffix)
    (hhere : r.suffix ≠ Path.here) (hup : r.suffix ≠ Path.up) :
    (∀ tag, ∃ way, Path.LeadsDown way ∧ r.pathFor tag = Path.join [r.dir, way] ∧
      Path.relative r.dir (r.pathFor tag) = some way) ∧
    ∀ host : Host,
      (∀ way, Path.LeadsDown way →
        host.files.stat (Path.join [r.dir, way]) = r.host.files.stat (Path.join [r.dir, way])) →
      (∀ tag, { r with host }.lookup tag = r.lookup tag) ∧
      ∀ doc place, { r with host }.hover doc place = r.hover doc place ∧
        { r with host }.definition doc place = r.definition doc place := by
  have hdir := isRooted_dir hroot
  -- every path is the directory with proper names below it: the suffix keeps a name from being a
  -- dot name
  have hway : ∀ tag, ∃ way, Path.LeadsDown way ∧ r.pathFor tag = Path.join [r.dir, way] ∧
      Path.relative r.dir (r.pathFor tag) = some way := by
    intro tag
    obtain ⟨front, last, -, hnames⟩ := exists_names hdot hslash hroot tag
    obtain ⟨hproper, hpath⟩ := hnames fun _ => ⟨hhere, hup⟩
    have hne := List.append_ne_nil_of_right_ne_nil (front.filter (!·.isEmpty))
      (List.cons_ne_nil (last ++ r.suffix) [])
    refine ⟨_, Path.leadsDown_join hproper hne, ?_, ?_⟩
    · rw [hpath, (Path.join_eq_below_iff hdir hproper hne rfl).mpr rfl]
    · rw [hpath, Path.relative_below hdir hproper hne]
  -- `host` answers alike on those paths, and lookups ask for nothing else
  refine ⟨hway, fun host hagree => ?_⟩
  have hlookup : ∀ tag, { r with host }.lookup tag = r.lookup tag := by
    intro tag
    obtain ⟨way, hdown, hpath, -⟩ := hway tag
    apply lookup_congr
    rw [hpath]
    exact hagree way hdown
  refine ⟨hlookup, fun doc place => ?_⟩
  have htarget := target?_congr hlookup doc place
  unfold hover definition
  rw [htarget]
  exact ⟨rfl, rfl⟩

/-- A tag that spells the way to a file outside, for a components directory beside the project: it is
found below that directory, also where the file outside cannot be looked at. -/
theorem tag_stays_below_hostile :
    let tree := FileTree.write {} (Text.ofString "/v/etc/passwd.html") (.file [])
    let r : Resolver :=
      ⟨tree.host, Text.ofString "/p/q//..", Text.ofString "../v", Text.ofString ".html"⟩
    let tag := Text.ofString "c-..//..-etc./passwd"
    let way := Text.ofString "etc/passwd.html"
    let guarded : FileTree := { tree with failStat := [Text.ofString "/etc/passwd.html"] }
    Path.LeadsDown way ∧ r.pathFor tag = Path.join [r.dir, way] ∧
      (∀ way, Path.LeadsDown way →
        guarded.host.files.stat (Path.join [r.dir, way]) =
          tree.host.files.stat (Path.join [r.dir, way])) ∧
      { r with host := guarded.host }.lookup tag = (Text.ofString "/v/etc/passwd.html", true) := by
  intro tree r tag way guarded
  have hroot : Path.isAbsolute r.root = true := by decide
  obtain ⟨hways, hdepends⟩ := tag_stays_below r hroot (by decide) (by decide) (by decide) (by decide)
  obtain ⟨way', hdown, hpath, hrelative⟩ := hways tag
  have hway : Path.relative r.dir (r.pathFor tag) = some way := by decide +kernel
  obtain rfl := Option.some.inj (hrelative.symm.trans hway)
  have hagree : ∀ way, Path.LeadsDown way →
      guarded.host.files.stat (Path.join [r.dir, way]) =
        tree.host.files.stat (Path.join [r.dir, way]) := by
    intro way hdown
    have hsegments := hdown.segments_join (isRooted_dir hroot)
    -- what is below the components directory starts with another segment
    have hfirst : (Path.segments (Path.join [r.dir, way])).head? = some (Text.ofString "v") := by
      have hdir : Path.segments r.dir = [Text.ofString "v"] := by decide +kernel
      rw [hsegments, hdir]
      rfl
    have hother : Path.join [r.dir, way] ∉ guarded.failStat := by
      intro hmem
      rw [List.mem_singleton.mp hmem] at hfirst
      exact absurd hfirst (by decide +kernel)
    have hnone : tree.failStat = [] := by decide +kernel
    change (guarded.stat _).map _ = (tree.stat _).map _
    unfold FileTree.stat
    rw [if_neg (by simpa using hother), hnone]
    rfl
  refine ⟨hdown, hpath, hagree, ?_⟩
  rw [(hdepends guarded.host hagree).1 tag]
  decide +kernel

end Resolver

end ViewLint
