import ViewLint.Component
import ViewLint.Proofs.FileTree.Walk

/-!
# Which listed components resolve

The list of the components gives every file below the components directory a tag: the way to the file
without the suffix (its stem), with dots for the slashes. The file of a tag is found in the other
direction, but there both dots and hyphens become slashes. So the tag of a file leads back to the file
only if its stem has neither (`pathFor_eq_iff`), and the tags of two files can be the same only if one
of the stems has a dot (`path_eq_of_tag_eq`). `listed_components_resolve` says this of all components
that a list holds; no file is in it twice.

A list holds files that a walk of the components directory comes to (`glob_eq_ok`), and these stand
below it, unless the components directory is a link: then the walk comes to the link alone.
-/

namespace ViewLint

namespace Text

theorem replaceByte_eq_map (old new : UInt8) (text : Text) :
    replaceByte old [new] text = text.map fun b => if b = old then new else b := by
  unfold replaceByte
  rw [List.map_eq_flatMap]
  congr 1
  funext b
  split <;> rfl

end Text

namespace Resolver

variable {r : Resolver}

/-- The way to a file from the components directory, without the suffix. -/
def stem (r : Resolver) (path : Text) : Text :=
  Text.dropTail r.suffix ((Path.relative r.dir path).getD path)

/-- A stem without dots and hyphens. -/
def IsPlain (stem : Text) : Prop := Text.byte '.' ∉ stem ∧ Text.byte '-' ∉ stem

/-- The stem of a file as it stands in the tag. -/
def dotted (stem : Text) : Text := Text.replaceByte Path.slash (Text.ofString ".") stem

theorem dotted_eq_map (stem : Text) :
    dotted stem = stem.map fun b => if b = Path.slash then Text.byte '.' else b :=
  Text.replaceByte_eq_map Path.slash (Text.byte '.') stem

/-- The dots of a tag become slashes again. -/
theorem nameToPath_dotted (stem : Text) : nameToPath (dotted stem) = nameToPath stem := by
  unfold nameToPath
  rw [dotted_eq_map, List.map_map]
  apply List.map_congr_left
  intro b _
  by_cases hb : b = Path.slash
  · subst hb
    decide
  · simp only [Function.comp, if_neg hb]

theorem nameToPath_eq_self_iff (stem : Text) : nameToPath stem = stem ↔ IsPlain stem := by
  -- byte by byte: a dot or a hyphen is the only thing that changes
  have hself : nameToPath stem = stem ↔
      ∀ b ∈ stem, (if b = Text.byte '.' ∨ b = Text.byte '-' then Path.slash else b) = b := by
    conv_lhs => rhs; rw [← List.map_id stem]
    exact List.map_inj_left
  rw [hself]
  constructor
  · intro h
    exact ⟨fun hdot => absurd (h _ hdot) (by decide), fun hhyphen => absurd (h _ hhyphen) (by decide)⟩
  · rintro ⟨hdot, hhyphen⟩ b hb
    refine if_neg ?_
    rintro (rfl | rfl)
    · exact hdot hb
    · exact hhyphen hb

theorem dotted_inj {s t : Text} (hs : Text.byte '.' ∉ s) (ht : Text.byte '.' ∉ t)
    (h : dotted s = dotted t) : s = t := by
  -- without dots of its own, the dots of a stem are its slashes
  have hback : ∀ u : Text, Text.byte '.' ∉ u →
      (dotted u).map (fun b => if b = Text.byte '.' then Path.slash else b) = u := by
    intro u hu
    rw [dotted_eq_map, List.map_map]
    conv_rhs => rw [← List.map_id u]
    apply List.map_congr_left
    intro b hb
    by_cases hslash : b = Path.slash
    · subst hslash
      decide
    · have hdot : b ≠ Text.byte '.' := fun heq => hu (heq ▸ hb)
      simp only [Function.comp, if_neg hslash, if_neg hdot, id]
  rw [← hback s hs, h, hback t ht]

/-! ### The file of a tag -/

theorem tagFor_eq_some {path tag : Text} (h : r.tagFor path = some tag) :
    Path.relative r.dir path = some (r.stem path ++ r.suffix) ∧
      tag = tagHead ++ dotted (r.stem path) := by
  unfold tagFor at h
  unfold stem
  cases hway : Path.relative r.dir path with
  | none =>
    rw [hway] at h
    exact absurd h (Option.some_ne_none _).symm
  | some way =>
    rw [hway] at h
    dsimp only at h
    split at h
    · -- the path lacks the suffix
      exact absurd h (Option.some_ne_none _).symm
    · -- the path ends in the suffix, which is what `stem` drops
      rename_i hkept
      rw [Bool.or_eq_true, not_or] at hkept
      have hsuffix : r.suffix.isSuffixOf way = true := by simpa using hkept.2
      refine ⟨?_, (Option.some.inj h).symm⟩
      rw [Option.getD_some, Text.dropTail_append_of_isSuffixOf hsuffix]

theorem dir_of_isAbsolute (h : Path.isAbsolute r.root = true) :
    r.dir = Path.join [r.root, r.componentsDir] := by
  unfold dir
  exact if_neg (by simpa using Path.ne_nil_of_isAbsolute h)

theorem isRooted_dir (h : Path.isAbsolute r.root = true) : Path.IsRooted r.dir := by
  rw [dir_of_isAbsolute h]
  exact Path.isRooted_join h r.componentsDir

/-- **The tag of a file leads back to it just in case its stem is plain.** -/
theorem pathFor_eq_iff (hroot : Path.isAbsolute r.root = true) {names : List Text}
    (hnames : ∀ s ∈ names, Path.IsProper s) (hne : names ≠ []) {tag : Text}
    (htag : r.tagFor (Path.below r.dir names) = some tag) :
    r.pathFor tag = Path.below r.dir names ↔ IsPlain (r.stem (Path.below r.dir names)) := by
  have hdir : Path.IsRooted r.dir := isRooted_dir hroot
  obtain ⟨hway, rfl⟩ := tagFor_eq_some htag
  rw [Path.relative_below hdir hnames hne] at hway
  have hspelled := Option.some.inj hway
  generalize r.stem (Path.below r.dir names) = stem at hspelled ⊢
  -- both ways have the same length, since every byte of the stem stands for one byte
  have hlength : (nameToPath stem ++ r.suffix).length = (Text.join [Path.slash] names).length := by
    rw [hspelled, List.length_append, List.length_append, nameToPath, List.length_map]
  have hwayne : nameToPath stem ++ r.suffix ≠ [] := by
    intro hnil
    rw [hnil] at hlength
    exact Path.join_ne_nil hnames hne (List.eq_nil_of_length_eq_zero hlength.symm)
  have hpath : r.pathFor (tagHead ++ dotted stem) = Path.join [r.dir, nameToPath stem ++ r.suffix] := by
    unfold pathFor
    rw [Text.dropHead_append, nameToPath_dotted, dir_of_isAbsolute hroot, Path.join_join hroot hwayne]
  rw [hpath, Path.join_eq_below_iff hdir hnames hne hlength, hspelled, List.append_cancel_right_eq,
    nameToPath_eq_self_iff]

/-- Two files of the same tag are one, unless one of the stems has a dot. -/
theorem path_eq_of_tag_eq (hroot : Path.isAbsolute r.root = true) {ns ms : List Text}
    (hns : ∀ s ∈ ns, Path.IsProper s) (hms : ∀ s ∈ ms, Path.IsProper s) (hn : ns ≠ []) (hm : ms ≠ [])
    {tag : Text} (htag : r.tagFor (Path.below r.dir ns) = some tag)
    (htag' : r.tagFor (Path.below r.dir ms) = some tag)
    (hdot : Text.byte '.' ∉ r.stem (Path.below r.dir ns))
    (hdot' : Text.byte '.' ∉ r.stem (Path.below r.dir ms)) : ns = ms := by
  have hdir := isRooted_dir hroot
  obtain ⟨hway, rfl⟩ := tagFor_eq_some htag
  obtain ⟨hway', heq⟩ := tagFor_eq_some htag'
  -- the same stem and the same suffix make the same way
  have hstem := dotted_inj hdot hdot' (List.append_cancel_left heq)
  rw [Path.relative_below hdir hns hn] at hway
  rw [Path.relative_below hdir hms hm, ← hstem, ← hway] at hway'
  have hjoin := congrArg (Text.split Path.slash) (Option.some.inj hway')
  rw [Text.split_join hn fun s hs => (hns s hs).no_slash,
    Text.split_join hm fun s hs => (hms s hs).no_slash] at hjoin
  exact hjoin.symm

/-- If the components directory itself has a tag, the tag leads to it. -/
theorem pathFor_dir (hroot : Path.isAbsolute r.root = true) (hsuffix : r.suffix ≠ []) {tag : Text}
    (htag : r.tagFor r.dir = some tag) : r.pathFor tag = r.dir ∧ IsPlain (r.stem r.dir) := by
  obtain ⟨hway, rfl⟩ := tagFor_eq_some htag
  have hhere : Path.relative r.dir r.dir = some Path.here := if_pos rfl
  -- the way is a single dot, and the suffix is all of it
  have hspelled := Option.some.inj (hway.symm.trans hhere)
  have hstem : r.stem r.dir = [] := by
    have hlength := congrArg List.length hspelled
    have hpos := List.length_pos_iff.mpr hsuffix
    rw [List.length_append] at hlength
    change _ = 1 at hlength
    exact List.length_eq_zero_iff.mp (by omega)
  rw [hstem, List.nil_append] at hspelled
  rw [hstem]
  refine ⟨?_, List.not_mem_nil, List.not_mem_nil⟩
  unfold pathFor
  rw [Text.dropHead_append, nameToPath_dotted, hspelled]
  change Path.join [r.root, r.componentsDir, Path.here] = r.dir
  rw [← Path.join_join hroot (by decide), ← dir_of_isAbsolute hroot,
    Path.join_here (isRooted_dir hroot).isAbsolute, (isRooted_dir hroot).clean_eq]

/-! ### The list of the components -/

/-- The files with a tag, as components. -/
def tagged (r : Resolver) (paths : List Text) : List Component :=
  paths.filterMap fun path => (r.tagFor path).map (⟨·, path⟩)

theorem tagged_cons (r : Resolver) (path : Text) (paths : List Text) :
    r.tagged (path :: paths) = (r.tagFor path).toList.map (⟨·, path⟩) ++ r.tagged paths := by
  unfold tagged
  rw [List.filterMap_cons]
  cases r.tagFor path <;> rfl

theorem nodup_tagged {paths : List Text} (h : paths.Nodup) :
    ((r.tagged paths).map Component.path).Nodup := by
  rw [tagged, List.map_filterMap]
  refine List.Nodup.filterMap ?_ h
  intro a b c ha hb
  simp only [Option.map_map, Option.mem_def, Option.map_eq_some_iff, Function.comp] at ha hb
  obtain ⟨-, -, rfl⟩ := ha
  obtain ⟨-, -, rfl⟩ := hb
  rfl

/-- A visit to a file adds the component of the file, or nothing. -/
theorem gather_eq_ok {pattern path : Text} {found after : List Component}
    (h : r.gather pattern found path = .ok after) :
    after = found ∨ after = found ++ (r.tagFor path).toList.map (⟨·, path⟩) := by
  unfold gather at h
  split at h
  · exact absurd h (by simp)
  · split at h
    · exact absurd h (by simp)
    · exact Or.inl (Except.ok.inj h).symm
    · exact Or.inr (Except.ok.inj h).symm

/-- The visits to some files add the components of part of them. -/
theorem foldlM_gather_eq_ok {pattern : Text} {paths : List Text} {found after : List Component}
    (h : paths.foldlM (r.gather pattern) found = .ok after) :
    ∃ kept, kept.Sublist paths ∧ after = found ++ r.tagged kept := by
  -- induction on the paths visited
  induction paths generalizing found with
  | nil =>
    obtain rfl := Except.ok.inj h
    exact ⟨[], List.Sublist.refl [], (List.append_nil _).symm⟩
  | cons path paths ih =>
    rw [List.foldlM_cons] at h
    obtain ⟨next, hnext, h⟩ := exists_of_bind_eq_ok h
    obtain ⟨kept, hkept, rfl⟩ := ih h
    -- the path is passed over, or one component is added for it
    rcases gather_eq_ok hnext with rfl | rfl
    · exact ⟨kept, hkept.cons path, rfl⟩
    · exact ⟨path :: kept, hkept.cons_cons path, by rw [tagged_cons, List.append_assoc]⟩

/-- A list that succeeds holds the components of files that the walk of the components directory
comes to. -/
theorem glob_eq_ok (hroot : Path.isAbsolute r.root = true)
    (hwalk : Walk.Follows r.host.walkComponents r.host.files) {pattern : Text}
    {comps : List Component} (h : r.glob pattern = .ok comps) :
    comps = [] ∨ ∃ info found kept, r.host.files.lstat r.dir = .ok info ∧
      r.host.files.Lists (fun _ _ => true) (.entry r.dir info) found ∧
      kept.Sublist found ∧ comps.Perm (r.tagged kept) := by
  unfold glob at h
  split at h
  · -- no such directory: nothing is listed
    exact Or.inl (Except.ok.inj h).symm
  · -- the walk lists `found`, and the fold over it keeps a part
    obtain ⟨listed, hlisted, hsorted⟩ := exists_of_bind_eq_ok h
    obtain rfl := Except.ok.inj hsorted
    obtain ⟨info, found, hlooked, hfound, hfold⟩ :=
      (hwalk.eq_ok_iff (isRooted_dir hroot).isAbsolute).mp hlisted
    obtain ⟨kept, hkept, rfl⟩ := foldlM_gather_eq_ok hfold
    exact Or.inr ⟨info, found, kept, hlooked, hfound, hkept, List.mergeSort_perm _ _⟩

/-- **The components of a list** have different files, to which names lead from the components
directory. -/
theorem leads_of_glob_eq_ok (hroot : Path.isAbsolute r.root = true)
    (hwalk : Walk.Follows r.host.walkComponents r.host.files) (hfiles : r.host.files.Lawful)
    {pattern : Text} {comps : List Component} (h : r.glob pattern = .ok comps) :
    (comps.map Component.path).Nodup ∧ ∀ c ∈ comps, r.tagFor c.path = some c.tag ∧
      ∃ names, r.host.files.Leads r.dir names ∧ c.path = Path.below r.dir names := by
  rcases glob_eq_ok hroot hwalk h with rfl | ⟨info, found, kept, hlooked, hfound, hkept, hperm⟩
  · exact ⟨List.nodup_nil, fun c hc => absurd hc List.not_mem_nil⟩
  constructor
  · -- a walk visits no path twice, and the tags are made from the paths kept
    have hnodup := hkept.nodup (hfound.nodup hfiles hlooked (isRooted_dir hroot))
    exact (hperm.map Component.path).nodup_iff.mpr (nodup_tagged hnodup)
  · -- a component comes from a path kept, which leads down from the directory
    intro c hc
    obtain ⟨path, hpath, hmap⟩ := List.mem_filterMap.mp (hperm.mem_iff.mp hc)
    obtain ⟨tag, htag, rfl⟩ := Option.map_eq_some_iff.mp hmap
    obtain ⟨names, hvisits, hbelow⟩ := (hfound.mem_iff hlooked path).mp (hkept.mem hpath)
    exact ⟨htag, names, hvisits.1, hbelow⟩

/-- **Which listed components resolve.** Below an absolute root, let the components be listed by a walk
of a file system. If the suffix is empty, let the components directory not be a link. No file is listed
twice. The tag of a component leads to its file if and only if the stem of the file has neither a dot
nor a hyphen, and such a tag is looked up with success where the file can be looked at. Two components
have the same tag only if one of the stems has a dot. -/
theorem listed_components_resolve (r : Resolver) (hroot : Path.isAbsolute r.root = true)
    (hwalk : Walk.Follows r.host.walkComponents r.host.files) (hfiles : r.host.files.Lawful)
    (hlink : r.suffix = [] → ∀ info, r.host.files.lstat r.dir = .ok info → info.isDir = true)
    (pattern : Text) {comps : List Component} (h : r.glob pattern = .ok comps) :
    (comps.map Component.path).Nodup ∧
    (∀ c ∈ comps, (r.pathFor c.tag = c.path ↔ IsPlain (r.stem c.path)) ∧
      (IsPlain (r.stem c.path) → (∃ info, r.host.files.stat c.path = .ok info) →
        r.lookup c.tag = (c.path, true))) ∧
    comps.Pairwise fun a b =>
      a.tag = b.tag → Text.byte '.' ∈ r.stem a.path ∨ Text.byte '.' ∈ r.stem b.path := by
  have habs := (isRooted_dir hroot).isAbsolute
  obtain ⟨hnodup, hlisted⟩ := leads_of_glob_eq_ok hroot hwalk hfiles h
  refine ⟨hnodup, ?_, ?_⟩
  · intro c hc
    obtain ⟨htag, names, hleads, hpath⟩ := hlisted c hc
    have hiff : r.pathFor c.tag = c.path ↔ IsPlain (r.stem c.path) := by
      rw [hpath] at htag ⊢
      cases names with
      | nil =>
        -- the components directory is a link
        obtain ⟨info, hlooked, hfile⟩ := hleads
        have hsuffix : r.suffix ≠ [] := fun hnil =>
          absurd (hfile.symm.trans (hlink hnil info hlooked)) Bool.false_ne_true
        obtain ⟨hleadsBack, hplain⟩ := pathFor_dir hroot hsuffix htag
        exact iff_of_true hleadsBack hplain
      | cons name rest =>
        exact pathFor_eq_iff hroot (hleads.proper hfiles habs) (List.cons_ne_nil _ _) htag
    refine ⟨hiff, ?_⟩
    rintro hplain ⟨info, hstat⟩
    unfold lookup
    rw [if_neg (by simpa using Path.ne_nil_of_isAbsolute hroot), hiff.mpr hplain, hstat]
  · -- different components have different files, which without dots have different tags
    rw [List.Nodup, List.pairwise_map] at hnodup
    refine hnodup.imp_of_mem ?_
    intro a b ha hb hne htags
    obtain ⟨htag, ns, hleads, hpath⟩ := hlisted a ha
    obtain ⟨htag', ms, hleads', hpath'⟩ := hlisted b hb
    rw [hpath] at htag hne ⊢
    rw [hpath', ← htags] at htag'
    rw [hpath'] at hne ⊢
    by_contra hdots
    rw [not_or] at hdots
    refine hne (congrArg _ ?_)
    cases ns with
    | nil => exact (hleads.eq_nil_of_nil hleads').symm
    | cons n ns =>
      cases ms with
      | nil => exact hleads'.eq_nil_of_nil hleads
      | cons m ms =>
        exact path_eq_of_tag_eq hroot (hleads.proper hfiles habs) (hleads'.proper hfiles habs)
          (List.cons_ne_nil n ns) (List.cons_ne_nil m ms) htag htag' hdots.1 hdots.2

/-- A file whose name has a hyphen, one whose name has a dot, and one in a directory. -/
def spelled : FileTree :=
  ((({} : FileTree).write (Text.ofString "/r/c/a-b.view.php") (.file [])).write
    (Text.ofString "/r/c/x.y.view.php") (.file [])).write (Text.ofString "/r/c/x/y.view.php") (.file [])

/-- Their project. -/
def spelledProject : Resolver :=
  ⟨spelled.host, Text.ofString "/r", Text.ofString "c", Text.ofString ".view.php"⟩

/-- The components of the project. -/
def spelledComponents : List Component :=
  [⟨Text.ofString "c-a-b", Text.ofString "/r/c/a-b.view.php"⟩,
    ⟨Text.ofString "c-x.y", Text.ofString "/r/c/x/y.view.php"⟩,
    ⟨Text.ofString "c-x.y", Text.ofString "/r/c/x.y.view.php"⟩]

theorem wellFormed_spelled : spelled.WellFormed :=
  ((FileTree.wellFormed_empty.write _ (.file [])).write _ (.file [])).write _ (.file [])

theorem glob_spelledProject : spelledProject.glob [] = .ok spelledComponents := by
  have hwalk : spelledProject.host.walkComponents spelledProject.dir
      (.ofFiles .unreadable (fun _ _ => true) (spelledProject.gather (spelledProject.inForce []))) [] =
      .ok spelledComponents := by
    decide +kernel
  unfold glob
  rw [if_neg (by decide +kernel), hwalk]
  change Except.ok (spelledComponents.mergeSort _) = _
  rw [List.mergeSort_of_pairwise (by decide +kernel)]

/-- Of the three files only the one in the directory is found by its tag. -/
theorem listed_components_resolve_spelled :
    spelledProject.glob [] = .ok spelledComponents ∧
      spelledProject.lookup (Text.ofString "c-x.y") = (Text.ofString "/r/c/x/y.view.php", true) ∧
      spelledProject.pathFor (Text.ofString "c-a-b") ≠ Text.ofString "/r/c/a-b.view.php" := by
  have hall := listed_components_resolve spelledProject (by decide)
    (spelled.follows_walkComponents wellFormed_spelled) (spelled.lawful_host wellFormed_spelled)
    (fun hnil => absurd hnil (by decide)) [] glob_spelledProject
  obtain ⟨-, hplain, -⟩ := hall
  have hhyphen := hplain ⟨Text.ofString "c-a-b", Text.ofString "/r/c/a-b.view.php"⟩ List.mem_cons_self
  have hinner := hplain ⟨Text.ofString "c-x.y", Text.ofString "/r/c/x/y.view.php"⟩
    (List.mem_cons_of_mem _ List.mem_cons_self)
  have hstat : (spelledProject.host.files.stat (Text.ofString "/r/c/x/y.view.php")).toBool = true := by
    decide +kernel
  refine ⟨glob_spelledProject, hinner.2 ?_ ?_, fun heq => absurd (hhyphen.1.mp heq) ?_⟩
  · unfold IsPlain
    decide +kernel
  · cases h : spelledProject.host.files.stat (Text.ofString "/r/c/x/y.view.php") with
    | ok info => exact ⟨info, rfl⟩
    | error fault =>
      rw [h] at hstat
      exact absurd hstat Bool.false_ne_true
  · unfold IsPlain
    decide +kernel

/-- **A listed tag can lead to another file, and two files can have the same tag.** -/
theorem listed_tag_not_inverse :
    ∃ comps, spelledProject.glob [] = .ok comps ∧
      (∃ c ∈ comps, spelledProject.pathFor c.tag ≠ c.path) ∧ ¬ (comps.map Component.tag).Nodup :=
  ⟨_, glob_spelledProject, ⟨_, List.mem_cons_self, by decide +kernel⟩, by decide +kernel⟩

end Resolver

end ViewLint
