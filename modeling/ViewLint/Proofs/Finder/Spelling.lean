import Mathlib.Data.List.Dedup
import ViewLint.Proofs.CheckRun.Schedule
import ViewLint.Proofs.Finder.Arguments

/-!
# When a file is found under two names

The paths that are found are compared as texts, so a file is found once if all its paths are spelled in
the same way. Relative arguments, walks and patterns put their paths together from a directory and a
way, and what is put together is clean. An absolute argument that names a file, or a link that is taken
for one, is not put together, but taken as it is (`Finder.Loose`). It is the only source of other
spellings (`clean_or_loose`).

`found_once_iff`: no file is found twice, and so none is checked twice and counted twice, if and only
if no such argument comes together with another spelling of its file. It does come together with one in
`found_twice`, where a file is named once more by its directory.
-/

namespace ViewLint

namespace Finder

/-- The argument names a file by an absolute path that is not clean, or a link to a directory by such a
path that a walk takes. -/
structure Loose (f : Finder) (argument : Text) : Prop where
  isAbsolute : Path.isAbsolute argument = true
  noPattern : isPattern argument = false
  clean_ne : Path.clean argument ≠ argument
  taken : ∃ info, f.host.files.stat argument = .ok info ∧ (info.isDir = false ∨
    (∃ link, f.host.files.lstat argument = .ok link ∧ link.isDir = false) ∧
      ¬ f.Ignores argument ∧ f.suffix <:+ argument)

variable {f : Finder} {arguments files : List Text}

/-- A path is found in a clean spelling, or as the argument spells it. -/
theorem clean_or_loose_of_stands (hroot : Path.IsRooted f.root) (hfiles : f.host.files.Lawful)
    {argument : Text} {part : List Text} (h : f.Stands argument part) {p : Text} (hp : p ∈ part) :
    Path.IsRooted p ∨ p = argument ∧ f.Loose argument := by
  have habs := isAbsolute_target hroot.isAbsolute argument
  cases h with
  | pattern _ _ hcollected =>
    -- the file stands at or below the root, which is clean
    obtain ⟨names, hreaches, rfl, -⟩ := (hcollected.mem_iff hfiles hroot.isAbsolute p).mp hp
    exact Or.inl (Path.isRooted_below hroot (hreaches.leads.proper hfiles hroot.isAbsolute))
  | @dir info _ hpattern hlooked hisDir hcollected =>
    obtain ⟨names, hreaches, rfl, htest⟩ := (hcollected.mem_iff hfiles habs p).mp hp
    by_cases hne : names = []
    · -- a link to the directory, which the walk takes for a file
      subst hne
      change Path.IsRooted (f.target argument) ∨ f.target argument = argument ∧ _
      by_cases habsolute : Path.isAbsolute argument = true
      · rw [target_of_isAbsolute habsolute] at hlooked hreaches htest ⊢
        by_cases hclean : Path.clean argument = argument
        · exact Or.inl ⟨habsolute, hclean⟩
        · have hends : f.suffix <:+ argument :=
            List.isSuffixOf_iff_suffix.mp (Except.ok.inj htest)
          exact Or.inr ⟨rfl, habsolute, hpattern, hclean, info, hlooked,
            Or.inr ⟨hreaches.leads, mt excludes_nil_iff.mpr hreaches.included, hends⟩⟩
      · unfold target
        rw [if_neg habsolute]
        exact Or.inl (Path.isRooted_join hroot.isAbsolute argument)
    · -- whatever the spelling of the directory, what is properly below it has a clean path
      rw [← Path.below_clean habs hne]
      exact Or.inl (Path.isRooted_below (Path.isRooted_clean habs) (hreaches.leads.proper hfiles habs))
  | @file info hpattern hlooked hfile =>
    -- only a relative argument is joined to the root, and so cleaned
    obtain rfl := List.mem_singleton.mp hp
    by_cases habsolute : Path.isAbsolute argument = true
    · rw [target_of_isAbsolute habsolute] at hlooked ⊢
      by_cases hclean : Path.clean argument = argument
      · exact Or.inl ⟨habsolute, hclean⟩
      · exact Or.inr ⟨rfl, habsolute, hpattern, hclean, info, hlooked, Or.inl hfile⟩
    · unfold target
      rw [if_neg habsolute]
      exact Or.inl (Path.isRooted_join hroot.isAbsolute argument)

theorem stands_file {argument path : Text} (name : Text) (hpattern : isPattern argument = false)
    (htarget : f.target argument = path) (hlooked : f.host.files.stat path = .ok ⟨name, false⟩) :
    f.Stands argument [path] := by
  rw [← htarget] at hlooked ⊢
  exact .file hpattern hlooked rfl

/-- A loose argument stands for itself. -/
theorem Loose.mem_of_stands (hfiles : f.host.files.Lawful) {argument : Text} (h : f.Loose argument)
    {part : List Text} (hstands : f.Stands argument part) : argument ∈ part := by
  obtain ⟨habsolute, hpattern, -, info, hlooked, htaken⟩ := h
  have htarget : f.target argument = argument := target_of_isAbsolute habsolute
  cases hstands with
  | pattern hother => exact absurd (hpattern.symm.trans hother) Bool.false_ne_true
  | file => exact List.mem_singleton.mpr htarget.symm
  | dir _ hlooked' hisDir hcollected =>
    rw [htarget] at hlooked' hcollected
    obtain rfl := Except.ok.inj (hlooked.symm.trans hlooked')
    -- it is no file, so it is a link, and the walk takes it at the start
    rcases htaken with hfile | ⟨hlink, hkept, hends⟩
    · exact absurd (hfile.symm.trans hisDir) Bool.false_ne_true
    · refine (hcollected.mem_iff hfiles habsolute argument).mpr ⟨[], ⟨hlink, ?_⟩, rfl, ?_⟩
      · exact mt excludes_nil_iff.mp hkept
      · exact congrArg Except.ok (List.isSuffixOf_iff_suffix.mpr hends)

/-- Without arguments the root is named, by a relative path. -/
theorem Loose.mem_of_named {argument : Text} (h : f.Loose argument) (hnamed : argument ∈ named arguments) :
    argument ∈ arguments := by
  cases arguments with
  | nil =>
    obtain rfl := List.mem_singleton.mp hnamed
    exact absurd h.isAbsolute (by decide)
  | cons a arguments => exact hnamed

section Run

variable (hroot : Path.IsRooted f.root)
  (hwalk : Walk.Follows f.host.walkTemplates f.host.files) (hfiles : f.host.files.Lawful)

include hroot hwalk hfiles

/-- **Every path is clean, or one of the arguments.** -/
theorem clean_or_loose (h : f.find arguments = .ok files) {p : Text} (hp : p ∈ files) :
    Path.IsRooted p ∨ p ∈ arguments ∧ f.Loose p := by
  obtain ⟨a, ha, part, hpart, hmem⟩ := (mem_find_iff_stands hroot.isAbsolute hwalk h p).mp hp
  rcases clean_or_loose_of_stands hroot hfiles hpart hmem with hclean | ⟨rfl, hloose⟩
  · exact Or.inl hclean
  · exact Or.inr ⟨hloose.mem_of_named ha, hloose⟩

theorem Loose.mem_find {argument : Text} (hloose : f.Loose argument) (hmem : argument ∈ arguments)
    (h : f.find arguments = .ok files) : argument ∈ files := by
  have hnamed : argument ∈ named arguments := by rwa [named_of_mem hmem]
  obtain ⟨part, hpart⟩ :=
    (exists_find_iff hroot.isAbsolute hwalk arguments).mp ⟨files, h⟩ argument hnamed
  rw [mem_find_iff_stands hroot.isAbsolute hwalk h]
  exact ⟨argument, hnamed, part, hpart, hloose.mem_of_stands hfiles hpart⟩

/-- No file is found under two names just in case no loose argument has another spelling beside it. -/
theorem clean_injOn_iff (h : f.find arguments = .ok files) :
    (∀ p ∈ files, ∀ q ∈ files, p ≠ q → Path.clean p ≠ Path.clean q) ↔
      ∀ a ∈ arguments, f.Loose a → ∀ p ∈ files, Path.clean p = Path.clean a → p = a := by
  constructor
  · intro hdistinct a ha hloose p hp heq
    by_contra hne
    exact hdistinct p hp a (hloose.mem_find hroot hwalk hfiles ha h) hne heq
  · intro halone p hp q hq hne heq
    -- two different clean paths are those of different files, so one of the two is loose
    rcases clean_or_loose hroot hwalk hfiles h hp with hcleanp | ⟨hpa, hpl⟩
    · rcases clean_or_loose hroot hwalk hfiles h hq with hcleanq | ⟨hqa, hql⟩
      · exact hne (hcleanp.clean_eq.symm.trans (heq.trans hcleanq.clean_eq))
      · exact hne (halone q hqa hql p hp heq)
    · exact hne (halone p hpa hpl q hq heq.symm).symm

end Run

/-- **When no file is found twice.** For every clean absolute root, every suffix and all arguments that can
be resolved, in every file system whose walks do what a walk does:

* Every path that is found is absolute and clean, or it is an argument that names a file by an absolute
  path which is not clean.
* Different paths lead to different files if and only if no such argument comes together with another
  spelling of its file.
* A check has one result for each path. There are as many results as there are files under these paths
  if and only if the same condition holds.

A link to a directory that a walk takes for a file counts as one. -/
theorem found_once_iff (f : Finder) (hroot : Path.IsRooted f.root)
    (hwalk : Walk.Follows f.host.walkTemplates f.host.files) (hfiles : f.host.files.Lawful)
    (hstars : f.host.patterns.StarsMatchAll) {arguments files : List Text}
    (hfind : f.find arguments = .ok files) :
    (∀ p ∈ files, Path.IsRooted p ∨ p ∈ arguments ∧ f.Loose p) ∧
    ((∀ p ∈ files, ∀ q ∈ files, p ≠ q → Path.clean p ≠ Path.clean q) ↔
      ∀ a ∈ arguments, f.Loose a → ∀ p ∈ files, Path.clean p = Path.clean a → p = a) ∧
    (∀ window results, checkAll f.host f.root window files = .ok results →
      results.length = files.length ∧
      (results.length = (files.map Path.clean).dedup.length ↔
        ∀ a ∈ arguments, f.Loose a → ∀ p ∈ files, Path.clean p = Path.clean a → p = a)) := by
  have hiff := clean_injOn_iff hroot hwalk hfiles hfind
  refine ⟨fun p => clean_or_loose hroot hwalk hfiles hfind, hiff, fun window results hresults => ?_⟩
  -- one result for each file
  have hlength : results.length = files.length := by
    obtain ⟨-, rfl⟩ := Crew.checkAll_eq_ok hstars hresults
    exact List.length_map _
  refine ⟨hlength, ?_⟩
  -- the files ascend, so none is there twice, and losing none to `dedup` is being apart
  have hnodup : files.Nodup := by
    refine (pairwise_find hroot.isAbsolute hwalk hfind).imp ?_
    rintro p _ hlt rfl
    exact List.lt_irrefl p hlt
  have hdedup : files.length = (files.map Path.clean).dedup.length ↔ (files.map Path.clean).Nodup := by
    have hmap : (files.map Path.clean).length = files.length := List.length_map _
    rw [← hmap, ← List.dedup_eq_self]
    constructor
    · intro hlen
      exact (List.dedup_sublist _).eq_of_length hlen.symm
    · intro heq
      rw [heq]
  rw [← hiff, hlength, hdedup, List.nodup_map_iff_inj_on hnodup]
  exact forall₄_congr fun p hp q hq => not_imp_not.symm

/-- Two templates, of which the first has an open block. -/
def twoTemplateFiles : FileTree :=
  (({} : FileTree).write (Text.ofString "/r/a.view.php") (.file (Text.ofString "@if"))).write
    (Text.ofString "/r/b.view.php") (.file [])

/-- Their project. -/
def twoTemplates : Finder :=
  ⟨twoTemplateFiles.host, Text.ofString "/r", Text.ofString ".view.php"⟩

theorem wellFormed_twoTemplateFiles : twoTemplateFiles.WellFormed :=
  (FileTree.wellFormed_empty.write _ (.file _)).write _ (.file _)

/-- The loose spelling of one file does no harm beside another file. -/
theorem found_once_iff_apart :
    let arguments := [Text.ofString "/r//a.view.php", Text.ofString "b.view.php"]
    let files := [Text.ofString "/r//a.view.php", Text.ofString "/r/b.view.php"]
    Path.IsRooted twoTemplates.root ∧
      Walk.Follows twoTemplates.host.walkTemplates twoTemplates.host.files ∧
      twoTemplates.host.files.Lawful ∧ twoTemplates.host.patterns.StarsMatchAll ∧
      twoTemplates.find arguments = .ok files ∧
      (∀ p ∈ files, ∀ q ∈ files, p ≠ q → Path.clean p ≠ Path.clean q) ∧
      ∃ results, checkAll twoTemplates.host twoTemplates.root 20 files = .ok results ∧
        results.length = (files.map Path.clean).dedup.length := by
  intro arguments files
  have hroot : Path.IsRooted twoTemplates.root := ⟨by decide, by decide +kernel⟩
  have hwalk : Walk.Follows twoTemplates.host.walkTemplates twoTemplates.host.files :=
    twoTemplateFiles.follows_walkTemplates wellFormed_twoTemplateFiles
  have hfiles : twoTemplates.host.files.Lawful :=
    twoTemplateFiles.lawful_host wellFormed_twoTemplateFiles
  have hstars : twoTemplates.host.patterns.StarsMatchAll := Glob.starsMatchAll
  -- the two arguments stand for one file each, and these are in order already
  have ha : twoTemplates.Stands (Text.ofString "/r//a.view.php") [Text.ofString "/r//a.view.php"] :=
    stands_file (Text.ofString "a.view.php") (by decide) (by decide +kernel)
      (by decide +kernel)
  have hb : twoTemplates.Stands (Text.ofString "b.view.php") [Text.ofString "/r/b.view.php"] :=
    stands_file (Text.ofString "b.view.php") (by decide) (by decide +kernel)
      (by decide +kernel)
  have hfind : twoTemplates.find arguments = .ok files :=
    find_eq_of_ascending hroot.isAbsolute hwalk (.cons ha (.cons hb .nil)) (by decide +kernel)
      fun p => Iff.rfl
  obtain ⟨-, hdistinct, hcount⟩ := found_once_iff twoTemplates hroot hwalk hfiles hstars hfind
  -- only the first argument is loose, and it is the one file of its path
  have halone : ∀ a ∈ arguments, twoTemplates.Loose a → ∀ p ∈ files,
      Path.clean p = Path.clean a → p = a := by
    refine List.forall_mem_cons.mpr ⟨fun _ => by decide +kernel, List.forall_mem_singleton.mpr ?_⟩
    exact fun hloose => absurd hloose.isAbsolute (by decide)
  obtain ⟨results, hresults⟩ : ∃ results,
      checkAll twoTemplates.host twoTemplates.root 20 files = .ok results := by
    refine ⟨[⟨Text.ofString "a.view.php", ⟨Text.ofString "@if"⟩,
      [⟨.onLine 0 0 3, .unclosedDirective (Text.ofString "@if")⟩]⟩,
      ⟨Text.ofString "b.view.php", ⟨[]⟩, []⟩], ?_⟩
    decide +kernel
  exact ⟨hroot, hwalk, hfiles, hstars, hfind, hdistinct.mpr halone, results, hresults,
    (hcount 20 results hresults).2.mpr halone⟩

/-- **A file that is named in two spellings is found twice**, checked twice, and reported twice. -/
theorem found_twice :
    let files := [Text.ofString "/r//a.view.php", Text.ofString "/r/a.view.php"]
    let result : FileResult := ⟨Text.ofString "a.view.php", ⟨Text.ofString "@if"⟩,
      [⟨.onLine 0 0 3, .unclosedDirective (Text.ofString "@if")⟩]⟩
    Path.IsRooted twoTemplates.root ∧
      twoTemplates.find [Text.ofString "a.view.php", Text.ofString "/r//a.view.php"] = .ok files ∧
      (∃ p ∈ files, ∃ q ∈ files, p ≠ q ∧ Path.clean p = Path.clean q) ∧
      checkAll twoTemplates.host twoTemplates.root 20 files = .ok [result, result] := by
  intro files result
  have hroot : Path.IsRooted twoTemplates.root := ⟨by decide, by decide +kernel⟩
  have hrelative : twoTemplates.Stands (Text.ofString "a.view.php") [Text.ofString "/r/a.view.php"] :=
    stands_file (Text.ofString "a.view.php") (by decide) (by decide +kernel)
      (by decide +kernel)
  have habsolute :
      twoTemplates.Stands (Text.ofString "/r//a.view.php") [Text.ofString "/r//a.view.php"] :=
    stands_file (Text.ofString "a.view.php") (by decide) (by decide +kernel)
      (by decide +kernel)
  refine ⟨hroot, ?_, by decide +kernel, by decide +kernel⟩
  -- the two files come sorted by their bytes, which is not the order of the arguments
  refine find_eq_of_ascending hroot.isAbsolute
    (twoTemplateFiles.follows_walkTemplates wellFormed_twoTemplateFiles)
    (.cons hrelative (.cons habsolute .nil)) (by decide +kernel) fun p => ?_
  exact (List.Perm.swap _ _ _).mem_iff

end Finder

end ViewLint
