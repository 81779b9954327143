import Mathlib.Data.List.Sort
import ViewLint.Proofs.FileTree.Walk
import ViewLint.Proofs.Finder.Walker

/-!
# What the arguments of the command line stand for

`find_exact`: the files found for some arguments are the union of those found for each argument alone,
in ascending order and each of them once; and what is found for one argument is said without the walk.

Resolving the arguments fills one walker with the lists of all of them (`find_eq_ok_iff`), and a walker
holds each file once. The list that is sorted in the end depends only on what is in it, for an ascending
list is known by its members (`Text.eq_of_ascending`). So neither the order of the arguments nor their
number counts. An argument is a pattern, a directory or a file; the walks of the first two differ in where
they start and in their test, so both are cases of one account of a walk (`Collects.mem_iff`).
-/

namespace ViewLint

section Results

variable {α β : Type} {R : α → List β → Prop} {xs : List α}

theorem exists_results_iff :
    (∃ parts, List.Forall₂ R xs parts) ↔ ∀ x ∈ xs, ∃ part, R x part := by
  induction xs with
  | nil => exact ⟨fun _ x hx => absurd hx List.not_mem_nil, fun _ => ⟨[], .nil⟩⟩
  | cons x xs ih =>
    rw [List.forall_mem_cons, ← ih]
    constructor
    · rintro ⟨_, _ | ⟨hpart, hparts⟩⟩
      exact ⟨⟨_, hpart⟩, _, hparts⟩
    · rintro ⟨⟨part, hpart⟩, parts, hparts⟩
      exact ⟨part :: parts, .cons hpart hparts⟩

/-- Results with the same members whenever they are those of the same thing. -/
theorem mem_flatten_results
    (hR : ∀ {x part other}, R x part → R x other → ∀ p, p ∈ part ↔ p ∈ other)
    {parts : List (List β)} (h : List.Forall₂ R xs parts) (p : β) :
    p ∈ parts.flatten ↔ ∃ x ∈ xs, ∃ part, R x part ∧ p ∈ part := by
  induction h with
  | nil => simp
  | @cons x part xs parts hpart _ ih =>
    have hhead : p ∈ part ↔ ∃ other, R x other ∧ p ∈ other :=
      ⟨fun hp => ⟨part, hpart, hp⟩, fun ⟨_, hother, hp⟩ => (hR hother hpart p).mp hp⟩
    rw [List.flatten_cons, List.mem_append, ih, hhead]
    simp only [List.mem_cons, exists_eq_or_imp]

end Results

/-! ### The list that is returned -/

namespace Text

theorem pairwise_sort {texts : List Text} (h : texts.Nodup) :
    (Text.sort texts).Pairwise (· < ·) := by
  have htrans : ∀ a b c : Text, le a b = true → le b c = true → le a c = true := by
    intro a b c hab hbc
    rw [le_iff] at *
    exact List.le_trans hab hbc
  have htotal : ∀ a b : Text, (le a b || le b a) = true := by
    intro a b
    rw [Bool.or_eq_true, le_iff, le_iff]
    exact List.le_total a b
  -- sorted in the weak order, and no two of them are equal
  have hsorted := List.pairwise_mergeSort htrans htotal texts
  have hnodup : (texts.mergeSort le).Nodup := List.nodup_mergeSort.mpr h
  refine (hsorted.and hnodup).imp fun {a b} hab => ?_
  exact Std.lt_of_le_of_ne ((le_iff a b).mp hab.1) hab.2

theorem mem_sort {texts : List Text} {p : Text} : p ∈ Text.sort texts ↔ p ∈ texts :=
  List.mem_mergeSort

/-- **An ascending list is known by its members.** -/
theorem eq_of_ascending {a b : List Text} (ha : a.Pairwise (· < ·)) (hb : b.Pairwise (· < ·))
    (h : ∀ p, p ∈ a ↔ p ∈ b) : a = b := by
  have hanti : Std.Antisymm fun s t : Text => s < t :=
    ⟨fun s t hst hts => absurd hst (List.lt_asymm hts)⟩
  have hirrefl : Std.Irrefl fun s t : Text => s < t := ⟨fun s => List.lt_irrefl s⟩
  exact ha.eq_of_mem_iff hb h

end Text

theorem Walker.mem_addAll_empty {paths : List Text} {p : Text} :
    p ∈ (addAll {} paths).files ↔ p ∈ paths := by
  rw [sound_empty.mem_addAll]
  exact or_iff_right List.not_mem_nil

theorem FileSystem.isDir_eq_true_iff {files : FileSystem} {path : Text} :
    files.isDir path = true ↔ ∃ info, files.stat path = .ok info ∧ info.isDir = true := by
  unfold FileSystem.isDir
  cases files.stat path <;> simp

namespace Finder

variable {f : Finder}

/-- The arguments; without any, the root directory. -/
def named (arguments : List Text) : List Text :=
  if arguments.isEmpty then [Path.here] else arguments

theorem named_of_mem {arguments : List Text} {a : Text} (h : a ∈ arguments) :
    named arguments = arguments := by
  cases arguments with
  | nil => exact absurd h List.not_mem_nil
  | cons b arguments => rfl

theorem named_congr {arguments others : List Text} (h : ∀ a, a ∈ arguments ↔ a ∈ others) (a : Text) :
    a ∈ named arguments ↔ a ∈ named others := by
  cases arguments with
  | nil =>
    obtain rfl : others = [] := List.eq_nil_iff_forall_not_mem.mpr fun b hb =>
      absurd ((h b).mpr hb) List.not_mem_nil
    exact Iff.rfl
  | cons b rest =>
    rw [named_of_mem List.mem_cons_self, named_of_mem ((h b).mp List.mem_cons_self)]
    exact h a

section Run

variable (hroot : Path.isAbsolute f.root = true)
  (hwalk : Walk.Follows f.host.walkTemplates f.host.files)

include hroot hwalk

/-! ### All arguments -/

/-- **What is found** is what a new walker holds when the files of all arguments have been added. -/
theorem find_eq_ok_iff {arguments files : List Text} :
    f.find arguments = .ok files ↔
      ∃ parts, List.Forall₂ f.Stands (named arguments) parts ∧
        files = Text.sort (Walker.addAll {} parts.flatten).files := by
  change ((named arguments).foldlM (f.resolve f.rules) {} >>= fun w =>
    pure (Text.sort w.files)) = .ok files ↔ _
  constructor
  · -- the loop over the arguments leaves the parts, which are sorted at the end
    intro h
    obtain ⟨w, hw, hfiles⟩ := exists_of_bind_eq_ok h
    obtain ⟨parts, hparts, rfl⟩ := (foldlM_resolve_eq_ok_iff hroot hwalk).mp hw
    exact ⟨parts, hparts, (Except.ok.inj hfiles).symm⟩
  · rintro ⟨parts, hparts, rfl⟩
    rw [(foldlM_resolve_eq_ok_iff hroot hwalk).mpr ⟨parts, hparts, rfl⟩]
    rfl

/-- An argument does not stand for different files. -/
theorem Stands.mem_congr {argument : Text} {part other : List Text} (h : f.Stands argument part)
    (h' : f.Stands argument other) (p : Text) : p ∈ part ↔ p ∈ other := by
  -- a new walker that resolves the argument holds both
  have hw := (resolve_eq_ok_iff (w := {}) hroot hwalk).mpr ⟨part, h, rfl⟩
  have hw' := (resolve_eq_ok_iff (w := {}) hroot hwalk).mpr ⟨other, h', rfl⟩
  have hsame : Walker.addAll {} part = Walker.addAll {} other := Except.ok.inj (hw.symm.trans hw')
  rw [← Walker.mem_addAll_empty, hsame, Walker.mem_addAll_empty]

theorem pairwise_find {arguments files : List Text} (h : f.find arguments = .ok files) :
    files.Pairwise (· < ·) := by
  obtain ⟨parts, -, rfl⟩ := (find_eq_ok_iff hroot hwalk).mp h
  exact Text.pairwise_sort (Walker.sound_empty.addAll _).nodup

theorem mem_find_iff_stands {arguments files : List Text} (h : f.find arguments = .ok files)
    (p : Text) :
    p ∈ files ↔ ∃ a ∈ named arguments, ∃ part, f.Stands a part ∧ p ∈ part := by
  obtain ⟨parts, hparts, rfl⟩ := (find_eq_ok_iff hroot hwalk).mp h
  rw [Text.mem_sort, Walker.mem_addAll_empty,
    mem_flatten_results (fun h h' => h.mem_congr hroot hwalk h') hparts]

theorem exists_find_iff (arguments : List Text) :
    (∃ files, f.find arguments = .ok files) ↔ ∀ a ∈ named arguments, ∃ part, f.Stands a part := by
  rw [← exists_results_iff]
  constructor
  · rintro ⟨files, hfiles⟩
    obtain ⟨parts, hparts, -⟩ := (find_eq_ok_iff hroot hwalk).mp hfiles
    exact ⟨parts, hparts⟩
  · rintro ⟨parts, hparts⟩
    exact ⟨_, (find_eq_ok_iff hroot hwalk).mpr ⟨parts, hparts, rfl⟩⟩

/-- What is found is the ascending list of what the arguments stand for. -/
theorem find_eq_of_ascending {arguments files : List Text} {parts : List (List Text)}
    (hparts : List.Forall₂ f.Stands (named arguments) parts) (hascending : files.Pairwise (· < ·))
    (hmem : ∀ p, p ∈ files ↔ p ∈ parts.flatten) : f.find arguments = .ok files := by
  refine (find_eq_ok_iff hroot hwalk).mpr ⟨parts, hparts, ?_⟩
  refine Text.eq_of_ascending hascending ?_ fun p => ?_
  · exact Text.pairwise_sort (Walker.sound_empty.addAll _).nodup
  · rw [hmem p, Text.mem_sort, Walker.mem_addAll_empty]

/-- What is found for one argument alone. -/
theorem exists_stands_of_find {argument : Text} {files : List Text}
    (h : f.find [argument] = .ok files) :
    ∃ part, f.Stands argument part ∧ ∀ p, p ∈ files ↔ p ∈ part := by
  obtain ⟨parts, hparts, rfl⟩ := (find_eq_ok_iff hroot hwalk).mp h
  obtain _ | ⟨hpart, _ | _⟩ := hparts
  refine ⟨_, hpart, fun p => ?_⟩
  rw [Text.mem_sort, Walker.mem_addAll_empty, List.flatten_singleton]

/-- **The files of some arguments are those of each argument alone.** -/
theorem mem_find_iff_alone {arguments files : List Text} (h : f.find arguments = .ok files)
    (p : Text) :
    p ∈ files ↔ ∃ a ∈ named arguments, ∃ part, f.find [a] = .ok part ∧ p ∈ part := by
  rw [mem_find_iff_stands hroot hwalk h]
  refine exists_congr fun a => and_congr_right fun _ => ?_
  constructor
  · -- `a` stands for a part, so it can be given alone, and that finds the same files
    rintro ⟨part, hpart, hp⟩
    obtain ⟨found, hfound⟩ := (exists_find_iff hroot hwalk [a]).mpr
      (List.forall_mem_singleton.mpr ⟨part, hpart⟩)
    obtain ⟨other, hother, hmem⟩ := exists_stands_of_find hroot hwalk hfound
    exact ⟨found, hfound, (hmem p).mpr ((hpart.mem_congr hroot hwalk hother p).mp hp)⟩
  · -- what is found for `a` alone is what it stands for
    rintro ⟨found, hfound, hp⟩
    obtain ⟨part, hpart, hmem⟩ := exists_stands_of_find hroot hwalk hfound
    exact ⟨part, hpart, (hmem p).mp hp⟩

theorem exists_find_iff_alone (arguments : List Text) :
    (∃ files, f.find arguments = .ok files) ↔
      ∀ a ∈ named arguments, ∃ files, f.find [a] = .ok files := by
  rw [exists_find_iff hroot hwalk]
  refine forall₂_congr fun a _ => ?_
  rw [exists_find_iff hroot hwalk]
  exact (List.forall_mem_singleton (p := fun a => ∃ part, f.Stands a part)).symm

/-- **Neither the order nor the number of the arguments counts.** -/
theorem find_congr {arguments others : List Text} (h : ∀ a, a ∈ arguments ↔ a ∈ others)
    {files : List Text} (hfind : f.find arguments = .ok files) : f.find others = .ok files := by
  -- the others can be resolved as well, and to the same files
  obtain ⟨found, hfound⟩ : ∃ found, f.find others = .ok found := by
    refine (exists_find_iff hroot hwalk others).mpr fun a ha => ?_
    exact (exists_find_iff hroot hwalk arguments).mp ⟨files, hfind⟩ a ((named_congr h a).mpr ha)
  have hsame : ∀ p, p ∈ found ↔ p ∈ files := by
    intro p
    rw [mem_find_iff_stands hroot hwalk hfound, mem_find_iff_stands hroot hwalk hfind]
    exact exists_congr fun a => and_congr_left' (named_congr h a).symm
  rw [hfound, Text.eq_of_ascending (pairwise_find hroot hwalk hfound)
    (pairwise_find hroot hwalk hfind) hsame]

/-! ### One argument -/

/-- What is found for a directory comes from one walk. -/
theorem exists_collects_of_find {d : Text} (hpattern : isPattern d = false)
    (hdir : f.host.files.isDir (f.target d) = true) {files : List Text}
    (h : f.find [d] = .ok files) :
    ∃ part, f.Collects f.suffixTest (f.target d) part ∧ ∀ p, p ∈ files ↔ p ∈ part := by
  obtain ⟨info, hlooked, hisDir⟩ := FileSystem.isDir_eq_true_iff.mp hdir
  obtain ⟨part, hpart, hmem⟩ := exists_stands_of_find hroot hwalk h
  cases hpart with
  | pattern hother => exact absurd (hpattern.symm.trans hother) Bool.false_ne_true
  | file _ hlooked' hfile =>
    obtain rfl := Except.ok.inj (hlooked.symm.trans hlooked')
    exact absurd (hfile.symm.trans hisDir) Bool.false_ne_true
  | dir _ _ _ hcollected => exact ⟨part, hcollected, hmem⟩

/-- **What is found for a directory**, or for a link to one. -/
theorem mem_find_dir_iff (hfiles : f.host.files.Lawful) {d : Text} (hpattern : isPattern d = false)
    (hdir : f.host.files.isDir (f.target d) = true) {files : List Text}
    (h : f.find [d] = .ok files) (p : Text) :
    p ∈ files ↔
      ∃ names, f.Reaches (f.target d) names ∧ p = Path.below (f.target d) names ∧ f.suffix <:+ p := by
  obtain ⟨part, hcollected, hmem⟩ := exists_collects_of_find hroot hwalk hpattern hdir h
  rw [hmem p, hcollected.mem_iff hfiles (isAbsolute_target hroot d)]
  unfold suffixTest
  simp only [Except.ok.injEq, List.isSuffixOf_iff_suffix]

/-- **What is found for a pattern.** -/
theorem mem_find_pattern_iff (hfiles : f.host.files.Lawful) {g : Text} (hpattern : isPattern g = true)
    {files : List Text} (h : f.find [g] = .ok files) (p : Text) :
    p ∈ files ↔ ∃ names, f.Reaches f.root names ∧ p = Path.below f.root names ∧
      ∃ way, Path.relative f.root p = some way ∧ f.host.patterns.Matches g way := by
  obtain ⟨part, hpart, hmem⟩ := exists_stands_of_find hroot hwalk h
  rw [hmem p]
  cases hpart with
  | dir hother => exact absurd (hother.symm.trans hpattern) Bool.false_ne_true
  | file hother => exact absurd (hother.symm.trans hpattern) Bool.false_ne_true
  -- an argument with a wildcard: what was collected is filtered by the match of its way
  | pattern _ _ hcollected =>
    rw [hcollected.mem_iff hfiles hroot]
    refine exists_congr fun names => and_congr_right fun _ => and_congr_right fun _ => ?_
    unfold matchTest Patterns.Matches
    cases Path.relative f.root p with
    | none => simp
    | some way => cases hmatched : f.host.patterns.matches? g way <;> simp [hmatched]

/-- **What is found for a file.** -/
theorem find_file {a : Text} (hpattern : isPattern a = false) {info : FileInfo}
    (hlooked : f.host.files.stat (f.target a) = .ok info) (hfile : info.isDir = false) :
    f.find [a] = .ok [f.target a] := by
  refine find_eq_of_ascending hroot hwalk (.cons (.file hpattern hlooked hfile) .nil)
    (List.pairwise_singleton _ _) ?_
  exact fun p => Iff.rfl

end Run

/-- **What is found.** Let the root be absolute, and let walks of the file system do what a walk does. For
every suffix, matcher and ignore rules, and for all arguments:

* The arguments can be resolved if and only if each of them can be resolved alone.
* Then the files are in ascending order, none of them twice, and they are those found for each argument
  alone.
* So the arguments may be put in another order and repeated.
* A directory stands for the files below it that end in the suffix, unless the file is ignored, or a
  directory on the way to it is ignored or called `.git` (`Reaches`). A link to a directory stands for
  itself at most, and for nothing below the directory.
* A pattern stands, in the same way, for the files below the root whose path from the root it matches.
* A file stands for itself.

Ignored is what the rules of the root say of a path from the root. They do not apply to a path that
starts with two dots, which counts as one that leaves the root. -/
theorem find_exact (f : Finder) (hroot : Path.isAbsolute f.root = true)
    (hwalk : Walk.Follows f.host.walkTemplates f.host.files) (hfiles : f.host.files.Lawful) :
    (∀ arguments, (∃ files, f.find arguments = .ok files) ↔
      ∀ a ∈ named arguments, ∃ files, f.find [a] = .ok files) ∧
    (∀ arguments files, f.find arguments = .ok files → files.Pairwise (· < ·) ∧
      ∀ p, p ∈ files ↔ ∃ a ∈ named arguments, ∃ part, f.find [a] = .ok part ∧ p ∈ part) ∧
    (∀ arguments others, (∀ a, a ∈ arguments ↔ a ∈ others) →
      ∀ files, f.find arguments = .ok files ↔ f.find others = .ok files) ∧
    (∀ d files, isPattern d = false → f.host.files.isDir (f.target d) = true →
      f.find [d] = .ok files → ∃ info, f.host.files.lstat (f.target d) = .ok info ∧
        (info.isDir = true → ∀ p, p ∈ files ↔ ∃ names, names ≠ [] ∧
          f.Reaches (f.target d) names ∧ p = Path.below (f.target d) names ∧ f.suffix <:+ p) ∧
        (info.isDir = false → ∀ p, p ∈ files ↔
          p = f.target d ∧ ¬ f.Ignores (f.target d) ∧ f.suffix <:+ p)) ∧
    (∀ g files, isPattern g = true → f.find [g] = .ok files → ∀ p, p ∈ files ↔ ∃ names,
      f.Reaches f.root names ∧ p = Path.below f.root names ∧
        ∃ way, Path.relative f.root p = some way ∧ f.host.patterns.Matches g way) ∧
    (∀ a info, isPattern a = false → f.host.files.stat (f.target a) = .ok info →
      info.isDir = false → f.find [a] = .ok [f.target a]) := by
  refine ⟨exists_find_iff_alone hroot hwalk,
    fun arguments files h => ⟨pairwise_find hroot hwalk h, mem_find_iff_alone hroot hwalk h⟩,
    fun arguments others h files =>
      ⟨find_congr hroot hwalk h, find_congr hroot hwalk fun a => (h a).symm⟩, ?_,
    fun g files hpattern hfind => mem_find_pattern_iff hroot hwalk hfiles hpattern hfind,
    fun a info hpattern hlooked hfile => find_file hroot hwalk hpattern hlooked hfile⟩
  intro d files hpattern hdir hfind
  have hmem := mem_find_dir_iff hroot hwalk hfiles hpattern hdir hfind
  obtain ⟨-, ⟨info, -, hlooked, -⟩, -⟩ := exists_collects_of_find hroot hwalk hpattern hdir hfind
  refine ⟨info, hlooked, fun hisDir p => ?_, fun hlink p => ?_⟩
  · -- the directory itself is no file
    rw [hmem p]
    refine exists_congr fun names => (and_iff_right_of_imp ?_).symm
    rintro ⟨⟨hleads, -⟩, -⟩ rfl
    obtain ⟨info', hlooked', hfile⟩ := hleads
    obtain rfl := Except.ok.inj (hlooked.symm.trans hlooked')
    exact absurd (hfile.symm.trans hisDir) Bool.false_ne_true
  · rw [hmem p]
    have hlast : f.host.files.Leads (f.target d) [] := ⟨info, hlooked, hlink⟩
    constructor
    · rintro ⟨names, ⟨hleads, hincluded⟩, rfl, hends⟩
      obtain rfl := hlast.eq_nil_of_nil hleads
      exact ⟨rfl, mt excludes_nil_iff.mpr hincluded, hends⟩
    · rintro ⟨rfl, hkept, hends⟩
      exact ⟨[], ⟨hlast, mt excludes_nil_iff.mp hkept⟩, rfl, hends⟩

/-- Ignored files, a file in a directory that is passed over, one without the suffix, and a link to a
directory. -/
def mixedFiles : FileTree :=
  { ((((((({} : FileTree).write (Text.ofString "/r/.gitignore")
      (.file (Text.ofString "*.tmp.php\n"))).write
      (Text.ofString "/r/v/a.php") (.file [])).write
      (Text.ofString "/r/v/b.tmp.php") (.file [])).write
      (Text.ofString "/r/v/.git/c.php") (.file [])).write
      (Text.ofString "/r/n.txt") (.file [])).write
      (Text.ofString "/r/l/d.php") (.file [])) with
    links := [Text.ofString "/r/l"] }

/-- Their project. Its root is not clean. -/
def mixedProject : Finder := ⟨mixedFiles.host, Text.ofString "/r/", Text.ofString ".php"⟩

theorem wellFormed_mixedFiles : mixedFiles.WellFormed :=
  ((((((FileTree.wellFormed_empty.write _ (.file _)).write _ (.file _)).write _ (.file _)).write _
    (.file _)).write _ (.file _)).write _ (.file _)).withLinks _

/-- A directory, a file in a spelling that is not clean, a link to a directory, and a pattern. -/
def mixedArguments : List Text :=
  [Text.ofString "v", Text.ofString "/r//n.txt", Text.ofString "l", Text.ofString "*.txt"]

/-- Each argument is resolved alone, and so the arguments are resolved together, in any order. What the
directory stands for is reached from it, and the link stands for nothing. -/
theorem find_exact_mixed :
    let files := [Text.ofString "/r//n.txt", Text.ofString "/r/n.txt", Text.ofString "/r/v/a.php"]
    Path.isAbsolute mixedProject.root = true ∧
      Walk.Follows mixedProject.host.walkTemplates mixedProject.host.files ∧
      mixedProject.host.files.Lawful ∧
      mixedProject.find mixedArguments = .ok files ∧
      mixedProject.find (mixedArguments.reverse ++ mixedArguments) = .ok files ∧
      (∃ names, names ≠ [] ∧ mixedProject.Reaches (Text.ofString "/r/v") names ∧
        Text.ofString "/r/v/a.php" = Path.below (Text.ofString "/r/v") names) ∧
      mixedProject.host.files.isDir (Text.ofString "/r/l") = true ∧
      mixedProject.find [Text.ofString "l"] = .ok [] := by
  intro files
  have hroot : Path.isAbsolute mixedProject.root = true := by decide
  have hwalk : Walk.Follows mixedProject.host.walkTemplates mixedProject.host.files :=
    mixedFiles.follows_walkTemplates wellFormed_mixedFiles
  have hfiles : mixedProject.host.files.Lawful := mixedFiles.lawful_host wellFormed_mixedFiles
  obtain ⟨hok, hfound, hcongr, hdir, -⟩ := find_exact mixedProject hroot hwalk hfiles
  have hv : mixedProject.find [Text.ofString "v"] = .ok [Text.ofString "/r/v/a.php"] := by
    decide +kernel
  have hfile : mixedProject.find [Text.ofString "/r//n.txt"] = .ok [Text.ofString "/r//n.txt"] := by
    decide +kernel
  have hlink : mixedProject.find [Text.ofString "l"] = .ok [] := by decide +kernel
  have hpattern : mixedProject.find [Text.ofString "*.txt"] = .ok [Text.ofString "/r/n.txt"] := by
    decide +kernel
  have hall : mixedProject.find mixedArguments = .ok files := by
    -- each argument alone is found, so the four together are, and the union is in order
    have hnamed : named mixedArguments = mixedArguments := rfl
    have hascending : files.Pairwise (· < ·) := by decide +kernel
    obtain ⟨found, hfind⟩ := (hok mixedArguments).mpr <| List.forall_mem_cons.mpr
      ⟨⟨_, hv⟩, List.forall_mem_cons.mpr ⟨⟨_, hfile⟩, List.forall_mem_cons.mpr
        ⟨⟨_, hlink⟩, List.forall_mem_singleton.mpr ⟨_, hpattern⟩⟩⟩⟩
    obtain ⟨hpairwise, hmem⟩ := hfound _ _ hfind
    rw [hfind, Text.eq_of_ascending hpairwise hascending fun p => ?_]
    rw [hmem p, hnamed]
    simp only [mixedArguments, files, List.mem_cons, List.not_mem_nil, or_false, exists_eq_or_imp,
      exists_eq_left, hv, hpattern, hfile, hlink, Except.ok.injEq, exists_eq_left', false_or]
    rw [or_comm, or_assoc]
  have hsame : ∀ a, a ∈ mixedArguments ↔ a ∈ mixedArguments.reverse ++ mixedArguments := by
    intro a
    rw [List.mem_append, List.mem_reverse, or_self]
  have htarget : mixedProject.target (Text.ofString "v") = Text.ofString "/r/v" := by
    decide +kernel
  refine ⟨hroot, hwalk, hfiles, hall, (hcongr _ _ hsame files).mp hall, ?_, by decide +kernel, hlink⟩
  -- the directory is searched itself, not through a link, so its file lies below it
  obtain ⟨info, hlooked, hbelow, -⟩ := hdir _ _ (by decide) (by decide +kernel) hv
  have hisDir : info.isDir = true := by
    have hlookedDir : (mixedProject.host.files.lstat
        (mixedProject.target (Text.ofString "v"))).toOption.any FileInfo.isDir = true := by
      decide +kernel
    rw [hlooked] at hlookedDir
    exact hlookedDir
  obtain ⟨names, hne, hreaches, heq, -⟩ :=
    (hbelow hisDir (Text.ofString "/r/v/a.php")).mp List.mem_cons_self
  rw [htarget] at hreaches heq
  exact ⟨names, hne, hreaches, heq⟩

/-- A file whose name starts with two dots, in a project that ignores all templates. -/
def dottedFiles : FileTree :=
  (({} : FileTree).write (Text.ofString "/r/.gitignore") (.file (Text.ofString "*.view.php"))).write
    (Text.ofString "/r/..x.view.php") (.file [])

/-- Their project. -/
def dottedProject : Finder := ⟨dottedFiles.host, Text.ofString "/r", Text.ofString ".view.php"⟩

/-- **A file is found although the ignore file of its project rules it out.** It is in the root directory,
but its path from there starts with two dots. -/
theorem ignored_file_found :
    let file := Text.ofString "..x.view.php"
    dottedFiles.WellFormed ∧
      dottedProject.host.files.list dottedProject.root =
        .ok [⟨file, false⟩, ⟨Text.ofString ".gitignore", false⟩] ∧
      dottedProject.rules = some [Text.ofString "*.view.php"] ∧
      Path.relative dottedProject.root (Text.ofString "/r/..x.view.php") = some file ∧
      dottedProject.host.ignores [Text.ofString "*.view.php"] file = true ∧
      dottedProject.find [] = .ok [Text.ofString "/r/..x.view.php"] := by
  intro file
  have hfiles : dottedFiles.WellFormed :=
    (FileTree.wellFormed_empty.write _ (.file _)).write _ (.file _)
  exact ⟨hfiles, by decide +kernel, by decide +kernel, by decide +kernel, by decide +kernel,
    by decide +kernel⟩

end Finder

end ViewLint
