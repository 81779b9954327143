import ViewLint.Proofs.Finder.Arguments
import ViewLint.Proofs.Glob.Suffix
import ViewLint.Settings

/-!
# The editor and the command line choose the same files

Which files are templates is decided twice. The editor asks a selector, which matches the path of a
document against a pattern with the template suffix in it; the command line walks the project and
keeps the files whose path ends in the suffix.

Of the matcher it is only asked that it reads the pattern of the suffix part by part
(`Patterns.ReadsSuffix`). Then the selector takes a path if the suffix, read as a pattern, matches some end
of it (`Selector.selects_iff`). This is the same as ending in the suffix if the suffix means itself, that
is for every suffix without bytes that mean something else in patterns and without replacement characters
(`selects_iff_mem_find`). It is not the same in general (`bracketSuffix_selects_other`).
-/

namespace ViewLint

open Text (codes)

/-! ### What the command line finds -/

namespace Finder

variable {f : Finder} {argument : Text} {files : List Text}

/-- No argument means the root directory. -/
theorem find_nil (f : Finder) : f.find [] = f.find [Path.here] := rfl

/-- **A walk of a directory keeps a file that nothing excludes if its path ends in the suffix.** -/
theorem below_mem_find_iff (hroot : Path.isAbsolute f.root = true)
    (hwalk : Walk.Follows f.host.walkTemplates f.host.files) (hfiles : f.host.files.Lawful)
    (hpattern : isPattern argument = false) (hdir : f.host.files.isDir (f.target argument) = true)
    (h : f.find [argument] = .ok files) {names : List Text} (hreaches : f.Reaches (f.target argument) names) :
    Path.below (f.target argument) names ∈ files ↔
      f.suffix <:+ Path.below (f.target argument) names := by
  rw [mem_find_dir_iff hroot hwalk hfiles hpattern hdir h]
  constructor
  · rintro ⟨-, -, -, hends⟩
    exact hends
  · exact fun hends => ⟨names, hreaches, rfl, hends⟩

end Finder

/-! ### What the editor selects -/

namespace Selector

variable {m : Patterns} {suffix : Text}

/-- **The selector of a suffix takes the paths of which the suffix, as a pattern, matches some end**; the
slash at the front of the path does not count. -/
theorem selects_iff (hdot : suffix.head? = some (Text.byte '.')) (hreads : m.ReadsSuffix suffix)
    (languageIds : List Text) {path : Text} (hpath : Path.isAbsolute path = true) :
    (ofSuffix m languageIds suffix).selects [] path = true ↔
      ∃ head tail, path = Path.slash :: (head ++ tail) ∧ m.Matches suffix tail := by
  obtain ⟨rest, rfl⟩ := Path.exists_cons_of_isAbsolute hpath
  have hrest : Text.dropHead [Path.slash] (Path.slash :: rest) = rest :=
    Text.dropHead_append [Path.slash] rest
  -- the pattern is `**/*` and the suffix, and it is asked for the path without its first slash
  have hselects : (ofSuffix m languageIds suffix).selects [] (Path.slash :: rest) = true ↔
      m.Matches (Text.ofString "**/*" ++ suffix) rest := by
    obtain ⟨tail, rfl⟩ := List.head?_eq_some_iff.mp hdot
    unfold selects
    rw [hrest]
    exact beq_iff_eq
  rw [hselects, hreads.matches_iff]
  simp only [List.cons.injEq, true_and]

/-- **The selector of a literal suffix takes the paths that end in it**, character by character. -/
theorem selects_iff_of_isLiteral (hdot : suffix.head? = some (Text.byte '.'))
    (hreads : m.ReadsSuffix suffix) (hlit : Patterns.IsLiteral suffix) (languageIds : List Text)
    {path : Text} (hpath : Path.isAbsolute path = true) :
    (ofSuffix m languageIds suffix).selects [] path = true ↔ codes suffix <:+ codes path := by
  rw [selects_iff hdot hreads languageIds hpath]
  obtain ⟨rest, rfl⟩ := Path.exists_cons_of_isAbsolute hpath
  have hslash : codes (Path.slash :: rest) = 47 :: codes rest :=
    Text.codes_cons_of_ascii (by decide) rest
  -- the suffix is not the whole path, which starts with a slash
  have hcodes : codes suffix ≠ 47 :: codes rest := by
    obtain ⟨tail, rfl⟩ := List.head?_eq_some_iff.mp hdot
    rw [Text.codes_cons_of_ascii (by decide)]
    intro heq
    exact absurd (List.cons.inj heq).1 (by decide)
  rw [hslash, List.suffix_cons_iff, or_iff_right hcodes, ← Patterns.exists_tail_iff hdot]
  simp only [List.cons.injEq, true_and, hreads.plain hlit]

end Selector

theorem Settings.head?_viewSuffix {given s : Settings} (h : given.validate = .ok s) :
    s.viewSuffix.head? = some (Text.byte '.') := by
  unfold validate at h
  split at h
  · exact absurd h (by simp)
  · split at h
    · exact absurd h (by simp)
    · rename_i hhead
      obtain rfl := Except.ok.inj h
      simpa using hhead

/-- **When the editor and the command line agree on which files are templates.** Let the settings be
accepted, and let the matcher of the selector read the pattern of their suffix part by part. Let the command
line walk a directory, that of its argument or, without arguments, the root, and let names lead from there
to a file that nothing excludes. Its path is absolute and clean, and for every suffix:

* The file is found if and only if its path ends in the suffix.
* The selector takes the path if and only if the suffix, as a pattern, matches some end of it.

If the suffix is literal in patterns, the selector takes the path if and only if it ends in the suffix
character by character. If the suffix has no replacement character either, the selector takes the path if
and only if the file is found. -/
theorem selects_iff_mem_find {given s : Settings} (hvalid : given.validate = .ok s) {m : Patterns}
    (hreads : m.ReadsSuffix s.viewSuffix) (languageIds : List Text) (f : Finder)
    (hsuffix : f.suffix = s.viewSuffix) (hroot : Path.isAbsolute f.root = true)
    (hwalk : Walk.Follows f.host.walkTemplates f.host.files) (hfiles : f.host.files.Lawful)
    {arguments : List Text} {argument : Text}
    (hargument : arguments = [argument] ∨ arguments = [] ∧ argument = Path.here)
    (hpattern : Finder.isPattern argument = false)
    (hdir : f.host.files.isDir (f.target argument) = true)
    {files : List Text} (hfind : f.find arguments = .ok files) {names : List Text} (hne : names ≠ [])
    (hleads : f.host.files.Leads (f.target argument) names)
    (hincluded : ¬ f.Excludes (f.target argument) names) :
    let p := Path.below (f.target argument) names
    let selector := Selector.ofSuffix m languageIds s.viewSuffix
    Path.IsRooted p ∧
    (p ∈ files ↔ s.viewSuffix <:+ p) ∧
    (selector.selects [] p = true ↔
      ∃ head tail, p = Path.slash :: (head ++ tail) ∧ m.Matches s.viewSuffix tail) ∧
    (Patterns.IsLiteral s.viewSuffix →
      (selector.selects [] p = true ↔ codes s.viewSuffix <:+ codes p) ∧
      (Text.replacement ∉ codes s.viewSuffix → (selector.selects [] p = true ↔ p ∈ files))) := by
  intro p selector
  have hdot := Settings.head?_viewSuffix hvalid
  have habs := Finder.isAbsolute_target hroot argument
  have hp : Path.IsRooted p := by
    change Path.IsRooted (Path.below (f.target argument) names)
    rw [← Path.below_clean habs hne]
    exact Path.isRooted_below (Path.isRooted_clean habs) (hleads.proper hfiles habs)
  have hwalked : f.find [argument] = .ok files := by
    rcases hargument with rfl | ⟨rfl, rfl⟩
    · exact hfind
    · exact f.find_nil.symm.trans hfind
  have hfound : p ∈ files ↔ s.viewSuffix <:+ p := by
    rw [← hsuffix]
    exact Finder.below_mem_find_iff hroot hwalk hfiles hpattern hdir hwalked ⟨hleads, hincluded⟩
  refine ⟨hp, hfound, Selector.selects_iff hdot hreads languageIds hp.isAbsolute, fun hlit => ?_⟩
  have hselects := Selector.selects_iff_of_isLiteral hdot hreads hlit languageIds hp.isAbsolute
  refine ⟨hselects, fun hwhole => ?_⟩
  -- without replacement characters the bytes of the suffix are known by its code points
  have hhead : ∀ c, s.viewSuffix.head? = some c → Text.isContinuation c = false := by
    intro c hc
    obtain rfl := Option.some.inj (hdot.symm.trans hc)
    decide
  rw [hselects, hfound, Text.suffix_iff_codes_suffix hhead hwhole]

/-- A file whose whole name is the suffix, beside a directory that is passed over. -/
def bareTemplate : FileTree :=
  (({} : FileTree).write (Text.ofString "/r/.git/a.view.php") (.file [])).write
    (Text.ofString "/r/v/.view.php") (.file [])

/-- Both sides take the file whose whole name is the suffix. -/
theorem selects_iff_mem_find_bareTemplate :
    let s : Settings := ({} : Settings).withDefaults
    let f : Finder := ⟨bareTemplate.host, Text.ofString "/r", s.viewSuffix⟩
    s.validate = .ok s ∧ f.host.patterns.ReadsSuffix s.viewSuffix ∧
      Patterns.IsLiteral s.viewSuffix ∧ Text.replacement ∉ codes s.viewSuffix ∧
      f.find [] = .ok [Text.ofString "/r/v/.view.php"] ∧
      (Selector.ofSuffix f.host.patterns s.languageIds s.viewSuffix).selects []
        (Text.ofString "/r/v/.view.php") = true := by
  intro s f
  have hvalid : s.validate = .ok s := by decide +kernel
  have hlit : Patterns.IsLiteral s.viewSuffix := by decide +kernel
  have hreads : f.host.patterns.ReadsSuffix s.viewSuffix := Glob.readsSuffix (by decide) hlit
  have hwhole : Text.replacement ∉ codes s.viewSuffix := by decide +kernel
  have hfind : f.find [] = .ok [Text.ofString "/r/v/.view.php"] := by decide +kernel
  have htree : bareTemplate.WellFormed :=
    (FileTree.wellFormed_empty.write _ (.file [])).write _ (.file [])
  -- the file is two steps below the root, each of them listed and of its kind
  have hleads : f.host.files.Leads (f.target Path.here)
      [Text.ofString "v", Text.ofString ".view.php"] := by
    refine ⟨⟨⟨Text.ofString "r", true⟩, by decide +kernel, rfl⟩, ?_,
      ⟨⟨Text.ofString "v", true⟩, by decide +kernel, rfl⟩, ?_,
      ⟨Text.ofString ".view.php", false⟩, by decide +kernel, rfl⟩
    · exact ⟨[⟨Text.ofString ".git", true⟩, ⟨Text.ofString "v", true⟩], by decide +kernel, by decide⟩
    · exact ⟨[⟨Text.ofString ".view.php", false⟩], by decide +kernel, by decide⟩
  have hall := selects_iff_mem_find hvalid hreads s.languageIds f rfl (by decide)
    (bareTemplate.follows_walkTemplates htree) (bareTemplate.lawful_host htree) (Or.inr ⟨rfl, rfl⟩)
    (by decide) (by decide +kernel) hfind (List.cons_ne_nil _ _) hleads (by decide +kernel)
  have hpath : Path.below (f.target Path.here) [Text.ofString "v", Text.ofString ".view.php"] =
      Text.ofString "/r/v/.view.php" := by
    decide +kernel
  -- the suffix has no pattern bytes, which is the case of the two agreeing
  obtain ⟨-, -, -, hliteral⟩ := hall
  rw [hpath] at hliteral
  exact ⟨hvalid, hreads, hlit, hwhole, hfind, ((hliteral hlit).2 hwhole).mpr List.mem_cons_self⟩

/-- Two files, of which one has the suffix and one is matched by it. -/
def bracketFiles : FileTree :=
  (({} : FileTree).write (Text.ofString "/x.v.php") (.file [])).write
    (Text.ofString "/x.[v].php") (.file [])

/-- **With a bracket in the suffix the editor selects another file than the command line finds.** -/
theorem bracketSuffix_selects_other :
    let s : Settings := ({ viewSuffix := Text.ofString ".[v].php" } : Settings).withDefaults
    let f : Finder := ⟨bracketFiles.host, Text.ofString "/", s.viewSuffix⟩
    let selector := Selector.ofSuffix f.host.patterns s.languageIds s.viewSuffix
    s.validate = .ok s ∧ bracketFiles.WellFormed ∧
      ¬ f.Excludes (Text.ofString "/") [Text.ofString "x.[v].php"] ∧
      f.find [] = .ok [Text.ofString "/x.[v].php"] ∧
      selector.selects [] (Text.ofString "/x.[v].php") = false ∧
      selector.selects [] (Text.ofString "/x.v.php") = true := by
  intro s f selector
  have htree : bracketFiles.WellFormed :=
    (FileTree.wellFormed_empty.write _ (.file [])).write _ (.file [])
  exact ⟨by decide +kernel, htree, by decide +kernel, by decide +kernel, by decide +kernel,
    by decide +kernel⟩

end ViewLint
