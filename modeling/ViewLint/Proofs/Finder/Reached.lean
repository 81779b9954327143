import Mathlib.Data.List.Infix
import ViewLint.Finder
import ViewLint.Proofs.FileSystem.Walk

/-!
# What a walk of the finder gets to

The finder walks the directory of an argument, or the root for a pattern. A walk passes over what the
ignore rules of the root exclude and over directories called `.git`, but never over the directory that
it starts from. So a file is found by its way from that directory (`Finder.Reaches`): names lead to it,
and nothing on the way is excluded (`Finder.visits_and_kept_iff`).

The directory may be spelled in any way, as long as its path is absolute. Only the way down counts, and
every path below the directory is clean.
-/

namespace ViewLint

namespace Finder

/-- Do the ignore rules of the root apply to a path? -/
def Ignores (f : Finder) (path : Text) : Prop := f.ignored f.rules path = true

/-- Does a walk of a directory pass over the file to which some names lead? The file is ignored, or one
of the directories on the way is ignored or called `.git`. -/
def Excludes (f : Finder) (dir : Text) (names : List Text) : Prop :=
  f.Ignores (Path.below dir names) ∨ ∃ ms, ms <+: names ∧ ms ≠ names ∧ ms ≠ [] ∧
    (ms.getLast? = some (Text.ofString ".git") ∨ f.Ignores (Path.below dir ms))

/-- **The names lead from the directory to a file that a walk gets to.** -/
structure Reaches (f : Finder) (dir : Text) (names : List Text) : Prop where
  leads : f.host.files.Leads dir names
  included : ¬ f.Excludes dir names

instance (f : Finder) (path : Text) : Decidable (f.Ignores path) :=
  inferInstanceAs (Decidable (_ = true))

instance (f : Finder) (dir : Text) (names : List Text) : Decidable (f.Excludes dir names) :=
  decidable_of_iff
    (f.Ignores (Path.below dir names) ∨ ∃ ms ∈ names.inits, ms ≠ names ∧ ms ≠ [] ∧
      (ms.getLast? = some (Text.ofString ".git") ∨ f.Ignores (Path.below dir ms)))
    (by simp only [Excludes, List.mem_inits])

variable {f : Finder}

/-- With no names, it counts only whether the start is ignored. -/
theorem excludes_nil_iff {dir : Text} : f.Excludes dir [] ↔ f.Ignores dir := by
  refine or_iff_left ?_
  rintro ⟨ms, hms, hproperly, -⟩
  exact hproperly (List.prefix_nil.mp hms)

theorem target_of_isAbsolute {argument : Text} (h : Path.isAbsolute argument = true) :
    f.target argument = argument :=
  if_pos h

theorem isAbsolute_target (hroot : Path.isAbsolute f.root = true) (argument : Text) :
    Path.isAbsolute (f.target argument) = true := by
  unfold target
  split
  · next habs => exact habs
  · exact (Path.isRooted_join hroot argument).isAbsolute

section Walk

variable {dir : Text} (hdir : Path.isAbsolute dir = true) (hfiles : f.host.files.Lawful)

include hdir hfiles

/-- A directory on the way is entered, unless it is ignored or called `.git`. -/
theorem enters_below_iff {ms : List Text} (hms : ∀ s ∈ ms, Path.IsProper s) (hne : ms ≠ [])
    {info : FileInfo} (hlooked : f.host.files.lstat (Path.below dir ms) = .ok info) :
    f.enters f.rules dir (Path.below dir ms) info = true ↔
      ¬ (ms.getLast? = some (Text.ofString ".git") ∨ f.Ignores (Path.below dir ms)) := by
  have hrooted := Path.isRooted_clean hdir
  have hname : ms.getLast? = some info.name := hfiles.name_below hdir hms hne hlooked
  -- the way down does not lead back to the start
  have hbelow : Path.below dir ms ≠ dir := by
    intro heq
    have hsegments := congrArg Path.segments heq
    rw [← Path.below_clean hdir hne, Path.segments_below hrooted hms, Path.segments_clean] at hsegments
    exact hne (List.append_right_eq_self.mp hsegments)
  unfold enters Ignores
  rw [hname, Option.some.injEq]
  simp [hbelow]

/-- **The files that a walk comes to, and that are not ignored, are those that it gets to.** The
directory where the walk starts is always entered. -/
theorem visits_and_kept_iff {names : List Text} :
    f.host.files.Visits (f.enters f.rules dir) dir names ∧ ¬ f.Ignores (Path.below dir names) ↔
      f.Reaches dir names := by
  constructor
  · -- visited and kept: no directory on the way was passed over, or the walk had stopped there
    rintro ⟨⟨hleads, henters⟩, hkept⟩
    have hproper := hleads.proper hfiles hdir
    refine ⟨hleads, ?_⟩
    rintro (hignored | ⟨ms, hms, hproperly, hne, hpassed⟩)
    · exact hkept hignored
    · obtain ⟨info, hlooked⟩ := hleads.exists_lstat hms
      exact (enters_below_iff hdir hfiles (fun s hs => hproper s (hms.subset hs)) hne hlooked).mp
        (henters ms hms hproperly info hlooked) hpassed
  · -- not excluded: the directory itself is entered always, and those on the way were not passed
    -- over
    rintro ⟨hleads, hincluded⟩
    have hproper := hleads.proper hfiles hdir
    obtain ⟨hkept, hway⟩ := not_or.mp hincluded
    refine ⟨⟨hleads, fun ms hms hproperly info hlooked => ?_⟩, hkept⟩
    by_cases hne : ms = []
    · subst hne
      simp [Path.below, enters]
    · rw [enters_below_iff hdir hfiles (fun s hs => hproper s (hms.subset hs)) hne hlooked]
      intro hpassed
      exact hway ⟨ms, hms, hproperly, hne, hpassed⟩

end Walk

end Finder

end ViewLint
