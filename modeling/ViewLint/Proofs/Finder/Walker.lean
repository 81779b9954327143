import Mathlib.Data.List.Forall2
import ViewLint.Proofs.Finder.Reached

/-!
# The walker that the arguments share

All arguments are resolved with one walker, which passes through every walk and every visit. What an
argument adds to it may seem to depend on what it holds already, because nothing is added twice. It does
not: there is a list of files for each argument (`Finder.Stands`), and resolving the argument is adding
this list, whatever the walker holds (`Finder.resolve_eq_ok_iff`).

This is shown from the inside out. An insertion keeps the walker sound (`Walker.Sound`): the paths that it
has seen are its files, each of them once. A visit to a file is an insertion or nothing, so a walk inserts
the files that pass its test (`Finder.walk_eq_ok_iff`), and they are those that the walk gets to
(`Finder.Collects.mem_iff`). The loop over the arguments inserts their lists one after the other
(`Finder.foldlM_resolve_eq_ok_iff`).
-/

namespace ViewLint

/-! ### Adding files -/

namespace Walker

variable {w : Walker}

/-- **The paths that the walker has seen are its files**, each of them once. -/
structure Sound (w : Walker) : Prop where
  seen_iff : ∀ p, p ∈ w.seen ↔ p ∈ w.files
  nodup : w.files.Nodup

theorem sound_empty : Sound {} := ⟨fun _ => Iff.rfl, List.nodup_nil⟩

theorem Sound.mem_add (h : w.Sound) {p path : Text} :
    p ∈ (w.add path).files ↔ p ∈ w.files ∨ p = path := by
  unfold Walker.add
  split
  · next hseen =>
    -- the path is among the files already
    rw [List.contains_iff_mem, h.seen_iff] at hseen
    exact ⟨Or.inl, fun hp => hp.elim id fun heq => heq ▸ hseen⟩
  · rw [List.mem_append, List.mem_singleton]

theorem Sound.add (h : w.Sound) (path : Text) : (w.add path).Sound := by
  unfold Walker.add
  split
  · exact h
  · next hnew =>
    rw [List.contains_iff_mem, h.seen_iff] at hnew
    constructor
    · intro p
      rw [List.mem_cons, List.mem_append, List.mem_singleton, h.seen_iff, or_comm]
    · refine List.nodup_append.mpr ⟨h.nodup, List.nodup_singleton path, ?_⟩
      rintro p hp q hq rfl
      exact hnew (List.mem_singleton.mp hq ▸ hp)

/-- Adds files, one after the other. -/
def addAll (w : Walker) (paths : List Text) : Walker := paths.foldl add w

theorem addAll_append (w : Walker) (before after : List Text) :
    w.addAll (before ++ after) = (w.addAll before).addAll after :=
  List.foldl_append

theorem Sound.addAll (h : w.Sound) (paths : List Text) : (w.addAll paths).Sound := by
  induction paths generalizing w with
  | nil => exact h
  | cons path paths ih => exact ih (h.add path)

theorem Sound.mem_addAll (h : w.Sound) {p : Text} {paths : List Text} :
    p ∈ (w.addAll paths).files ↔ p ∈ w.files ∨ p ∈ paths := by
  induction paths generalizing w with
  | nil => exact (or_iff_left List.not_mem_nil).symm
  | cons path paths ih =>
    change p ∈ ((w.add path).addAll paths).files ↔ _
    rw [ih (h.add path), h.mem_add, List.mem_cons, or_assoc]

end Walker

namespace Finder

variable {f : Finder} {w t : Walker}

/-! ### A walk -/

/-- Is a file taken? An ignored file is not put to the test. -/
def verdict (f : Finder) (test : Text → Except WalkError Bool) (path : Text) :
    Except WalkError Bool :=
  if f.ignored f.rules path then .ok false else test path

theorem verdict_eq_ok_true_iff {test : Text → Except WalkError Bool} {path : Text} :
    f.verdict test path = .ok true ↔ ¬ f.Ignores path ∧ test path = .ok true := by
  unfold verdict Ignores
  split <;> simp [*]

/-- A visit to a file adds it, or does nothing. -/
theorem take_eq_ok_iff {test : Text → Except WalkError Bool} {path : Text} :
    f.take f.rules test w path = .ok t ↔
      ∃ taken, f.verdict test path = .ok taken ∧ t = if taken then w.add path else w := by
  unfold take verdict
  split
  · simp [eq_comm]
  · cases test path with
    | error reason => simp
    | ok taken => cases taken <;> simp [eq_comm]

/-- **The visits to some files add those that are taken**, if the test does not fail at any of them. -/
theorem foldlM_take_eq_ok_iff {test : Text → Except WalkError Bool} {paths : List Text} :
    paths.foldlM (f.take f.rules test) w = .ok t ↔
      (∀ p ∈ paths, ∃ taken, f.verdict test p = .ok taken) ∧
        t = w.addAll (paths.filter fun p => f.verdict test p = .ok true) := by
  -- induction on the paths: the walker after the first one takes the rest
  induction paths generalizing w with
  | nil => exact ⟨fun h => ⟨nofun, (Except.ok.inj h).symm⟩, fun h => congrArg Except.ok h.2.symm⟩
  | cons path paths ih =>
    rw [List.foldlM_cons, List.forall_mem_cons]
    constructor
    · intro h
      obtain ⟨next, hnext, h⟩ := exists_of_bind_eq_ok h
      obtain ⟨taken, htaken, rfl⟩ := take_eq_ok_iff.mp hnext
      obtain ⟨hrest, rfl⟩ := ih.mp h
      refine ⟨⟨⟨taken, htaken⟩, hrest⟩, ?_⟩
      -- whether the path was taken is whether the filter keeps it
      cases taken <;> simp [htaken, Walker.addAll]
    · rintro ⟨⟨⟨taken, htaken⟩, hrest⟩, rfl⟩
      rw [take_eq_ok_iff.mpr ⟨taken, htaken, rfl⟩]
      refine ih.mpr ⟨hrest, ?_⟩
      cases taken <;> simp [htaken, Walker.addAll]

/-- **What a walk of a directory brings together**: the files that it comes to and that are taken. -/
def Collects (f : Finder) (test : Text → Except WalkError Bool) (dir : Text) (part : List Text) :
    Prop :=
  ∃ info found, f.host.files.lstat dir = .ok info ∧
    f.host.files.Lists (f.enters f.rules dir) (.entry dir info) found ∧
    (∀ p ∈ found, ∃ taken, f.verdict test p = .ok taken) ∧
    part = found.filter fun p => f.verdict test p = .ok true

/-- **A walk adds what it brings together**, whatever the walker holds. -/
theorem walk_eq_ok_iff (hwalk : Walk.Follows f.host.walkTemplates f.host.files)
    {test : Text → Except WalkError Bool} {dir : Text} (hdir : Path.isAbsolute dir = true) :
    f.walk f.rules test w dir = .ok t ↔ ∃ part, f.Collects test dir part ∧ t = w.addAll part := by
  unfold walk
  rw [hwalk.eq_ok_iff hdir]
  constructor
  · rintro ⟨info, found, hlooked, hfound, hfold⟩
    obtain ⟨hverdicts, rfl⟩ := foldlM_take_eq_ok_iff.mp hfold
    exact ⟨_, ⟨info, found, hlooked, hfound, hverdicts, rfl⟩, rfl⟩
  · rintro ⟨_, ⟨info, found, hlooked, hfound, hverdicts, rfl⟩, rfl⟩
    exact ⟨info, found, hlooked, hfound, foldlM_take_eq_ok_iff.mpr ⟨hverdicts, rfl⟩⟩

/-- **A walk brings together the files that it gets to and that pass its test.** -/
theorem Collects.mem_iff (hfiles : f.host.files.Lawful) {test : Text → Except WalkError Bool}
    {dir : Text} (hdir : Path.isAbsolute dir = true) {part : List Text}
    (h : f.Collects test dir part) (p : Text) :
    p ∈ part ↔ ∃ names, f.Reaches dir names ∧ p = Path.below dir names ∧ test p = .ok true := by
  obtain ⟨info, found, hlooked, hfound, -, rfl⟩ := h
  rw [List.mem_filter, decide_eq_true_iff, verdict_eq_ok_true_iff, hfound.mem_iff hlooked]
  constructor
  · rintro ⟨⟨names, hvisits, rfl⟩, hkept, htest⟩
    exact ⟨names, (visits_and_kept_iff hdir hfiles).mp ⟨hvisits, hkept⟩, rfl, htest⟩
  · rintro ⟨names, hreaches, rfl, htest⟩
    obtain ⟨hvisits, hkept⟩ := (visits_and_kept_iff hdir hfiles).mpr hreaches
    exact ⟨⟨names, hvisits, rfl⟩, hkept, htest⟩

/-! ### An argument -/

/-- **The files that an argument stands for.** -/
inductive Stands (f : Finder) (argument : Text) : List Text → Prop
  | pattern {part} (isPattern : isPattern argument = true)
      (wellFormed : f.host.patterns.wellFormed argument = true)
      (collected : f.Collects (f.matchTest argument) f.root part) : Stands f argument part
  | dir {info part} (noPattern : Finder.isPattern argument = false)
      (looked : f.host.files.stat (f.target argument) = .ok info) (isDir : info.isDir = true)
      (collected : f.Collects f.suffixTest (f.target argument) part) : Stands f argument part
  | file {info} (noPattern : Finder.isPattern argument = false)
      (looked : f.host.files.stat (f.target argument) = .ok info) (isFile : info.isDir = false) :
      Stands f argument [f.target argument]

theorem mapError_eq_ok_iff {ε ε' α : Type} {g : ε → ε'} {x : Except ε α} {a : α} :
    x.mapError g = .ok a ↔ x = .ok a := by
  cases x <;> simp [Except.mapError]

section Run

variable (hroot : Path.isAbsolute f.root = true)
  (hwalk : Walk.Follows f.host.walkTemplates f.host.files)

include hroot hwalk

/-- **Resolving an argument adds the files that it stands for**, whatever the walker holds. -/
theorem resolve_eq_ok_iff {argument : Text} :
    f.resolve f.rules w argument = .ok t ↔ ∃ part, f.Stands argument part ∧ t = w.addAll part := by
  have habs := isAbsolute_target hroot argument
  unfold resolve
  constructor
  · intro h
    split at h
    · next hpattern =>
      split at h
      · exact absurd h (by simp)
      · next hwell =>
        obtain ⟨part, hpart, rfl⟩ := (walk_eq_ok_iff hwalk hroot).mp (mapError_eq_ok_iff.mp h)
        exact ⟨part, .pattern hpattern (by simpa using hwell) hpart, rfl⟩
    · next hpattern =>
      rw [Bool.not_eq_true] at hpattern
      split at h
      · -- there is nothing at the path, or it cannot be looked at
        split at h <;> exact absurd h (by simp)
      · next info hlooked =>
        split at h
        · next hfile =>
          exact ⟨_, .file hpattern hlooked (by simpa using hfile), (Except.ok.inj h).symm⟩
        · next hisDir =>
          obtain ⟨part, hpart, rfl⟩ := (walk_eq_ok_iff hwalk habs).mp (mapError_eq_ok_iff.mp h)
          exact ⟨part, .dir hpattern hlooked (by simpa using hisDir) hpart, rfl⟩
  · rintro ⟨part, hstands, rfl⟩
    cases hstands with
    | pattern hpattern hwell hpart =>
      rw [if_pos hpattern, if_neg (by simp [hwell])]
      exact mapError_eq_ok_iff.mpr ((walk_eq_ok_iff hwalk hroot).mpr ⟨part, hpart, rfl⟩)
    | dir hpattern hlooked hisDir hpart =>
      rw [if_neg (by simp [hpattern]), hlooked]
      dsimp only
      rw [if_neg (by simp [hisDir])]
      exact mapError_eq_ok_iff.mpr ((walk_eq_ok_iff hwalk habs).mpr ⟨part, hpart, rfl⟩)
    | file hpattern hlooked hfile =>
      rw [if_neg (by simp [hpattern]), hlooked]
      dsimp only
      rw [if_pos (by simp [hfile])]
      rfl

/-- **Resolving arguments one after the other adds the files of each.** -/
theorem foldlM_resolve_eq_ok_iff {arguments : List Text} :
    arguments.foldlM (f.resolve f.rules) w = .ok t ↔
      ∃ parts, List.Forall₂ f.Stands arguments parts ∧ t = w.addAll parts.flatten := by
  -- induction on the arguments: the walker goes from each one to the next
  induction arguments generalizing w with
  | nil =>
    constructor
    · intro h
      exact ⟨[], .nil, (Except.ok.inj h).symm⟩
    · rintro ⟨_, _ | _, rfl⟩
      rfl
  | cons argument arguments ih =>
    rw [List.foldlM_cons]
    constructor
    · intro h
      obtain ⟨next, hnext, h⟩ := exists_of_bind_eq_ok h
      obtain ⟨part, hpart, rfl⟩ := (resolve_eq_ok_iff hroot hwalk).mp hnext
      obtain ⟨parts, hparts, rfl⟩ := ih.mp h
      exact ⟨part :: parts, .cons hpart hparts, by rw [List.flatten_cons, Walker.addAll_append]⟩
    · rintro ⟨_, _ | ⟨hpart, hparts⟩, rfl⟩
      rw [(resolve_eq_ok_iff hroot hwalk).mpr ⟨_, hpart, rfl⟩]
      exact ih.mpr ⟨_, hparts, by rw [List.flatten_cons, Walker.addAll_append]⟩

end Run

end Finder

end ViewLint
