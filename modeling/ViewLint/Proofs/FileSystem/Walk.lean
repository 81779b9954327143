import Mathlib.Data.List.Nodup
import ViewLint.FileSystem
import ViewLint.Proofs.Path.Below

/-!
# What a walk comes to

Walks are given to the library, and so is the file system. `FileSystem.Lawful` and `Walk.Follows` say
what is relied on: entries of a directory have proper names, no two of them the same, and a walk visits
an entry and then, if it is a directory that the visitor does not pass over, the entries that are listed
in it, in their order. It looks at each entry with `lstat`, so it does not follow links.

Such a walk has two parts. The files that it comes to depend on the directories that are entered, but not
on what is done at the files, so they can be listed beforehand (`FileSystem.Lists`); and the walk acts on
the files of this list one after the other (`Walk.Follows.eq_ok_iff`). The list holds the files to which
names lead through directories that are entered (`FileSystem.Lists.mem_iff`), each of them once
(`FileSystem.Lists.nodup`).
-/

namespace ViewLint

variable {σ ε : Type} {files : FileSystem}

/-! ### What is relied on -/

/-- **A file system**, at absolute paths. -/
structure FileSystem.Lawful (files : FileSystem) : Prop where
  /-- The entries of a directory have proper names. -/
  proper : ∀ dir infos, Path.isAbsolute dir = true → files.list dir = .ok infos →
    ∀ i ∈ infos, Path.IsProper i.name
  /-- No two entries of a directory have the same name. -/
  nodup : ∀ dir infos, Path.isAbsolute dir = true → files.list dir = .ok infos →
    (infos.map FileInfo.name).Nodup
  /-- What is looked at tells the last part of its path. -/
  name : ∀ dir name info, Path.isAbsolute dir = true → Path.IsProper name →
    files.lstat (Path.join [dir, name]) = .ok info → info.name = name

/-- What is found below a directory tells the last name on the way to it. -/
theorem FileSystem.Lawful.name_below (hfiles : files.Lawful) {dir : Text}
    (hdir : Path.isAbsolute dir = true) {names : List Text} (hnames : ∀ s ∈ names, Path.IsProper s)
    (hne : names ≠ []) {info : FileInfo} (h : files.lstat (Path.below dir names) = .ok info) :
    names.getLast? = some info.name := by
  induction names generalizing dir with
  | nil => exact absurd rfl hne
  | cons name rest ih =>
    obtain ⟨hname, hrest⟩ := List.forall_mem_cons.mp hnames
    by_cases hend : rest = []
    · subst hend
      exact congrArg some (hfiles.name dir name info hdir hname h).symm
    · rw [List.getLast?_cons_of_ne_nil hend]
      exact ih (Path.isRooted_join hdir name).isAbsolute hrest hend h

/-- The visitor is stopped by faults and passes over nothing but directories. -/
structure Visitor.IsPlain (visit : Visitor σ ε) : Prop where
  fault : ∀ s path f, ∃ reason, visit s path (.error f) = .stop reason
  file : ∀ s path info, info.isDir = false → ∀ t, visit s path (.ok info) ≠ .skip t

namespace Walk

/-- What is still to be visited: an entry that has been looked at, or entries of a directory. -/
inductive Task where
  | entry (path : Text) (info : FileInfo)
  | entries (dir : Text) (names : List Text)

/-- **What a walk does**: how it carries out a task from a state, and what comes of it. -/
inductive Runs (files : FileSystem) (visit : Visitor σ ε) : Task → σ → Except ε σ → Prop
  | stop {path info s reason} (visited : visit s path (.ok info) = .stop reason) :
      Runs files visit (.entry path info) s (.error reason)
  | skip {path info s t} (isDir : info.isDir = true) (visited : visit s path (.ok info) = .skip t) :
      Runs files visit (.entry path info) s (.ok t)
  | file {path info s t} (isFile : info.isDir = false) (visited : visit s path (.ok info) = .next t) :
      Runs files visit (.entry path info) s (.ok t)
  | unlisted {path info s t f reason} (isDir : info.isDir = true)
      (visited : visit s path (.ok info) = .next t) (listed : files.list path = .error f)
      (told : visit t path (.error f) = .stop reason) :
      Runs files visit (.entry path info) s (.error reason)
  | dir {path info s t infos r} (isDir : info.isDir = true)
      (visited : visit s path (.ok info) = .next t) (listed : files.list path = .ok infos)
      (below : Runs files visit (.entries path (infos.map FileInfo.name)) t r) :
      Runs files visit (.entry path info) s r
  | nil {dir s} : Runs files visit (.entries dir []) s (.ok s)
  | unseen {dir name rest s f reason} (looked : files.lstat (Path.join [dir, name]) = .error f)
      (told : visit s (Path.join [dir, name]) (.error f) = .stop reason) :
      Runs files visit (.entries dir (name :: rest)) s (.error reason)
  | broken {dir name rest s info reason} (looked : files.lstat (Path.join [dir, name]) = .ok info)
      (first : Runs files visit (.entry (Path.join [dir, name]) info) s (.error reason)) :
      Runs files visit (.entries dir (name :: rest)) s (.error reason)
  | cons {dir name rest s info t r} (looked : files.lstat (Path.join [dir, name]) = .ok info)
      (first : Runs files visit (.entry (Path.join [dir, name]) info) s (.ok t))
      (others : Runs files visit (.entries dir rest) t r) :
      Runs files visit (.entries dir (name :: rest)) s r

/-- What comes of a task is determined by the state from which it is carried out. -/
theorem Runs.unique {visit : Visitor σ ε} {task : Task} {s : σ} {r r' : Except ε σ}
    (h : Runs files visit task s r) (h' : Runs files visit task s r') : r = r' := by
  -- induction on the run: what the visitor says and what the listing is decide the rule used
  induction h generalizing r' with
  | stop visited => cases h' <;> simp_all
  | skip isDir visited => cases h' <;> simp_all
  | file isFile visited => cases h' <;> simp_all
  | unlisted isDir visited listed told => cases h' <;> simp_all
  | dir isDir visited listed _ ih =>
    cases h' with
    | dir _ visited' listed' below' =>
      obtain rfl := Visited.next.inj (visited.symm.trans visited')
      obtain rfl := Except.ok.inj (listed.symm.trans listed')
      exact ih below'
    | _ => simp_all
  | nil =>
    cases h'
    rfl
  | unseen looked told => cases h' <;> simp_all
  -- the entry breaks off the walk of its directory: the other run starts with that entry too
  | broken looked _ ih =>
    cases h' with
    | broken looked' first' =>
      obtain rfl := Except.ok.inj (looked.symm.trans looked')
      exact ih first'
    | cons looked' first' =>
      obtain rfl := Except.ok.inj (looked.symm.trans looked')
      exact absurd (ih first') (by simp)
    | unseen looked' => exact absurd (looked.symm.trans looked') (by simp)
  -- the entry is passed: so it is in the other run, and `ihothers` has the entries behind it
  | cons looked _ _ ihfirst ihothers =>
    cases h' with
    | broken looked' first' =>
      obtain rfl := Except.ok.inj (looked.symm.trans looked')
      exact absurd (ihfirst first') (by simp)
    | cons looked' first' others' =>
      obtain rfl := Except.ok.inj (looked.symm.trans looked')
      obtain rfl := Except.ok.inj (ihfirst first')
      exact ihothers others'
    | unseen looked' => exact absurd (looked.symm.trans looked') (by simp)

/-- **A walk of a file system**, from an absolute path on, with a plain visitor. -/
def Follows (walk : Walk σ ε) (files : FileSystem) : Prop :=
  ∀ path visit s, Path.isAbsolute path = true → visit.IsPlain →
    (∀ f, files.lstat path = .error f →
      ∃ reason, visit s path (.error f) = .stop reason ∧ walk path visit s = .error reason) ∧
    ∀ info, files.lstat path = .ok info → Runs files visit (.entry path info) s (walk path visit s)

end Walk

/-! ### The files of a walk -/

namespace Visitor

variable {fault : FileFault → ε} {enters : Text → FileInfo → Bool} {act : σ → Text → Except ε σ}

theorem ofFiles_of_isDir {info : FileInfo} (h : info.isDir = true) (s : σ) (path : Text) :
    ofFiles fault enters act s path (.ok info) = if enters path info then .next s else .skip s :=
  if_pos h

theorem ofFiles_of_isFile {info : FileInfo} (h : info.isDir = false) (s : σ) (path : Text) :
    ofFiles fault enters act s path (.ok info) = match act s path with
      | .ok after => .next after
      | .error reason => .stop reason :=
  if_neg (ne_true_of_eq_false h)

theorem isPlain_ofFiles : (ofFiles fault enters act).IsPlain where
  fault := fun _ _ f => ⟨fault f, rfl⟩
  file := by
    intro s path info hfile t
    rw [ofFiles_of_isFile hfile]
    cases act s path <;> simp

end Visitor

namespace FileSystem

/-- The files that a task comes to, in their order, if some directories are entered. -/
inductive Lists (files : FileSystem) (enters : Text → FileInfo → Bool) :
    Walk.Task → List Text → Prop
  | file {path info} (isFile : info.isDir = false) : Lists files enters (.entry path info) [path]
  | skip {path info} (isDir : info.isDir = true) (passed : enters path info = false) :
      Lists files enters (.entry path info) []
  | dir {path info infos found} (isDir : info.isDir = true) (entered : enters path info = true)
      (listed : files.list path = .ok infos)
      (below : Lists files enters (.entries path (infos.map FileInfo.name)) found) :
      Lists files enters (.entry path info) found
  | nil {dir} : Lists files enters (.entries dir []) []
  | cons {dir name rest info part more} (looked : files.lstat (Path.join [dir, name]) = .ok info)
      (first : Lists files enters (.entry (Path.join [dir, name]) info) part)
      (others : Lists files enters (.entries dir rest) more) :
      Lists files enters (.entries dir (name :: rest)) (part ++ more)

end FileSystem

section Fold

variable {fault : FileFault → ε} {enters : Text → FileInfo → Bool} {act : σ → Text → Except ε σ}
  {task : Walk.Task} {s t : σ}

/-- What succeeds in two steps has succeeded in each. -/
theorem exists_of_bind_eq_ok {ε α β : Type} {x : Except ε α} {f : α → Except ε β} {b : β}
    (h : x >>= f = .ok b) : ∃ a, x = .ok a ∧ f a = .ok b := by
  cases x with
  | error reason => exact absurd h (by simp [bind, Except.bind])
  | ok a => exact ⟨a, rfl, h⟩

/-- A walk that succeeds has acted on the files that it came to. -/
theorem Walk.Runs.exists_lists {r : Except ε σ}
    (h : Walk.Runs files (.ofFiles fault enters act) task s r) (hr : r = .ok t) :
    ∃ found, files.Lists enters task found ∧ found.foldlM act s = .ok t := by
  -- induction on the run; the rules that end it with a fault are out by `hr`
  induction h generalizing t with
  | stop => exact absurd hr (by simp)
  | unlisted => exact absurd hr (by simp)
  | unseen => exact absurd hr (by simp)
  | broken => exact absurd hr (by simp)
  -- a directory passed over adds no file, so the visitor did not ask to enter it
  | @skip path info s u isDir visited =>
    obtain rfl := Except.ok.inj hr
    rw [Visitor.ofFiles_of_isDir isDir] at visited
    by_cases hentered : enters path info = true
    · simp [hentered] at visited
    · rw [if_neg hentered, Visited.skip.injEq] at visited
      exact ⟨[], .skip isDir (by simpa using hentered), by rw [visited]; rfl⟩
  -- a file: `act` takes it
  | @file path info s u isFile visited =>
    obtain rfl := Except.ok.inj hr
    rw [Visitor.ofFiles_of_isFile isFile] at visited
    cases hact : act s path with
    | error reason => simp [hact] at visited
    | ok after =>
      obtain rfl : after = u := by simpa [hact] using visited
      exact ⟨[path], .file isFile, by rw [List.foldlM_cons, hact]; rfl⟩
  -- a directory entered: its files are those of its entries
  | @dir path info s u infos r isDir visited listed _ ih =>
    rw [Visitor.ofFiles_of_isDir isDir] at visited
    by_cases hentered : enters path info = true
    · rw [if_pos hentered, Visited.next.injEq] at visited
      obtain ⟨found, hfound, hfold⟩ := ih hr
      exact ⟨found, .dir isDir hentered listed hfound, visited ▸ hfold⟩
    · simp [hentered] at visited
  | nil =>
    obtain rfl := Except.ok.inj hr
    exact ⟨[], .nil, rfl⟩
  -- the files of an entry, then those of the entries behind it
  | cons looked _ _ ihfirst ihothers =>
    obtain ⟨part, hpart, hfirst⟩ := ihfirst rfl
    obtain ⟨more, hmore, hothers⟩ := ihothers hr
    refine ⟨part ++ more, .cons looked hpart hmore, ?_⟩
    rw [List.foldlM_append, hfirst]
    exact hothers

/-- A walk whose files can be listed and acted on succeeds. -/
theorem FileSystem.Lists.runs {found : List Text} (h : files.Lists enters task found)
    (hfold : found.foldlM act s = .ok t) :
    Walk.Runs files (.ofFiles fault enters act) task s (.ok t) := by
  -- the cases of `exists_lists` the other way, along the listing
  induction h generalizing s t with
  | @file path info isFile =>
    rw [List.foldlM_cons] at hfold
    obtain ⟨after, hact, hafter⟩ := exists_of_bind_eq_ok hfold
    obtain rfl := Except.ok.inj hafter
    exact .file isFile (by rw [Visitor.ofFiles_of_isFile isFile, hact])
  | @skip path info isDir passed =>
    obtain rfl := Except.ok.inj hfold
    exact .skip isDir (by rw [Visitor.ofFiles_of_isDir isDir, passed]; rfl)
  | @dir path info infos found isDir entered listed _ ih =>
    exact .dir isDir (by rw [Visitor.ofFiles_of_isDir isDir, if_pos entered]) listed (ih hfold)
  | nil =>
    obtain rfl := Except.ok.inj hfold
    exact .nil
  | cons looked _ _ ihfirst ihothers =>
    rw [List.foldlM_append] at hfold
    obtain ⟨u, hfirst, hothers⟩ := exists_of_bind_eq_ok hfold
    exact .cons looked (ihfirst hfirst) (ihothers hothers)

/-- **A walk that acts on files acts on the list of its files.** -/
theorem Walk.Follows.eq_ok_iff {walk : Walk σ ε} (h : Walk.Follows walk files) {path : Text}
    (hpath : Path.isAbsolute path = true) :
    walk path (.ofFiles fault enters act) s = .ok t ↔ ∃ info found, files.lstat path = .ok info ∧
      files.Lists enters (.entry path info) found ∧ found.foldlM act s = .ok t := by
  obtain ⟨hunseen, hruns⟩ := h path (.ofFiles fault enters act) s hpath Visitor.isPlain_ofFiles
  constructor
  · -- the root of the walk is looked up first: where there is none, the visitor gets its fault
    intro hwalk
    cases hlooked : files.lstat path with
    | error f =>
      obtain ⟨reason, -, hstopped⟩ := hunseen f hlooked
      exact absurd (hwalk.symm.trans hstopped) (by simp)
    | ok info =>
      obtain ⟨found, hfound, hfold⟩ := (hruns info hlooked).exists_lists hwalk
      exact ⟨info, found, rfl, hfound, hfold⟩
  · -- the run made of the listing is the only one, so the walk is that run
    rintro ⟨info, found, hlooked, hfound, hfold⟩
    exact (hruns info hlooked).unique (hfound.runs hfold)

end Fold

/-! ### Which files are listed -/

namespace FileSystem

/-- **Names lead from a path to a file.** Every directory on the way lists the next name. No link is
followed. -/
def Leads (files : FileSystem) : Text → List Text → Prop
  | path, [] => ∃ info, files.lstat path = .ok info ∧ info.isDir = false
  | path, name :: rest =>
    (∃ info, files.lstat path = .ok info ∧ info.isDir = true) ∧
      (∃ infos, files.list path = .ok infos ∧ name ∈ infos.map FileInfo.name) ∧
      Leads files (Path.join [path, name]) rest

/-- Names lead to a file, and every directory before it is entered. -/
def Visits (files : FileSystem) (enters : Text → FileInfo → Bool) (path : Text)
    (names : List Text) : Prop :=
  files.Leads path names ∧ ∀ ms, ms <+: names → ms ≠ names → ∀ info,
    files.lstat (Path.below path ms) = .ok info → enters (Path.below path ms) info = true

variable {enters : Text → FileInfo → Bool} {path : Text}

theorem visits_nil_iff :
    files.Visits enters path [] ↔ ∃ info, files.lstat path = .ok info ∧ info.isDir = false := by
  refine and_iff_left_of_imp fun _ ms hms hne => ?_
  exact absurd (List.prefix_nil.mp hms) hne

theorem visits_cons_iff {name : Text} {rest : List Text} :
    files.Visits enters path (name :: rest) ↔
      (∃ info, files.lstat path = .ok info ∧ info.isDir = true ∧ enters path info = true) ∧
      (∃ infos, files.list path = .ok infos ∧ name ∈ infos.map FileInfo.name) ∧
      files.Visits enters (Path.join [path, name]) rest := by
  unfold Visits
  rw [Leads]
  constructor
  · rintro ⟨⟨⟨info, hlooked, hisDir⟩, hlisted, hrest⟩, henters⟩
    have hstart := henters [] List.nil_prefix (List.cons_ne_nil _ _).symm info hlooked
    refine ⟨⟨info, hlooked, hisDir, hstart⟩, hlisted, hrest, fun ms hms hne => ?_⟩
    exact henters (name :: ms) ((List.prefix_cons_inj name).mpr hms) (by simpa using hne)
  · rintro ⟨⟨info, hlooked, hisDir, hstart⟩, hlisted, hrest, henters⟩
    refine ⟨⟨⟨info, hlooked, hisDir⟩, hlisted, hrest⟩, fun ms hms hne => ?_⟩
    -- what stands before the end is the start, or is behind the first name
    rcases List.prefix_cons_iff.mp hms with rfl | ⟨ms, rfl, hms⟩
    · intro info' hlooked'
      obtain rfl := Except.ok.inj (hlooked.symm.trans hlooked')
      exact hstart
    · rw [List.prefix_cons_inj] at hms
      exact henters ms hms (by simpa using hne)

/-- At a file, no name leads any further. -/
theorem Leads.eq_nil_of_nil (h : files.Leads path []) {names : List Text}
    (h' : files.Leads path names) : names = [] := by
  cases names with
  | nil => rfl
  | cons name rest =>
    obtain ⟨info, hlooked, hfile⟩ := h
    obtain ⟨⟨info', hlooked', hisDir⟩, -⟩ := h'
    obtain rfl := Except.ok.inj (hlooked.symm.trans hlooked')
    exact absurd (hfile.symm.trans hisDir) Bool.false_ne_true

/-- From a directory, a way to a file has a first name. -/
theorem Leads.exists_cons {info : FileInfo} (hlooked : files.lstat path = .ok info)
    (isDir : info.isDir = true) {names : List Text} (h : files.Leads path names) :
    ∃ name rest, names = name :: rest := by
  cases names with
  | nil =>
    obtain ⟨info', hlooked', hisFile⟩ := h
    obtain rfl := Except.ok.inj (hlooked.symm.trans hlooked')
    exact absurd (hisFile.symm.trans isDir) Bool.false_ne_true
  | cons name rest => exact ⟨name, rest, rfl⟩

/-- What stands on the way to a file can be looked at. -/
theorem Leads.exists_lstat {names : List Text} (h : files.Leads path names) {ms : List Text}
    (hms : ms <+: names) : ∃ info, files.lstat (Path.below path ms) = .ok info := by
  induction ms generalizing path names with
  | nil =>
    cases names with
    | nil => exact h.imp fun _ => And.left
    | cons name rest => exact h.1.imp fun _ => And.left
  | cons m ms ih =>
    cases names with
    | nil => exact absurd (List.prefix_nil.mp hms) (List.cons_ne_nil m ms)
    | cons name rest =>
      obtain ⟨rfl, hrest⟩ := List.cons_prefix_cons.mp hms
      exact ih h.2.2 hrest

/-- The names of a way to a file are proper. -/
theorem Leads.proper (hfiles : files.Lawful) (hpath : Path.isAbsolute path = true)
    {names : List Text} (h : files.Leads path names) : ∀ s ∈ names, Path.IsProper s := by
  induction names generalizing path with
  | nil => exact fun _ hs => absurd hs List.not_mem_nil
  | cons name rest ih =>
    obtain ⟨-, ⟨infos, hlisted, hname⟩, hrest⟩ := h
    obtain ⟨info, hinfo, rfl⟩ := List.mem_map.mp hname
    refine List.forall_mem_cons.mpr ⟨hfiles.proper path infos hpath hlisted info hinfo, ?_⟩
    exact ih (Path.isRooted_join hpath _).isAbsolute hrest

/-- The entry of a task is what stands at its path. -/
def Seen (files : FileSystem) : Walk.Task → Prop
  | .entry path info => files.lstat path = .ok info
  | .entries _ _ => True

/-- The files that a task comes to are those to which names lead, from its entry or from one of its
entries. -/
def ComesTo (files : FileSystem) (enters : Text → FileInfo → Bool) (p : Text) : Walk.Task → Prop
  | .entry path _ => ∃ names, files.Visits enters path names ∧ p = Path.below path names
  | .entries dir heads => ∃ head ∈ heads, ∃ names,
      files.Visits enters (Path.join [dir, head]) names ∧ p = Path.below dir (head :: names)

theorem Lists.mem_iff_comesTo {task : Walk.Task} {found : List Text}
    (h : files.Lists enters task found) (hseen : files.Seen task) (p : Text) :
    p ∈ found ↔ files.ComesTo enters p task := by
  induction h with
  | @file path info isFile =>
    rw [List.mem_singleton]
    constructor
    · rintro rfl
      exact ⟨[], visits_nil_iff.mpr ⟨info, hseen, isFile⟩, rfl⟩
    · rintro ⟨names, hvisits, rfl⟩
      cases names with
      | nil => rfl
      | cons name rest =>
        -- below a file nothing is visited
        obtain ⟨⟨info', hlooked, hisDir, -⟩, -⟩ := visits_cons_iff.mp hvisits
        obtain rfl := Except.ok.inj (Eq.trans (Eq.symm hseen) hlooked)
        exact absurd (isFile.symm.trans hisDir) Bool.false_ne_true
  | @skip path info isDir passed =>
    refine ⟨fun hp => absurd hp List.not_mem_nil, ?_⟩
    rintro ⟨names, hvisits, -⟩
    -- a way from here would have to enter the directory
    obtain ⟨name, rest, rfl⟩ := hvisits.1.exists_cons hseen isDir
    obtain ⟨⟨info', hlooked, -, hentered⟩, -⟩ := visits_cons_iff.mp hvisits
    obtain rfl := Except.ok.inj (Eq.trans (Eq.symm hseen) hlooked)
    exact absurd (passed.symm.trans hentered) Bool.false_ne_true
  | @dir path info infos found isDir entered listed _ ih =>
    rw [ih trivial]
    constructor
    · rintro ⟨head, hhead, names, hvisits, rfl⟩
      exact ⟨head :: names,
        visits_cons_iff.mpr ⟨⟨info, hseen, isDir, entered⟩, ⟨infos, listed, hhead⟩, hvisits⟩, rfl⟩
    · rintro ⟨names, hvisits, rfl⟩
      obtain ⟨name, rest, rfl⟩ := hvisits.1.exists_cons hseen isDir
      obtain ⟨-, ⟨infos', hlisted, hname⟩, hvisits⟩ := visits_cons_iff.mp hvisits
      obtain rfl := Except.ok.inj (listed.symm.trans hlisted)
      exact ⟨name, hname, rest, hvisits, rfl⟩
  | nil => simp [ComesTo]
  | @cons dir name rest info part more looked _ _ ihfirst ihothers =>
    rw [List.mem_append, ihfirst looked, ihothers trivial]
    simp only [ComesTo, Path.below_cons, List.mem_cons, exists_eq_or_imp]

/-- **The list of a walk holds the files to which names lead**, through directories that are entered. -/
theorem Lists.mem_iff {info : FileInfo} {found : List Text}
    (h : files.Lists enters (.entry path info) found) (hlooked : files.lstat path = .ok info)
    (p : Text) :
    p ∈ found ↔ ∃ names, files.Visits enters path names ∧ p = Path.below path names :=
  h.mem_iff_comesTo hlooked p

/-- The task starts at a rooted path, and its entries have proper names, no two the same. -/
def Rooted : Walk.Task → Prop
  | .entry path _ => Path.IsRooted path
  | .entries dir names => Path.IsRooted dir ∧ (∀ s ∈ names, Path.IsProper s) ∧ names.Nodup

/-- **No file is listed twice.** -/
theorem Lists.nodup (hfiles : files.Lawful) {task : Walk.Task} {found : List Text}
    (h : files.Lists enters task found) (hseen : files.Seen task) (htask : Rooted task) :
    found.Nodup := by
  induction h with
  | @file path => exact List.nodup_singleton path
  | skip => exact List.nodup_nil
  | @dir path info infos found isDir entered listed _ ih =>
    have habs := Path.IsRooted.isAbsolute htask
    refine ih trivial ⟨htask, ?_, hfiles.nodup path infos habs listed⟩
    intro s hs
    obtain ⟨info, hinfo, rfl⟩ := List.mem_map.mp hs
    exact hfiles.proper path infos habs listed info hinfo
  | nil => exact List.nodup_nil
  | @cons dir name rest info part more looked hfirst hothers ihfirst ihothers =>
    obtain ⟨hdir, hproper, hnodup⟩ := htask
    rw [List.forall_mem_cons] at hproper
    rw [List.nodup_cons] at hnodup
    have hchild := Path.isRooted_join hdir.isAbsolute name
    refine List.nodup_append.mpr ⟨ihfirst looked hchild,
      ihothers trivial ⟨hdir, hproper.2, hnodup.2⟩, ?_⟩
    -- a file that is listed again would stand under another name
    rintro p hp q hq rfl
    obtain ⟨ns, hvisits, hpn⟩ := (hfirst.mem_iff looked p).mp hp
    obtain ⟨head, hhead, ms, hvisits', hpm⟩ := (hothers.mem_iff_comesTo trivial p).mp hq
    have hns := hvisits.1.proper hfiles hchild.isAbsolute
    have hms := hvisits'.1.proper hfiles (Path.isRooted_join hdir.isAbsolute head).isAbsolute
    have hinj : name :: ns = head :: ms := Path.below_inj hdir
      (List.forall_mem_cons.mpr ⟨hproper.1, hns⟩)
      (List.forall_mem_cons.mpr ⟨hproper.2 head hhead, hms⟩) (hpn.symm.trans hpm)
    exact hnodup.1 ((List.cons.inj hinj).1 ▸ hhead)

end FileSystem

end ViewLint
