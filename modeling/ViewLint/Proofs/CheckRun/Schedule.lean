import Mathlib.Data.List.Perm.Basic
import Mathlib.Logic.Relation
import Mathlib.Tactic.Common
import ViewLint.CheckRun
import ViewLint.Proofs.FileTree.Walk
import ViewLint.Proofs.Glob.Suffix

/-!
# Schedules of a check run

The files of a run are checked by workers that share one ledger. A worker takes up the task of a file,
opens the file, notes its document under the number of the file and posts its diagnostics under its
path; if the file cannot be read, it enters the fault instead. Between any two of these actions other
workers may act. `Crew.Step` is one action of one worker, with no more than `max jobs 1` tasks taken up
at a time, and a schedule is a chain of such steps.

`every_schedule_checks_all` says that the outcome does not depend on the schedule, and that nothing is
lost in any: every schedule can be brought to an end, and at its end the results of the ledger are the
results of the files in the order of the files, or, if there are files that cannot be read, one fault
for each of them. All that is asked of the host is that its patterns let the selector of a run take
every path.

The argument is one invariant on partly finished schedules, `Crew.Sound`. It accounts for every task
(waiting, taken up, or done) and says what the ledger holds by what has been done: a document for each
file that was noted, diagnostics for each path that was posted, and a fault for each task that ended in
one. Steps of different workers cannot disturb one another's entries, because documents go by the
number of the file, and diagnostics by a path whose content is the same for every reader.
-/

namespace ViewLint

/-! ### The actions of a task -/

namespace Ledger

/-- Notes the document of a file. -/
def note (l : Ledger) (number : Nat) (text : Text) : Ledger :=
  { l with docs := (number, ⟨text⟩) :: l.docs }

/-- Posts the diagnostics of a file, if the selector of a run takes it. -/
def post (host : Host) (window : Int) (l : Ledger) (path text : Text) : Ledger :=
  match Announcement.ofSnapshot? (everyPath host.patterns) window ⟨path, path, [], 0, text⟩ with
  | none => l
  | some a => { l with board := a.post l.board }

/-- Enters a file that could not be read. -/
def enter (l : Ledger) (path : Text) (fault : FileFault) : Ledger :=
  { l with unreadable := l.unreadable ++ [⟨path, fault⟩] }

end Ledger

/-- The result of a file with a text. -/
def FileResult.ofText (root : Text) (window : Int) (path text : Text) : FileResult :=
  ⟨displayPath root path, ⟨text⟩, check window text⟩

theorem selects_everyPath {patterns : Patterns} (h : patterns.StarsMatchAll) (path : Text) :
    (everyPath patterns).selects [] path = true := by
  unfold Selector.selects everyPath
  have hpattern : ¬ (Text.ofString "**").isEmpty = true := by decide
  rw [if_neg hpattern, h]
  rfl

/-- Posting leaves the documents and the faults alone. -/
theorem Ledger.post_docs (host : Host) (window : Int) (l : Ledger) (path text : Text) :
    (l.post host window path text).docs = l.docs := by
  unfold post
  split <;> rfl

theorem Ledger.post_unreadable (host : Host) (window : Int) (l : Ledger) (path text : Text) :
    (l.post host window path text).unreadable = l.unreadable := by
  unfold post
  split <;> rfl

/-- What is on the board once the diagnostics of a file are posted. -/
theorem Ledger.get?_post {host : Host} (hstars : host.patterns.StarsMatchAll) (window : Int)
    (l : Ledger) (path text key : Text) :
    Table.get? (l.post host window path text).board key =
      if key = path then some ⟨0, ViewLint.check window text⟩ else Table.get? l.board key := by
  have hannounced : Announcement.ofSnapshot? (everyPath host.patterns) window ⟨path, path, [], 0, text⟩ =
      some (.publish path 0 (ViewLint.check window text)) :=
    if_pos (selects_everyPath hstars path)
  have hposted : l.post host window path text =
      { l with board := (Announcement.publish path 0 (ViewLint.check window text)).post l.board } := by
    unfold post
    rw [hannounced]
  rw [hposted]
  exact Announcement.get?_post (.publish path 0 (ViewLint.check window text)) l.board key

/-- Without others, a task is checked by the actions of a worker, one after the other. -/
theorem Ledger.check_of_ok {host : Host} {path text : Text} (h : host.files.read path = .ok text)
    (window : Int) (l : Ledger) (number : Nat) :
    Ledger.check host window l (path, number) = (l.note number text).post host window path text := by
  unfold Ledger.check Ledger.post
  simp only [h]
  rfl

theorem Ledger.check_of_error {host : Host} {path : Text} {fault : FileFault}
    (h : host.files.read path = .error fault) (window : Int) (l : Ledger) (number : Nat) :
    Ledger.check host window l (path, number) = l.enter path fault := by
  unfold Ledger.check
  simp only [h]
  rfl

/-! ### Schedules -/

/-- How far a worker has got with a task. -/
inductive Stage where
  /-- The file has not been opened yet. -/
  | taken
  /-- The file has been read. -/
  | read (text : Text)
  /-- The document has been noted, and the diagnostics are still to be posted. -/
  | noted (text : Text)
  /-- The file could not be read, and the fault is still to be entered. -/
  | refused (fault : FileFault)

/-- The actions that are left to do in a task that has been taken up. -/
def Stage.work : Stage → Nat
  | taken => 3
  | read _ => 2
  | noted _ => 1
  | refused _ => 1

/-- What a worker holds agrees with the file. -/
def Stage.Agrees (host : Host) (path : Text) : Stage → Prop
  | taken => True
  | read text => host.files.read path = .ok text
  | noted text => host.files.read path = .ok text
  | refused fault => host.files.read path = .error fault

/-- The tasks of a run, each the path of a file with its number, and the ledger that they share. -/
structure Crew where
  waiting : List (Text × Nat)
  active : List ((Text × Nat) × Stage)
  /-- The tasks that have ended, first to last. -/
  done : List (Text × Nat)
  ledger : Ledger

namespace Crew

/-- Before the first action: all tasks are waiting. -/
def start (files : List Text) : Crew := ⟨files.zipIdx, [], [], {}⟩

/-- All tasks have ended. -/
def Finished (c : Crew) : Prop := c.waiting = [] ∧ c.active = []

/-- One action of one worker. -/
inductive Step (host : Host) (window jobs : Int) : Crew → Crew → Prop
  | take (w₁ w₂) {t a d l} (free : (a.length : Int) < max jobs 1) :
      Step host window jobs ⟨w₁ ++ t :: w₂, a, d, l⟩ ⟨w₁ ++ w₂, (t, .taken) :: a, d, l⟩
  | read (a₁ a₂) {w path number d l text} (ok : host.files.read path = .ok text) :
      Step host window jobs ⟨w, a₁ ++ ((path, number), .taken) :: a₂, d, l⟩
        ⟨w, a₁ ++ ((path, number), .read text) :: a₂, d, l⟩
  | note (a₁ a₂) {w path number d l text} :
      Step host window jobs ⟨w, a₁ ++ ((path, number), .read text) :: a₂, d, l⟩
        ⟨w, a₁ ++ ((path, number), .noted text) :: a₂, d, l.note number text⟩
  | post (a₁ a₂) {w path number d l text} :
      Step host window jobs ⟨w, a₁ ++ ((path, number), .noted text) :: a₂, d, l⟩
        ⟨w, a₁ ++ a₂, d ++ [(path, number)], l.post host window path text⟩
  | refuse (a₁ a₂) {w path number d l fault} (error : host.files.read path = .error fault) :
      Step host window jobs ⟨w, a₁ ++ ((path, number), .taken) :: a₂, d, l⟩
        ⟨w, a₁ ++ ((path, number), .refused fault) :: a₂, d, l⟩
  | enter (a₁ a₂) {w path number d l fault} :
      Step host window jobs ⟨w, a₁ ++ ((path, number), .refused fault) :: a₂, d, l⟩
        ⟨w, a₁ ++ a₂, d ++ [(path, number)], l.enter path fault⟩

/-- A schedule leads from one crew to another. -/
abbrev Reaches (host : Host) (window jobs : Int) : Crew → Crew → Prop :=
  Relation.ReflTransGen (Step host window jobs)

variable {host : Host} {window jobs : Int} {files : List Text}

/-! ### Every schedule can be brought to an end -/

/-- The actions that are left to do in the tasks that have been taken up. -/
def workOf (active : List ((Text × Nat) × Stage)) : Nat := active.foldr (fun a n => a.2.work + n) 0

theorem workOf_cons (t : Text × Nat) (stage : Stage) (active : List ((Text × Nat) × Stage)) :
    workOf ((t, stage) :: active) = stage.work + workOf active := rfl

theorem workOf_append (as bs : List ((Text × Nat) × Stage)) :
    workOf (as ++ bs) = workOf as + workOf bs := by
  induction as with
  | nil => exact (Nat.zero_add _).symm
  | cons a as ih =>
    rw [List.cons_append, workOf_cons, workOf_cons, ih, Nat.add_assoc]

/-- The actions that are left to do. -/
def work (c : Crew) : Nat := 4 * c.waiting.length + workOf c.active

theorem work_lt_of_step {c e : Crew} (h : Step host window jobs c e) : e.work < c.work := by
  cases h <;>
    simp only [work, Stage.work, List.length_append, List.length_cons, workOf_append, workOf_cons] <;>
    omega

theorem exists_step (host : Host) (window jobs : Int) {c : Crew} (h : ¬ c.Finished) :
    ∃ e, Step host window jobs c e := by
  obtain ⟨waiting, active, done, ledger⟩ := c
  cases active with
  | cons first rest =>
    -- whoever has taken up a task can go on, whatever the others do
    obtain ⟨⟨path, number⟩, stage⟩ := first
    cases stage with
    | taken =>
      cases hread : host.files.read path with
      | ok text => exact ⟨_, .read [] rest hread⟩
      | error fault => exact ⟨_, .refuse [] rest hread⟩
    | read text => exact ⟨_, .note [] rest⟩
    | noted text => exact ⟨_, .post [] rest⟩
    | refused fault => exact ⟨_, .enter [] rest⟩
  | nil =>
    cases waiting with
    | nil => exact absurd ⟨rfl, rfl⟩ h
    | cons t rest =>
      -- nobody is at work, and at least one may be
      refine ⟨_, .take [] rest ?_⟩
      rw [List.length_nil]
      omega

theorem exists_finished (host : Host) (window jobs : Int) (c : Crew) :
    ∃ e, Reaches host window jobs c e ∧ e.Finished := by
  induction hn : c.work using Nat.strongRecOn generalizing c with
  | ind n ih =>
    by_cases hc : c.Finished
    · exact ⟨c, .refl, hc⟩
    · obtain ⟨next, hstep⟩ := exists_step host window jobs hc
      obtain ⟨e, hreach, hend⟩ := ih next.work (hn ▸ work_lt_of_step hstep) next rfl
      exact ⟨e, hreach.head hstep, hend⟩

/-- Checking the tasks one after the other is one of the schedules. -/
theorem reaches_foldl_check (tasks done : List (Text × Nat)) (l : Ledger) :
    Reaches host window jobs ⟨tasks, [], done, l⟩
      ⟨[], [], done ++ tasks, tasks.foldl (Ledger.check host window) l⟩ := by
  induction tasks generalizing done l with
  | nil =>
    rw [List.append_nil]
    exact .refl
  | cons t rest ih =>
    -- the first task is taken up by one worker, who finishes it before anybody goes on
    obtain ⟨path, number⟩ := t
    have htake : Step host window jobs ⟨(path, number) :: rest, [], done, l⟩
        ⟨rest, [((path, number), .taken)], done, l⟩ :=
      .take [] rest (by rw [List.length_nil]; omega)
    have hrest := ih (done ++ [(path, number)]) (Ledger.check host window l (path, number))
    rw [List.append_assoc] at hrest
    refine .head htake ?_
    cases hread : host.files.read path with
    | ok text =>
      rw [Ledger.check_of_ok hread] at hrest
      rw [List.foldl_cons, Ledger.check_of_ok hread]
      -- read, note and post
      exact .head (.read [] [] hread) (.head (.note [] []) (.head (.post [] []) hrest))
    | error fault =>
      rw [Ledger.check_of_error hread] at hrest
      rw [List.foldl_cons, Ledger.check_of_error hread]
      -- refuse and enter
      exact .head (.refuse [] [] hread) (.head (.enter [] []) hrest)

/-! ### The invariant -/

/-- What the workers hold agrees with the files. -/
def AllAgree (host : Host) (active : List ((Text × Nat) × Stage)) : Prop :=
  ∀ path number stage, ((path, number), stage) ∈ active → stage.Agrees host path

/-- The fault of a file, if it cannot be read. -/
def fault? (host : Host) (path : Text) : Option Unreadable :=
  match host.files.read path with
  | .error fault => some ⟨path, fault⟩
  | .ok _ => none

/-- What is on the board for a path once some tasks are done. -/
def posted? (host : Host) (window : Int) (done : List (Text × Nat)) (path : Text) :
    Option Published :=
  if path ∈ done.map Prod.fst then
    (host.files.read path).toOption.map fun text => ⟨0, check window text⟩
  else none

/-- The documents are those of the files that have been noted, by tasks that are done or are still to
post. -/
def AllNoted (host : Host) (docs : List (Nat × Document)) (done : List (Text × Nat))
    (active : List ((Text × Nat) × Stage)) : Prop :=
  ∀ number text, (number, ⟨text⟩) ∈ docs ↔ ∃ path, host.files.read path = .ok text ∧
    ((path, number) ∈ done ∨ ((path, number), .noted text) ∈ active)

/-- **What the ledger of a partly finished schedule holds.** -/
structure Sound (host : Host) (window : Int) (files : List Text) (c : Crew) : Prop where
  /-- No task is lost or doubled. -/
  tasks : (c.waiting ++ c.active.map Prod.fst ++ c.done).Perm files.zipIdx
  agree : AllAgree host c.active
  docs : AllNoted host c.ledger.docs c.done c.active
  board : ∀ path, Table.get? c.ledger.board path = posted? host window c.done path
  unreadable : c.ledger.unreadable = (c.done.map Prod.fst).filterMap (fault? host)

theorem sound_start (host : Host) (window : Int) (files : List Text) :
    (start files).Sound host window files := by
  constructor <;> simp [start, AllAgree, AllNoted, posted?]

section Step

variable {w d : List (Text × Nat)} {a₁ a₂ active rest : List ((Text × Nat) × Stage)} {path : Text}
  {number : Nat}

theorem AllAgree.cons (h : AllAgree host active) (t : Text × Nat) :
    AllAgree host ((t, .taken) :: active) := by
  intro p n stage hmem
  rcases List.mem_cons.mp hmem with heq | hmem
  · rw [(Prod.mk.inj heq).2]
    exact trivial
  · exact h p n stage hmem

theorem AllAgree.sublist (h : AllAgree host active) (hsub : rest.Sublist active) :
    AllAgree host rest :=
  fun p n stage hmem => h p n stage (hsub.subset hmem)

theorem AllAgree.change {old new : Stage}
    (h : AllAgree host (a₁ ++ ((path, number), old) :: a₂)) (hnew : new.Agrees host path) :
    AllAgree host (a₁ ++ ((path, number), new) :: a₂) := by
  intro p n stage hmem
  rcases List.mem_append.mp hmem with hmem | hmem
  · exact h p n stage (List.mem_append_left _ hmem)
  rcases List.mem_cons.mp hmem with heq | hmem
  · obtain ⟨htask, rfl⟩ := Prod.mk.inj heq
    obtain ⟨rfl, rfl⟩ := Prod.mk.inj htask
    exact hnew
  · exact h p n stage (List.mem_append_right _ (List.mem_cons_of_mem _ hmem))

theorem AllAgree.middle {stage : Stage} (h : AllAgree host (a₁ ++ ((path, number), stage) :: a₂)) :
    stage.Agrees host path :=
  h path number stage (List.mem_append_right _ List.mem_cons_self)

/-- A step that neither notes a document nor takes a noted one away. -/
theorem AllNoted.congr {docs : List (Nat × Document)} (h : AllNoted host docs d active)
    (hsame : ∀ t text, (t, Stage.noted text) ∈ rest ↔ (t, Stage.noted text) ∈ active) :
    AllNoted host docs d rest := by
  intro n u
  rw [h n u]
  simp only [hsame]

/-- The document of a file is noted, and its task is still to post. -/
theorem AllNoted.note {docs : List (Nat × Document)} {text : Text}
    (h : AllNoted host docs d (a₁ ++ ((path, number), .read text) :: a₂))
    (hread : host.files.read path = .ok text) :
    AllNoted host ((number, ⟨text⟩) :: docs) d (a₁ ++ ((path, number), .noted text) :: a₂) := by
  intro n u
  -- the documents before are those of the tasks that are done or have noted; this one had not
  have hbefore := h n u
  simp only [List.mem_append, List.mem_cons, Prod.mk.injEq, reduceCtorEq, and_false,
    false_or] at hbefore
  simp only [List.mem_append, List.mem_cons, Prod.mk.injEq, Stage.noted.injEq, Document.mk.injEq,
    hbefore]
  constructor
  · rintro (⟨rfl, rfl⟩ | ⟨p, hp, hmem | hmem | hmem⟩)
    · -- the new document is that of this task
      exact ⟨path, hread, Or.inr (Or.inr (Or.inl ⟨⟨rfl, rfl⟩, rfl⟩))⟩
    · exact ⟨p, hp, Or.inl hmem⟩
    · exact ⟨p, hp, Or.inr (Or.inl hmem)⟩
    · exact ⟨p, hp, Or.inr (Or.inr (Or.inr hmem))⟩
  -- of the tasks that have noted, only this one is new
  · rintro ⟨p, hp, hmem | hmem | ⟨⟨-, rfl⟩, rfl⟩ | hmem⟩
    · exact Or.inr ⟨p, hp, Or.inl hmem⟩
    · exact Or.inr ⟨p, hp, Or.inr (Or.inl hmem)⟩
    · exact Or.inl ⟨rfl, rfl⟩
    · exact Or.inr ⟨p, hp, Or.inr (Or.inr hmem)⟩

/-- The document that an active task has noted becomes that of a task that is done. -/
theorem AllNoted.post {docs : List (Nat × Document)} {text : Text}
    (h : AllNoted host docs d (a₁ ++ ((path, number), .noted text) :: a₂))
    (hread : host.files.read path = .ok text) :
    AllNoted host docs (d ++ [(path, number)]) (a₁ ++ a₂) := by
  intro n u
  have hbefore := h n u
  simp only [List.mem_append, List.mem_cons, Prod.mk.injEq, Stage.noted.injEq] at hbefore
  simp only [List.mem_append, List.mem_singleton, Prod.mk.injEq, hbefore]
  constructor
  · rintro ⟨p, hp, hmem | hmem | ⟨⟨rfl, rfl⟩, rfl⟩ | hmem⟩
    · exact ⟨p, hp, Or.inl (Or.inl hmem)⟩
    · exact ⟨p, hp, Or.inr (Or.inl hmem)⟩
    · exact ⟨p, hp, Or.inl (Or.inr ⟨rfl, rfl⟩)⟩
    · exact ⟨p, hp, Or.inr (Or.inr hmem)⟩
  · rintro ⟨p, hp, (hmem | ⟨rfl, rfl⟩) | hmem | hmem⟩
    · exact ⟨p, hp, Or.inl hmem⟩
    · -- a path has one text, so it is the document that was noted
      obtain rfl : text = u := Except.ok.inj (hread.symm.trans hp)
      exact ⟨p, hp, Or.inr (Or.inr (Or.inl ⟨⟨rfl, rfl⟩, rfl⟩))⟩
    · exact ⟨p, hp, Or.inr (Or.inl hmem)⟩
    · exact ⟨p, hp, Or.inr (Or.inr (Or.inr hmem))⟩

/-- A file that could not be read has no document, though its task is done. -/
theorem AllNoted.enter {docs : List (Nat × Document)} {fault : FileFault}
    (h : AllNoted host docs d (a₁ ++ ((path, number), .refused fault) :: a₂))
    (hread : host.files.read path = .error fault) :
    AllNoted host docs (d ++ [(path, number)]) (a₁ ++ a₂) := by
  intro n u
  -- a refused task has noted no document, so none is lost when it leaves the active ones
  have hbefore := h n u
  simp only [List.mem_append, List.mem_cons, Prod.mk.injEq, reduceCtorEq, and_false,
    false_or] at hbefore
  simp only [List.mem_append, List.mem_singleton, Prod.mk.injEq, hbefore]
  constructor
  · rintro ⟨p, hp, hmem | hmem⟩
    · exact ⟨p, hp, Or.inl (Or.inl hmem)⟩
    · exact ⟨p, hp, Or.inr hmem⟩
  · rintro ⟨p, hp, (hmem | ⟨rfl, -⟩) | hmem⟩
    · exact ⟨p, hp, Or.inl hmem⟩
    · -- the file of this task cannot be read
      exact absurd (hread.symm.trans hp) (by simp)
    · exact ⟨p, hp, Or.inr hmem⟩

/-- A task that ends leaves the active ones and is done. -/
theorem perm_of_end (t : Text × Nat) (stage : Stage) :
    (w ++ (a₁ ++ a₂).map Prod.fst ++ (d ++ [t])).Perm
      (w ++ (a₁ ++ (t, stage) :: a₂).map Prod.fst ++ d) := by
  rw [List.perm_iff_count]
  intro x
  simp only [List.count_append, List.map_append, List.map_cons, List.count_cons, List.count_nil]
  omega

theorem posted?_concat_of_ne {p : Text} (h : p ≠ path) :
    posted? host window (d ++ [(path, number)]) p = posted? host window d p := by
  unfold posted?
  have hmem : p ∈ (d ++ [(path, number)]).map Prod.fst ↔ p ∈ d.map Prod.fst := by simp [h]
  simp only [hmem]

theorem posted?_concat_of_ok {text : Text} (h : host.files.read path = .ok text) :
    posted? host window (d ++ [(path, number)]) path = some ⟨0, check window text⟩ := by
  unfold posted?
  rw [if_pos (by simp), h]
  rfl

theorem posted?_of_error {fault : FileFault} (h : host.files.read path = .error fault) :
    posted? host window d path = none := by
  unfold posted?
  rw [h]
  split <;> rfl

/-- The faults of the tasks that are done, with one task more. -/
theorem filterMap_fault?_concat (host : Host) (d : List (Text × Nat)) (path : Text) (number : Nat) :
    ((d ++ [(path, number)]).map Prod.fst).filterMap (fault? host) =
      (d.map Prod.fst).filterMap (fault? host) ++ (fault? host path).toList := by
  rw [List.map_append, List.filterMap_append, List.map_singleton]
  cases h : fault? host path <;> simp [h]

end Step

/-- **An action of a worker keeps the invariant.** -/
theorem Sound.step (hstars : host.patterns.StarsMatchAll) {c e : Crew} (h : c.Sound host window files)
    (hstep : Step host window jobs c e) : e.Sound host window files := by
  obtain ⟨htasks, hagree, hdocs, hboard, hunreadable⟩ := h
  cases hstep with
  | take w₁ w₂ free =>
    -- the task moves from the waiting to the active ones, and nothing is known of its file yet
    refine ⟨?_, hagree.cons _, hdocs.congr (by simp), hboard, hunreadable⟩
    refine List.Perm.trans ?_ htasks
    rw [List.perm_iff_count]
    intro x
    simp only [List.count_append, List.map_cons, List.count_cons]
    omega
  | read a₁ a₂ ok =>
    -- the worker holds the text of the file, and the ledger is not touched
    exact ⟨by simpa using htasks, hagree.change ok, hdocs.congr (by simp), hboard, hunreadable⟩
  | refuse a₁ a₂ error =>
    -- the worker holds the fault of the file, and the ledger is not touched
    exact ⟨by simpa using htasks, hagree.change error, hdocs.congr (by simp), hboard, hunreadable⟩
  | @note a₁ a₂ w path number d l text =>
    -- one document more, that of the file; the task goes on, so nothing is posted for it
    have hread : host.files.read path = .ok text := hagree.middle
    exact ⟨by simpa using htasks, hagree.change hread, hdocs.note hread, hboard, hunreadable⟩
  | @post a₁ a₂ w path number d l text =>
    -- the task is done: what is posted is what its path must have on the board from now on, and
    -- the other paths keep what they have
    have hread : host.files.read path = .ok text := hagree.middle
    have hdone : Table.get? (l.post host window path text).board path =
        posted? host window (d ++ [(path, number)]) path := by
      rw [Ledger.get?_post hstars, if_pos rfl, posted?_concat_of_ok hread]
    refine ⟨(perm_of_end _ _).trans htasks, hagree.sublist (by simp), ?_, fun p => ?_, ?_⟩
    · rw [Ledger.post_docs]
      exact hdocs.post hread
    · by_cases hp : p = path
      · exact hp ▸ hdone
      · rw [posted?_concat_of_ne hp, Ledger.get?_post hstars, if_neg hp]
        exact hboard p
    · rw [Ledger.post_unreadable, filterMap_fault?_concat, fault?, hread]
      exact hunreadable.trans (List.append_nil _).symm
  | @enter a₁ a₂ w path number d l fault =>
    -- the task is done, with one fault more; nothing is posted for its path, by this task or others
    have hread : host.files.read path = .error fault := hagree.middle
    refine ⟨(perm_of_end _ _).trans htasks, hagree.sublist (by simp), hdocs.enter hread,
      fun p => ?_, ?_⟩
    · by_cases hp : p = path
      · subst hp
        rw [posted?_of_error hread]
        exact (hboard p).trans (posted?_of_error hread)
      · rw [posted?_concat_of_ne hp]
        exact hboard p
    · rw [filterMap_fault?_concat, fault?, hread]
      exact congrArg (· ++ [⟨path, fault⟩]) hunreadable

theorem sound_of_reaches (hstars : host.patterns.StarsMatchAll) {c : Crew}
    (h : Reaches host window jobs (start files) c) : c.Sound host window files := by
  induction h with
  | refl => exact sound_start host window files
  | tail _ hstep ih => exact ih.step hstars hstep

/-! ### The end of a schedule -/

theorem Sound.done_perm {c : Crew} (h : c.Sound host window files) (hend : c.Finished) :
    c.done.Perm files.zipIdx := by
  have htasks := h.tasks
  rwa [hend.1, hend.2] at htasks

/-- The document of a file is found under its number, which no other file has. -/
theorem Sound.lookup_docs {c : Crew} (h : c.Sound host window files) (hend : c.Finished)
    {path text : Text} {number : Nat} (hfile : (path, number) ∈ files.zipIdx)
    (hread : host.files.read path = .ok text) : c.ledger.docs.lookup number = some ⟨text⟩ := by
  have hdone := h.done_perm hend
  have hmem : (number, ⟨text⟩) ∈ c.ledger.docs :=
    (h.docs number text).mpr ⟨path, hread, Or.inl (hdone.mem_iff.mpr hfile)⟩
  cases hlook : c.ledger.docs.lookup number with
  | none =>
    have hnone := List.lookup_eq_none_iff.mp hlook (number, ⟨text⟩) hmem
    exact absurd hnone (by simp)
  | some doc =>
    -- whatever is found there was noted for a file of this number
    obtain ⟨u⟩ := doc
    obtain ⟨before, after, heq, -⟩ := List.lookup_eq_some_iff.mp hlook
    have hfound : (number, (⟨u⟩ : Document)) ∈ c.ledger.docs := by simp [heq]
    obtain ⟨p, hp, hp' | hp'⟩ := (h.docs number u).mp hfound
    · have hsame : some p = some path := by
        rw [← List.mk_mem_zipIdx_iff_getElem?.mp (hdone.mem_iff.mp hp'),
          List.mk_mem_zipIdx_iff_getElem?.mp hfile]
      obtain rfl := Option.some.inj hsame
      rw [Except.ok.inj (hp.symm.trans hread)]
    · rw [hend.2] at hp'
      exact absurd hp' List.not_mem_nil

theorem Sound.get?_board {c : Crew} (h : c.Sound host window files) (hend : c.Finished)
    {path text : Text} (hfile : path ∈ files) (hread : host.files.read path = .ok text) :
    Table.get? c.ledger.board path = some ⟨0, check window text⟩ := by
  have hmem : path ∈ c.done.map Prod.fst := by
    rw [((h.done_perm hend).map Prod.fst).mem_iff, List.zipIdx_map_fst]
    exact hfile
  rw [h.board]
  unfold posted?
  rw [if_pos hmem, hread]
  rfl

theorem Sound.unreadable_perm {c : Crew} (h : c.Sound host window files) (hend : c.Finished) :
    c.ledger.unreadable.Perm (files.filterMap (fault? host)) := by
  have hpaths := (h.done_perm hend).map Prod.fst
  rw [List.zipIdx_map_fst] at hpaths
  rw [h.unreadable]
  exact hpaths.filterMap _

theorem Sound.collect_eq {c : Crew} (h : c.Sound host window files) (hend : c.Finished)
    {text : Text → Text} (hread : ∀ path ∈ files, host.files.read path = .ok (text path)) (root : Text) :
    c.ledger.collect root files =
      files.map fun path => .ofText root window path (text path) := by
  -- each file is on the board under its path, and its document has its number
  have hall : ∀ t ∈ files.zipIdx,
      ((Table.get? c.ledger.board t.1).map fun p =>
        (⟨displayPath root t.1, (c.ledger.docs.lookup t.2).getD ⟨[]⟩, p.diagnostics⟩ : FileResult)) =
      some (.ofText root window t.1 (text t.1)) := by
    rintro ⟨path, number⟩ hfile
    have hmem : path ∈ files := List.mem_of_getElem? (List.mk_mem_zipIdx_iff_getElem?.mp hfile)
    dsimp only
    rw [h.get?_board hend hmem (hread path hmem), h.lookup_docs hend hfile (hread path hmem)]
    rfl
  calc c.ledger.collect root files
      = files.zipIdx.filterMap fun t => some (.ofText root window t.1 (text t.1)) :=
        List.filterMap_congr hall
    _ = (files.zipIdx.map Prod.fst).map fun path => .ofText root window path (text path) := by
        rw [List.map_map]
        exact congrFun List.filterMap_eq_map _
    _ = files.map fun path => .ofText root window path (text path) := by
        rw [List.zipIdx_map_fst]

/-- **The results at the end of a schedule.** -/
theorem Sound.results_eq {c : Crew} (h : c.Sound host window files) (hend : c.Finished)
    (root : Text) :
    (∀ text : Text → Text, (∀ path ∈ files, host.files.read path = .ok (text path)) →
      c.ledger.results root files =
        .ok (files.map fun path => .ofText root window path (text path))) ∧
    ((∃ path ∈ files, ∃ fault, host.files.read path = .error fault) →
      ∃ faults, c.ledger.results root files = .error faults ∧
        faults.Perm (files.filterMap (fault? host))) := by
  have hperm := h.unreadable_perm hend
  unfold Ledger.results
  constructor
  · intro text hread
    -- no file has a fault, so no fault was entered
    have hnone : files.filterMap (fault? host) = [] := by
      refine List.filterMap_eq_nil_iff.mpr fun path hpath => ?_
      unfold fault?
      rw [hread path hpath]
    rw [hnone] at hperm
    rw [if_pos (List.isEmpty_iff.mpr hperm.eq_nil), h.collect_eq hend hread]
  · rintro ⟨path, hpath, fault, hfault⟩
    -- the fault of the file was entered when its task ended
    have hmem : ⟨path, fault⟩ ∈ c.ledger.unreadable := by
      refine hperm.mem_iff.mpr (List.mem_filterMap.mpr ⟨path, hpath, ?_⟩)
      unfold fault?
      rw [hfault]
    refine ⟨c.ledger.unreadable, if_neg fun hempty => ?_, hperm⟩
    -- so the list of faults is not empty
    rw [List.isEmpty_iff.mp hempty] at hmem
    exact absurd hmem List.not_mem_nil

/-- A run of all tasks that succeeds has read every file. -/
theorem checkAll_eq_ok (hstars : host.patterns.StarsMatchAll) {root : Text}
    {results : List FileResult}
    (h : checkAll host root window files = .ok results) :
    (∀ path ∈ files, ∃ text, host.files.read path = .ok text) ∧
      results = files.map fun path =>
        .ofText root window path ((host.files.read path).toOption.getD []) := by
  -- a run of all tasks is a schedule with one worker
  have hreach : Reaches host window 1 (start files) ⟨[], [], _, _⟩ :=
    reaches_foldl_check files.zipIdx [] {}
  have hend := (sound_of_reaches hstars hreach).results_eq ⟨rfl, rfl⟩ root
  have hall : ∀ path ∈ files, ∃ text, host.files.read path = .ok text := by
    intro path hpath
    cases hread : host.files.read path with
    | ok text => exact ⟨text, rfl⟩
    | error fault =>
      -- a file that cannot be read would leave the run without results
      obtain ⟨faults, hfaults, -⟩ := hend.2 ⟨path, hpath, fault, hread⟩
      exact absurd (h.symm.trans hfaults) (by simp)
  refine ⟨hall, ?_⟩
  have hok := hend.1 (fun path => (host.files.read path).toOption.getD []) fun path hpath => by
    obtain ⟨text, hread⟩ := hall path hpath
    rw [hread]
    rfl
  exact Except.ok.inj (h.symm.trans hok)

/-- **Every schedule checks all files, whatever the order of its actions.** Take any schedule of the
tasks of some files, with any number of jobs.

* It does not get stuck and does not go on for ever, so it can be brought to an end.
* At its end, if all files can be read, the results are those of the files, one for each and in the
  order of the files; if some cannot be read, there are no results but one fault for each of these.
* `checkAll` gives the results of one of these schedules, so the same holds of it. -/
theorem every_schedule_checks_all (host : Host) (hstars : host.patterns.StarsMatchAll) (root : Text)
    (window jobs : Int) (files : List Text) {c : Crew} (hc : Reaches host window jobs (start files) c) :
    ((¬ c.Finished → ∃ e, Step host window jobs c e) ∧
      (∀ e, Step host window jobs c e → e.work < c.work) ∧
      ∃ e, Reaches host window jobs c e ∧ e.Finished) ∧
    (c.Finished →
      (∀ text : Text → Text, (∀ path ∈ files, host.files.read path = .ok (text path)) →
        c.ledger.results root files =
          .ok (files.map fun path => .ofText root window path (text path))) ∧
      ((∃ path ∈ files, ∃ fault, host.files.read path = .error fault) →
        ∃ faults, c.ledger.results root files = .error faults ∧
          faults.Perm (files.filterMap (fault? host)))) ∧
    ∃ e, Reaches host window jobs (start files) e ∧ e.Finished ∧
      checkAll host root window files = e.ledger.results root files := by
  refine ⟨⟨exists_step host window jobs, fun e => work_lt_of_step, exists_finished host window jobs c⟩,
    fun hend => (sound_of_reaches hstars hc).results_eq hend root, ?_⟩
  exact ⟨_, reaches_foldl_check files.zipIdx [] {}, ⟨rfl, rfl⟩, rfl⟩

/-- Two files, of which the first has an open block. -/
def twoFiles : FileTree :=
  (({} : FileTree).write (Text.ofString "/v/a") (.file (Text.ofString "@if"))).write
    (Text.ofString "/v/b") (.file (Text.ofString "<c-x>"))

/-- The two tasks overlap, and the second one ends first; the results are in the order of the files. -/
theorem every_schedule_checks_all_overlapping :
    ∃ c, Reaches twoFiles.host 20 2 (start [Text.ofString "/v/a", Text.ofString "/v/b"]) c ∧
      c.Finished ∧ c.done = [(Text.ofString "/v/b", 1), (Text.ofString "/v/a", 0)] ∧
      c.ledger.results (Text.ofString "/v") [Text.ofString "/v/a", Text.ofString "/v/b"] =
        .ok [⟨Text.ofString "a", ⟨Text.ofString "@if"⟩,
            [⟨.onLine 0 0 3, .unclosedDirective (Text.ofString "@if")⟩]⟩,
          ⟨Text.ofString "b", ⟨Text.ofString "<c-x>"⟩,
            [⟨.onLine 0 0 5, .unclosedTag (Text.ofString "x")⟩]⟩] := by
  have ha : twoFiles.host.files.read (Text.ofString "/v/a") = .ok (Text.ofString "@if") := rfl
  have hb : twoFiles.host.files.read (Text.ofString "/v/b") = .ok (Text.ofString "<c-x>") := rfl
  -- both tasks are taken up, and the second is noted and posted while the first is still to be
  -- noted
  have hreach : Reaches twoFiles.host 20 2 (start [Text.ofString "/v/a", Text.ofString "/v/b"])
      ⟨[], [], [(Text.ofString "/v/b", 1), (Text.ofString "/v/a", 0)], _⟩ :=
    .head (.take [(Text.ofString "/v/a", 0)] [] (by decide)) <|
    .head (.take [] [] (by decide)) <|
    .head (.read [] [_] ha) <|
    .head (.read [_] [] hb) <|
    .head (.note [_] []) <|
    .head (.note [] [_]) <|
    .head (.post [_] []) <|
    .head (.post [] []) .refl
  refine ⟨_, hreach, ⟨rfl, rfl⟩, rfl, ?_⟩
  obtain ⟨-, hend, -⟩ := every_schedule_checks_all twoFiles.host Glob.starsMatchAll
    (Text.ofString "/v") 20 2 _ hreach
  rw [(hend ⟨rfl, rfl⟩).1
    (fun path => if path = Text.ofString "/v/a" then Text.ofString "@if" else Text.ofString "<c-x>")
    (by simpa using ⟨ha, hb⟩)]
  decide +kernel

end Crew

end ViewLint
