import ViewLint.FileTree.Host
import ViewLint.Proofs.FileSystem.Walk

/-!
# Trees are file systems

In a file system the entries of a directory have proper names, and no two the same one. A tree built by
writing entries has more: the names stand in increasing order (`Entry.WellFormed`, kept by
`FileTree.WellFormed.write`), so each name leads to one entry.

So a well-formed tree has what is relied on in a file system (`FileTree.WellFormed.lawful`), and its walk
does what a walk does (`FileTree.WellFormed.follows`).
-/

namespace ViewLint

namespace Entry

/-- The names of a directory are proper and stand in increasing order, at every level. -/
inductive WellFormed : Entry → Prop
  | file (content : Text) : WellFormed (.file content)
  | dir {entries : List (Text × Entry)} (sorted : (entries.map Prod.fst).Pairwise (· < ·))
      (proper : ∀ q ∈ entries, Path.IsProper q.1) (below : ∀ q ∈ entries, WellFormed q.2) :
      WellFormed (.dir entries)

theorem wellFormed_dir_nil : (Entry.dir []).WellFormed :=
  .dir List.Pairwise.nil (fun _ h => absurd h List.not_mem_nil) fun _ h => absurd h List.not_mem_nil

theorem WellFormed.children {e : Entry} (h : e.WellFormed) :
    (e.children.map Prod.fst).Pairwise (· < ·) ∧
      ∀ q ∈ e.children, Path.IsProper q.1 ∧ q.2.WellFormed := by
  cases h with
  | file => exact ⟨List.Pairwise.nil, fun _ h => absurd h List.not_mem_nil⟩
  | dir sorted proper below => exact ⟨sorted, fun q hq => ⟨proper q hq, below q hq⟩⟩

theorem mem_put {name : Text} {e : Entry} {entries : List (Text × Entry)} {q : Text × Entry}
    (h : q ∈ put name e entries) : q = (name, e) ∨ q ∈ entries := by
  induction entries with
  | nil => exact Or.inl (List.mem_singleton.mp h)
  | cons first rest ih =>
    obtain ⟨n, old⟩ := first
    unfold put at h
    -- the name is found, or its place is before the first entry, or it goes in the rest
    split at h
    · rename_i hn
      rcases List.mem_cons.mp h with rfl | h
      · exact Or.inl (by rw [hn])
      · exact Or.inr (List.mem_cons_of_mem _ h)
    · split at h
      · exact List.mem_cons.mp h
      · rcases List.mem_cons.mp h with rfl | h
        · exact Or.inr List.mem_cons_self
        · exact (ih h).imp id (List.mem_cons_of_mem _)

theorem sorted_put (name : Text) (e : Entry) {entries : List (Text × Entry)}
    (h : (entries.map Prod.fst).Pairwise (· < ·)) :
    ((put name e entries).map Prod.fst).Pairwise (· < ·) := by
  induction entries with
  | nil => exact List.pairwise_singleton _ _
  | cons first rest ih =>
    obtain ⟨n, old⟩ := first
    rw [List.map_cons, List.pairwise_cons] at h
    unfold put
    split
    · exact List.pairwise_cons.mpr h
    · rename_i hn
      split
      · -- the name belongs before the first one
        rename_i hle
        have hlt : name < n := by
          by_contra hnot
          exact hn (List.le_antisymm (List.not_lt.mp hnot) ((Text.le_iff _ _).mp hle))
        refine List.pairwise_cons.mpr ⟨?_, List.pairwise_cons.mpr h⟩
        intro m hm
        rcases List.mem_cons.mp hm with rfl | hm
        · exact hlt
        · exact List.lt_trans hlt (h.1 m hm)
      · -- the name belongs among the rest
        rename_i hle
        have hlt : n < name := by
          rw [Text.le_iff] at hle
          exact List.not_le.mp hle
        refine List.pairwise_cons.mpr ⟨?_, ih h.2⟩
        intro m hm
        obtain ⟨q, hq, rfl⟩ := List.mem_map.mp hm
        rcases mem_put hq with rfl | hq
        · exact hlt
        · exact h.1 _ (List.mem_map_of_mem hq)

/-- In order, a name leads to the entry that has it. -/
theorem lookup_eq_some_iff {entries : List (Text × Entry)}
    (h : (entries.map Prod.fst).Pairwise (· < ·)) (name : Text) (e : Entry) :
    entries.lookup name = some e ↔ (name, e) ∈ entries := by
  rw [List.lookup_eq_some_iff]
  constructor
  · rintro ⟨before, after, rfl, -⟩
    exact List.mem_append_right _ List.mem_cons_self
  · intro hmem
    obtain ⟨before, after, rfl⟩ := List.append_of_mem hmem
    -- all names before it are smaller, so none of them is found first
    refine ⟨before, after, rfl, ?_⟩
    intro q hq
    rw [List.map_append, List.pairwise_append] at h
    have hlt := h.2.2 q.1 (List.mem_map_of_mem hq) name (List.mem_map_of_mem List.mem_cons_self)
    simpa using fun heq => List.lt_irrefl _ (heq ▸ hlt)

theorem WellFormed.write {new : Entry} (hnew : new.WellFormed) {names : List Text}
    (hnames : ∀ s ∈ names, Path.IsProper s) {old : Entry} (hold : old.WellFormed) :
    (Entry.write new names old).WellFormed := by
  induction names generalizing old with
  | nil =>
    cases hnew with
    | file => exact .file _
    | dir sorted proper below =>
      cases hold with
      | file => exact .dir sorted proper below
      | dir sorted proper below => exact .dir sorted proper below
  | cons name rest ih =>
    obtain ⟨sorted, hchildren⟩ := hold.children
    -- what is written below, over the old entry of the name or over an empty directory
    have hchild : (Entry.write new rest ((old.children.lookup name).getD (.dir []))).WellFormed := by
      apply ih fun s hs => hnames s (List.mem_cons_of_mem _ hs)
      cases hlookup : old.children.lookup name with
      | none => exact wellFormed_dir_nil
      | some child => exact (hchildren _ ((lookup_eq_some_iff sorted name child).mp hlookup)).2
    refine .dir (sorted_put name _ sorted) ?_ ?_
    · intro q hq
      rcases mem_put hq with rfl | hq
      · exact hnames name List.mem_cons_self
      · exact (hchildren q hq).1
    · intro q hq
      rcases mem_put hq with rfl | hq
      · exact hchild
      · exact (hchildren q hq).2

theorem find?_append (e : Entry) (names more : List Text) :
    e.find? (names ++ more) = (e.find? names).bind (·.find? more) := by
  induction names generalizing e with
  | nil => rfl
  | cons name names ih =>
    rw [List.cons_append, find?, find?]
    cases e.children.lookup name with
    | none => rfl
    | some child => exact ih child

theorem WellFormed.find? {e : Entry} (h : e.WellFormed) {names : List Text} {child : Entry}
    (hfind : e.find? names = some child) :
    child.WellFormed ∧ ∀ s ∈ names, Path.IsProper s := by
  induction names generalizing e with
  | nil =>
    obtain rfl := Option.some.inj hfind
    exact ⟨h, fun _ hs => absurd hs List.not_mem_nil⟩
  -- a child of a directory keeps the names in order, so the one looked up is a member
  | cons name names ih =>
    rw [Entry.find?] at hfind
    cases hlookup : e.children.lookup name with
    | none =>
      rw [hlookup] at hfind
      exact absurd hfind (Option.some_ne_none _).symm
    | some next =>
      rw [hlookup] at hfind
      obtain ⟨sorted, hchildren⟩ := h.children
      have hmem := (lookup_eq_some_iff sorted name next).mp hlookup
      obtain ⟨hchild, hnames⟩ := ih (hchildren _ hmem).2 hfind
      refine ⟨hchild, ?_⟩
      intro s hs
      rcases List.mem_cons.mp hs with rfl | hs
      · exact (hchildren _ hmem).1
      · exact hnames s hs

end Entry

namespace FileTree

/-- What stands below `/` is a file system. -/
def WellFormed (tree : FileTree) : Prop := tree.absolute.WellFormed

theorem wellFormed_empty : ({} : FileTree).WellFormed := Entry.wellFormed_dir_nil

theorem locate_of_isAbsolute {path : Text} (h : Path.isAbsolute path = true) :
    locate path = (true, Path.segments path) := by
  unfold locate
  rw [h]
  rfl

/-- The names that lead below `/` are proper. -/
theorem isProper_of_locate {path : Text} {names : List Text} (h : locate path = (true, names)) :
    ∀ s ∈ names, Path.IsProper s := by
  by_cases habs : Path.isAbsolute path = true
  · obtain ⟨-, rfl⟩ := Prod.mk.inj ((locate_of_isAbsolute habs).symm.trans h)
    exact Path.isProper_of_mem_segments habs
  · -- a relative path is below `/` only if it leads to `/` itself
    have hnil : names = [] := by
      unfold locate at h
      rw [Bool.not_eq_true] at habs
      simp only [habs, Bool.false_or] at h
      split at h
      · rename_i hempty
        rw [← (Prod.mk.inj h).2]
        exact List.isEmpty_iff.mp hempty
      · split at h
        · exact (Prod.mk.inj h).2.symm
        · exact absurd (Prod.mk.inj h).1 Bool.false_ne_true
    rw [hnil]
    exact fun _ hs => absurd hs List.not_mem_nil

/-- **Writing keeps a tree a file system.** -/
theorem WellFormed.write {tree : FileTree} (h : tree.WellFormed) (path : Text) {e : Entry}
    (he : e.WellFormed) : (tree.write path e).WellFormed := by
  unfold FileTree.write
  split
  · rename_i names hlocate
    exact Entry.WellFormed.write he (isProper_of_locate hlocate) h
  · exact h

/-- Whether a tree is a file system does not depend on where its links are. -/
theorem WellFormed.withLinks {tree : FileTree} (h : tree.WellFormed) (links : List Text) :
    FileTree.WellFormed { tree with links } := h

theorem entry?_of_isAbsolute (tree : FileTree) {path : Text} (h : Path.isAbsolute path = true) :
    tree.entry? path = tree.absolute.find? (Path.segments path) := by
  unfold entry?
  rw [locate_of_isAbsolute h]

theorem access_eq_ok {tree : FileTree} {action : String} {path : Text} {e : Entry}
    (h : tree.access action path = .ok e) :
    tree.entry? path = some e ∧ ∀ other, tree.access other path = .ok e := by
  unfold access at h ⊢
  cases hentry : tree.entry? path with
  | none =>
    rw [hentry] at h
    cases hstorage : tree.storage with
    | memory => simp [hstorage] at h
    -- on disk the fault also says what was tried, but a fault it is
    | disk =>
      simp only [hstorage] at h
      split at h <;> exact absurd h (by simp)
  | some found =>
    rw [hentry] at h
    cases hstorage : tree.storage with
    | memory =>
      simp only [hstorage] at h
      exact ⟨congrArg some (Except.ok.inj h), fun _ => h⟩
    -- whether the entry may be opened does not depend on the action
    | disk =>
      simp only [hstorage] at h
      split at h
      · exact absurd h (by simp)
      · next hopen =>
        refine ⟨congrArg some (Except.ok.inj h), fun _ => ?_⟩
        dsimp only
        rw [if_neg hopen, h]

/-- An entry can be accessed unless its path ends in a slash. -/
theorem access_of_entry? {tree : FileTree} {path : Text} {e : Entry} (h : tree.entry? path = some e)
    (hlast : path.getLast? ≠ some Path.slash) (action : String) : tree.access action path = .ok e := by
  unfold access
  rw [h]
  cases tree.storage with
  | memory => rfl
  | disk => exact if_neg (by simp [hlast])

/-! ### One step down -/

section Child

variable {tree : FileTree} {path name : Text} (hpath : Path.isAbsolute path = true)
  (hname : Path.IsProper name)

include hpath hname

/-- The path of an entry of a directory does not end in a slash. -/
theorem getLast?_join_ne : (Path.join [path, name]).getLast? ≠ some Path.slash := by
  have hproper : ∀ s ∈ [name], Path.IsProper s := List.forall_mem_singleton.mpr hname
  have hlast : some (Path.name (Path.join [Path.clean path, name])) = some name :=
    Path.name_below (Path.isRooted_clean hpath) hproper (List.cons_ne_nil _ _)
  rw [Path.join_clean hpath] at hlast
  intro hslash
  -- behind the slash there would be an empty name
  obtain ⟨front, hfront⟩ : ∃ front, Path.join [path, name] = front ++ [Path.slash] :=
    ⟨_, (List.dropLast_append_getLast? _ hslash).symm⟩
  rw [hfront] at hlast
  unfold Path.name at hlast
  rw [Text.split_append_cons] at hlast
  have hempty : name = [] := by simpa [Text.split] using hlast.symm
  exact hname.ne_nil hempty

theorem entry?_join {e child : Entry} (he : tree.entry? path = some e)
    (hchild : e.children.lookup name = some child) :
    tree.entry? (Path.join [path, name]) = some child := by
  have hrooted := Path.isRooted_clean hpath
  rw [tree.entry?_of_isAbsolute hpath] at he
  rw [← Path.join_clean hpath,
    tree.entry?_of_isAbsolute (Path.isRooted_join hrooted.isAbsolute name).isAbsolute,
    Path.segments_join_of_isProper hrooted hname, Path.segments_clean, Entry.find?_append, he]
  simp [Entry.find?, hchild]

/-- What is told of an entry names it. -/
theorem name_infoAt_join (e : Entry) : (tree.infoAt (Path.join [path, name]) e).name = name := by
  have hproper : ∀ s ∈ [name], Path.IsProper s := List.forall_mem_singleton.mpr hname
  have hrooted := Path.isRooted_clean hpath
  have hlast := Path.name_below hrooted hproper (List.cons_ne_nil _ _)
  change some (Path.name (Path.join [Path.clean path, name])) = some name at hlast
  unfold infoAt
  rw [(Path.isRooted_join hpath name).clean_eq, ← Path.join_clean hpath]
  exact Option.some.inj hlast

end Child

/-! ### What is relied on -/

variable {σ ε : Type} {tree : FileTree}

theorem list_eq_ok {path : Text} {infos : List FileInfo} (h : tree.fileSystem.list path = .ok infos) :
    ∃ e, tree.entry? path = some e ∧ infos.map FileInfo.name = e.children.map Prod.fst := by
  change (tree.openEntry path).map _ = _ at h
  unfold openEntry at h
  split at h
  · exact absurd h (by simp [Except.map])
  · cases haccess : tree.access "open" path with
    | error f =>
      rw [haccess] at h
      exact absurd h (by simp [Except.map])
    | ok e =>
      rw [haccess] at h
      obtain rfl := Except.ok.inj h
      refine ⟨e, (access_eq_ok haccess).1, ?_⟩
      rw [List.map_map]
      rfl

theorem WellFormed.children_of_list (htree : tree.WellFormed) {path : Text}
    (hpath : Path.isAbsolute path = true) {infos : List FileInfo}
    (h : tree.fileSystem.list path = .ok infos) :
    (infos.map FileInfo.name).Pairwise (· < ·) ∧
      ∀ s ∈ infos.map FileInfo.name, Path.IsProper s := by
  obtain ⟨e, he, hnames⟩ := list_eq_ok h
  rw [tree.entry?_of_isAbsolute hpath] at he
  obtain ⟨sorted, hchildren⟩ := (Entry.WellFormed.find? htree he).1.children
  rw [hnames]
  refine ⟨sorted, fun s hs => ?_⟩
  obtain ⟨q, hq, rfl⟩ := List.mem_map.mp hs
  exact (hchildren q hq).1

/-- **A well-formed tree has what is relied on in a file system.** -/
theorem WellFormed.lawful (htree : tree.WellFormed) : tree.fileSystem.Lawful where
  proper := fun dir infos hdir h i hi =>
    (htree.children_of_list hdir h).2 i.name (List.mem_map_of_mem hi)
  -- sorted names have no name twice
  nodup := by
    intro dir infos hdir h
    refine (htree.children_of_list hdir h).1.imp ?_
    rintro a _ hlt rfl
    exact List.lt_irrefl a hlt
  name := by
    intro dir name info hdir hname h
    change (tree.look (Path.join [dir, name])).map _ = _ at h
    cases hlook : tree.look (Path.join [dir, name]) with
    | error f =>
      rw [hlook] at h
      exact absurd h (by simp [Except.map])
    | ok e =>
      rw [hlook] at h
      obtain rfl := Except.ok.inj h
      exact name_infoAt_join hdir hname e

/-! ### The walk of a tree -/

section Walk

variable {visit : Visitor σ ε} (hplain : visit.IsPlain)

include hplain

theorem runs_walkEntries {path : Text} {entries : List (Text × Entry)}
    (haccess : ∀ q ∈ entries, ∀ action, tree.access action (Path.join [path, q.1]) = .ok q.2)
    (hruns : ∀ q ∈ entries, ∀ s, Walk.Runs tree.fileSystem visit
      (.entry (Path.join [path, q.1]) (tree.infoAt (Path.join [path, q.1]) q.2)) s
      (tree.walkEntry visit (Path.join [path, q.1]) q.2 s)) (s : σ) :
    Walk.Runs tree.fileSystem visit (.entries path (entries.map Prod.fst)) s
      (tree.walkEntries visit path entries s) := by
  induction entries generalizing s with
  | nil =>
    rw [walkEntries]
    exact .nil
  | cons first rest ih =>
    obtain ⟨name, e⟩ := first
    obtain ⟨haccess, haccessRest⟩ := List.forall_mem_cons.mp haccess
    obtain ⟨hrun, hrunsRest⟩ := List.forall_mem_cons.mp hruns
    rw [List.map_cons, walkEntries]
    by_cases hfails : tree.failStat.contains (Path.join [path, name]) = true
    · -- the entry cannot be looked at, which stops the visitor
      have hlooked : tree.fileSystem.lstat (Path.join [path, name]) =
          .error (.refused (lookAction tree.storage) (Path.join [path, name]) tree.refusal) := by
        change (tree.look _).map _ = _
        unfold look
        rw [if_pos hfails]
        rfl
      obtain ⟨reason, hstop⟩ := hplain.fault s (Path.join [path, name])
        (.refused (lookAction tree.storage) (Path.join [path, name]) tree.refusal)
      simp only [hfails, if_true, hstop, settle]
      exact .unseen hlooked hstop
    · have hlooked : tree.fileSystem.lstat (Path.join [path, name]) =
          .ok (tree.infoAt (Path.join [path, name]) e) := by
        change (tree.look _).map _ = _
        unfold look
        rw [if_neg hfails, haccess]
        rfl
      simp only [if_neg hfails]
      have hrun := hrun s
      cases hfirst : tree.walkEntry visit (Path.join [path, name]) e s with
      | error reason =>
        rw [hfirst] at hrun
        exact .broken hlooked hrun
      | ok t =>
        rw [hfirst] at hrun
        exact .cons hlooked hrun (ih haccessRest hrunsRest t)

theorem runs_walkEntry {e : Entry} (he : e.WellFormed) {path : Text}
    (hpath : Path.isAbsolute path = true) (haccess : ∀ action, tree.access action path = .ok e)
    (s : σ) :
    Walk.Runs tree.fileSystem visit (.entry path (tree.infoAt path e)) s
      (tree.walkEntry visit path e s) := by
  induction he generalizing path s with
  | file content =>
    have hfile : (tree.infoAt path (.file content)).isDir = false := rfl
    rw [walkEntry]
    cases hvisit : visit s path (.ok (tree.infoAt path (.file content))) with
    | next t => exact .file hfile hvisit
    | skip t => exact absurd hvisit (hplain.file s path _ hfile t)
    | stop reason => exact .stop hvisit
  | @dir entries sorted proper below ih =>
    rw [walkEntry]
    cases hvisit : visit s path (.ok (tree.infoAt path (.dir entries))) with
    | stop reason => exact .stop hvisit
    | skip t =>
      cases hisDir : (tree.infoAt path (.dir entries)).isDir with
      | true => exact .skip hisDir hvisit
      | false => exact absurd hvisit (hplain.file s path _ hisDir t)
    | next t =>
      dsimp only
      cases hisDir : (tree.infoAt path (.dir entries)).isDir with
      | false => exact .file hisDir hvisit
      | true =>
        by_cases hfails : tree.failOpen.contains path = true
        · -- the directory cannot be opened, which stops the visitor
          have hlisted : tree.fileSystem.list path =
              .error (.refused "open" path tree.refusal) := by
            change (tree.openEntry path).map _ = _
            unfold openEntry
            rw [if_pos hfails]
            rfl
          obtain ⟨reason, hstop⟩ := hplain.fault t path (.refused "open" path tree.refusal)
          simp only [hfails, Bool.not_true, Bool.false_eq_true, if_false, if_true, hstop, settle]
          exact .unlisted hisDir hvisit hlisted hstop
        · simp only [if_neg hfails, Bool.not_true, Bool.false_eq_true, if_false]
          have hentry := (access_eq_ok (haccess "open")).1
          have hchild : ∀ q ∈ entries, ∀ action,
              tree.access action (Path.join [path, q.1]) = .ok q.2 := by
            intro q hq action
            refine access_of_entry? (entry?_join hpath (proper q hq) hentry ?_)
              (getLast?_join_ne hpath (proper q hq)) action
            exact (Entry.lookup_eq_some_iff sorted q.1 q.2).mpr hq
          have hentries := runs_walkEntries hplain hchild
            (fun q hq s => ih q hq (Path.isRooted_join hpath q.1).isAbsolute (hchild q hq) s) t
          have hlisted : tree.fileSystem.list path = .ok (entries.map fun child =>
              { tree.infoAt (Path.join [path, child.1]) child.2 with name := child.1 }) := by
            change (tree.openEntry path).map _ = _
            unfold openEntry
            rw [if_neg hfails, haccess]
            rfl
          refine .dir hisDir hvisit hlisted ?_
          rw [List.map_map]
          exact hentries

end Walk

/-- **The walk of a well-formed tree does what a walk does.** -/
theorem WellFormed.follows (htree : tree.WellFormed) :
    Walk.Follows (σ := σ) (ε := ε) tree.walk tree.fileSystem := by
  intro path visit s hpath hplain
  constructor
  · -- nothing at `path`: the visitor is told, and stops the walk
    intro f hlooked
    change (tree.look path).map _ = _ at hlooked
    obtain ⟨reason, hstop⟩ := hplain.fault s path f
    refine ⟨reason, hstop, ?_⟩
    unfold walk
    cases hlook : tree.look path with
    | ok e =>
      rw [hlook] at hlooked
      exact absurd hlooked (by simp [Except.map])
    | error g =>
      rw [hlook] at hlooked
      obtain rfl : g = f := Except.error.inj hlooked
      dsimp only
      rw [hstop]
      rfl
  · -- an entry at `path`: the walk of the tree is a run of the visitor over it
    intro info hlooked
    change (tree.look path).map _ = _ at hlooked
    unfold walk
    cases hlook : tree.look path with
    | error f =>
      rw [hlook] at hlooked
      exact absurd hlooked (by simp [Except.map])
    | ok e =>
      rw [hlook] at hlooked
      obtain rfl := Except.ok.inj hlooked
      -- `look` refuses the empty path only
      have haccess : tree.access (lookAction tree.storage) path = .ok e := by
        unfold look at hlook
        split at hlook
        · exact absurd hlook (by simp)
        · exact hlook
      obtain ⟨hentry, hall⟩ := access_eq_ok haccess
      rw [tree.entry?_of_isAbsolute hpath] at hentry
      exact runs_walkEntry hplain (Entry.WellFormed.find? htree hentry).1 hpath hall s

theorem lawful_host (tree : FileTree) (htree : tree.WellFormed) : tree.host.files.Lawful :=
  htree.lawful

theorem follows_walkTemplates (tree : FileTree) (htree : tree.WellFormed) :
    Walk.Follows tree.host.walkTemplates tree.host.files := htree.follows

theorem follows_walkComponents (tree : FileTree) (htree : tree.WellFormed) :
    Walk.Follows tree.host.walkComponents tree.host.files := htree.follows

end FileTree

end ViewLint
