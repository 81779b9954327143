import ViewLint.Proofs.Server.Freshness
import ViewLint.Proofs.Server.Mirror

/-!
# What a closed document leaves behind

Diagnostics are published under the URI with which a document was opened, and withdrawn under the URI
of the message that closes it. The store does not mind if the two are different spellings of one
file, because it goes by the normalized URI. A board does: it keeps what was published under the
first spelling.

`Server.board_holds_iff` says exactly what a board holds after a run in which documents are opened only
while they are not open: the diagnostics of the templates that are open now, and what was left behind
(`Server.LeftBehind`) by templates that were closed under another spelling. So closing cleans up in
runs in which a document is closed under the spelling with which it was opened, and
`Server.respelled_close_keeps_diagnostics` shows that it does not in others.

The induction is over the run, with `Server.Accounted` for the invariant and a step for closes
(`Accounted.close`) and one for the other messages (`Accounted.concat`). A message that closes nothing
only adds to the board, and what it adds is a template of the store; the other direction for open
templates is the freshness of their diagnostics.
-/

namespace ViewLint.Server

/-! ### Runs -/

/-- A template with the URI is open. -/
def Shows (s : Server) (uri : Text) : Prop := ∃ d, s.Holds d ∧ s.IsTemplate d ∧ d.uri = uri

/-- In the run documents are opened only while they are not open. -/
def OpensFresh (s : Server) (ms : List DocumentMessage) : Prop :=
  ∀ front d, front ++ [.didOpen d] <+: ms → (s.afterAll front).document? d.uri = none

/-- In the run documents are closed under the URI with which they were opened. -/
def ClosesAsOpened (s : Server) (ms : List DocumentMessage) : Prop :=
  ∀ front u, front ++ [.didClose u] <+: ms →
    ∀ d, (s.afterAll front).document? u = some d → d.uri = u

/-- **Diagnostics left behind under a URI.** A template with the URI was closed by a message that
spells the URI in another way, and no later message closes the URI in this spelling. -/
inductive LeftBehind (s : Server) (uri : Text) : List DocumentMessage → Prop
  | respelled {ms : List DocumentMessage} {u : Text} : (s.afterAll ms).Shows uri →
      Uri.normalize s.cwd u = Uri.normalize s.cwd uri → u ≠ uri →
      LeftBehind s uri (ms ++ [.didClose u])
  | later {ms : List DocumentMessage} {m : DocumentMessage} : LeftBehind s uri ms →
      m ≠ .didClose uri → LeftBehind s uri (ms ++ [m])

theorem OpensFresh.of_concat {s : Server} {ms : List DocumentMessage} {m : DocumentMessage}
    (h : s.OpensFresh (ms ++ [m])) : s.OpensFresh ms :=
  fun front d hfront => h front d (hfront.trans (List.prefix_append ms [m]))

theorem ClosesAsOpened.of_concat {s : Server} {ms : List DocumentMessage} {m : DocumentMessage}
    (h : s.ClosesAsOpened (ms ++ [m])) : s.ClosesAsOpened ms :=
  fun front u hfront => h front u (hfront.trans (List.prefix_append ms [m]))

theorem leftBehind_concat_iff {s : Server} {uri : Text} {ms : List DocumentMessage}
    {m : DocumentMessage} :
    s.LeftBehind uri (ms ++ [m]) ↔ s.LeftBehind uri ms ∧ m ≠ .didClose uri ∨
      ∃ u, m = .didClose u ∧ (s.afterAll ms).Shows uri ∧
        Uri.normalize s.cwd u = Uri.normalize s.cwd uri ∧ u ≠ uri := by
  constructor
  · intro h
    -- the run is kept apart from its last message, so that the rule used shows which one that is
    generalize hrun : ms ++ [m] = run at h
    cases h with
    | respelled hshows hkey hne =>
      obtain ⟨rfl, hlast⟩ := List.append_inj' hrun rfl
      exact Or.inr ⟨_, List.head_eq_of_cons_eq hlast, hshows, hkey, hne⟩
    | later hleft hne =>
      obtain ⟨rfl, hlast⟩ := List.append_inj' hrun rfl
      obtain rfl := List.head_eq_of_cons_eq hlast
      exact Or.inl ⟨hleft, hne⟩
  · rintro (⟨hleft, hne⟩ | ⟨u, rfl, hshows, hkey, hne⟩)
    · exact .later hleft hne
    · exact .respelled hshows hkey hne

/-! ### Open templates -/

theorem shows_iff {s : Server} (hk : s.KeysAgree) {uri : Text} :
    s.Shows uri ↔ ∃ d, s.document? uri = some d ∧ s.IsTemplate d ∧ d.uri = uri := by
  constructor
  · rintro ⟨d, hholds, htemplate, rfl⟩
    exact ⟨d, hk.document?_uri hholds, htemplate, rfl⟩
  · rintro ⟨d, hfound, htemplate, huri⟩
    exact ⟨d, ⟨_, hfound⟩, htemplate, huri⟩

theorem shows_after_close {s : Server} (hk : s.KeysAgree) {u uri : Text} :
    (s.after (.didClose u)).Shows uri ↔
      s.Shows uri ∧ Uri.normalize s.cwd u ≠ Uri.normalize s.cwd uri := by
  have hfound : (s.after (.didClose u)).document? uri =
      if Uri.normalize s.cwd uri = Uri.normalize s.cwd u then none else s.document? uri :=
    Store.find?_forget s.cwd s.store u uri
  rw [shows_iff (keysAgree_after hk _), shows_iff hk, hfound]
  by_cases hkey : Uri.normalize s.cwd uri = Uri.normalize s.cwd u
  · rw [if_pos hkey]
    simp [hkey]
  · rw [if_neg hkey]
    simp [Ne.symm hkey]

/-- Another message takes no template away, if it does not open one in its place. -/
theorem Shows.after {s : Server} (hk : s.KeysAgree) (hagree : s.DocumentsAgree) {uri : Text}
    (h : s.Shows uri) {m : DocumentMessage} (hm : ∀ u, m ≠ .didClose u)
    (hopen : ∀ d, m = .didOpen d → s.document? d.uri = none) : (s.after m).Shows uri := by
  obtain ⟨d, hfound, htemplate, huri⟩ := (shows_iff hk).mp h
  have hget : Table.get? s.store (Uri.normalize s.cwd uri) = some d := hfound
  rw [shows_iff (keysAgree_after hk m)]
  unfold document? Store.find?
  rw [after_cwd]
  by_cases hedit : m.IsEdit
  · -- an edit may replace the document, but not its URI and its language
    have hmap := Mirror.map_after_of_isEdit s.cwd s.mirror hedit (Uri.normalize s.cwd uri)
    rw [← mirror_after hk m] at hmap
    unfold mirror at hmap
    rw [hget, Option.map_map] at hmap
    obtain ⟨d', hget', heq⟩ := Option.map_eq_some_iff.mp hmap
    have hstored : (s.after m).Holds d' := ⟨_, hget'⟩
    have huri' : d'.uri = d.uri := congrArg Prod.fst heq
    have hlanguage : d'.languageId = d.languageId := congrArg Prod.snd heq
    -- so it has the same path too
    have hpath : d'.path = d.path := by
      rw [(documentsAgree_after hk hagree m d' hstored).path_eq, (hagree d ⟨_, hget⟩).path_eq,
        after_cwd, huri']
    refine ⟨d', hget', ?_, huri'.trans huri⟩
    rw [isTemplate_after]
    unfold IsTemplate at htemplate ⊢
    rwa [hpath, hlanguage]
  · -- what is opened has another key, which was free
    have hkey : Uri.normalize s.cwd uri ≠ Uri.normalize s.cwd m.uri := by
      intro hkey
      cases m with
      | didOpen doc =>
        have hnone : Table.get? s.store (Uri.normalize s.cwd doc.uri) = none := hopen doc rfl
        rw [show Uri.normalize s.cwd uri = Uri.normalize s.cwd doc.uri from hkey, hnone] at hget
        cases hget
      | didClose u => exact hm u rfl
      | didChange u version changes => exact hedit trivial
      | didSave u text => exact hedit trivial
    refine ⟨d, ?_, (isTemplate_after s m d).mpr htemplate, huri⟩
    rw [get?_after_of_ne hk m hkey, hget]

/-! ### The board -/

theorem board_concat (s : Server) (board : Board) (ms : List DocumentMessage)
    (m : DocumentMessage) :
    (serve (fun _ => Sink.board) (s, board) (ms ++ [m])).2 =
      ((s.afterAll ms).sends m).foldl (fun b a => a.post b)
        (serve (fun _ => Sink.board) (s, board) ms).2 := by
  rw [serve_board, sentAll_concat, List.foldl_append, ← serve_board]

theorem get?_board_close (s : Server) (board : Board) (ms : List DocumentMessage) (u uri : Text) :
    Table.get? (serve (fun _ => Sink.board) (s, board) (ms ++ [.didClose u])).2 uri =
      if uri = u then none else Table.get? (serve (fun _ => Sink.board) (s, board) ms).2 uri := by
  rw [board_concat]
  exact Announcement.get?_post (.clear u) _ uri

/-- Another message only adds to the board, and what it adds is a template that it has stored. -/
theorem board_concat_iff {s : Server} (hk : s.KeysAgree) (board : Board)
    (ms : List DocumentMessage) {m : DocumentMessage} (hm : ∀ u, m ≠ .didClose u) {uri : Text} :
    (Table.get? (serve (fun _ => Sink.board) (s, board) (ms ++ [m])).2 uri).isSome = true ↔
      (Table.get? (serve (fun _ => Sink.board) (s, board) ms).2 uri).isSome = true ∨
        ∃ d, (s.afterAll (ms ++ [m])).document? m.uri = some d ∧
          (s.afterAll (ms ++ [m])).IsTemplate d ∧ d.uri = uri := by
  rw [board_concat, sends_eq_due (keysAgree_afterAll hk ms), due_of_not_close _ hm,
    ← afterAll_concat]
  -- the last message announces the document it is about, where there is one and it is a template
  cases hfound : (s.afterAll (ms ++ [m])).document? m.uri with
  | none => simp
  | some d =>
    dsimp only
    by_cases htemplate : (s.afterAll (ms ++ [m])).IsTemplate d
    · rw [if_pos htemplate, List.foldl_cons, List.foldl_nil, Announcement.get?_post]
      dsimp only [Announcement.uri, Announcement.published?]
      by_cases huri : uri = d.uri
      · simp [huri, htemplate]
      · simp [huri, Ne.symm huri]
    · simp [htemplate]

theorem Shows.isSome_board {s : Server} (hk : s.KeysAgree) (hempty : ∀ d, ¬ s.Holds d)
    (board : Board) {ms : List DocumentMessage} {uri : Text} (h : (s.afterAll ms).Shows uri) :
    (Table.get? (serve (fun _ => Sink.board) (s, board) ms).2 uri).isSome = true := by
  obtain ⟨d, hd, htemplate, rfl⟩ := h
  rw [serve_board, get?_foldl_post, lastIs_sentAll hk hempty ms d hd htemplate]
  rfl

/-- **The invariant of a run.** The board holds diagnostics under a URI if and only if a template with
the URI is open, or diagnostics were left behind under it. -/
def Accounted (s : Server) (ms : List DocumentMessage) : Prop :=
  ∀ uri, (Table.get? (serve (fun _ => Sink.board) (s, []) ms).2 uri).isSome = true ↔
    (s.afterAll ms).Shows uri ∨ s.LeftBehind uri ms

theorem accounted_nil {s : Server} (hempty : ∀ d, ¬ s.Holds d) : s.Accounted [] := by
  intro uri
  refine ⟨fun h => absurd h (by simp), ?_⟩
  rintro (⟨d, hd, -, -⟩ | hleft)
  · exact absurd hd (hempty d)
  · generalize hrun : ([] : List DocumentMessage) = run at hleft
    cases hleft <;> exact absurd hrun.symm (by simp)

theorem Accounted.close {s : Server} (hk : s.KeysAgree) {ms : List DocumentMessage}
    (h : s.Accounted ms) (u : Text) : s.Accounted (ms ++ [.didClose u]) := by
  intro uri
  rw [leftBehind_concat_iff, get?_board_close, afterAll_concat,
    shows_after_close (keysAgree_afterAll hk ms), afterAll_cwd]
  by_cases huri : uri = u
  · -- the spelling that was closed is gone, and no template shows it any more
    subst huri
    simp
  · rw [if_neg huri, h uri]
    constructor
    · rintro (hshows | hleft)
      · -- under another spelling of its own URI the template leaves its diagnostics behind
        by_cases hkey : Uri.normalize s.cwd u = Uri.normalize s.cwd uri
        · exact Or.inr (Or.inr ⟨u, rfl, hshows, hkey, Ne.symm huri⟩)
        · exact Or.inl ⟨hshows, hkey⟩
      · refine Or.inr (Or.inl ⟨hleft, fun heq => huri ?_⟩)
        exact (DocumentMessage.didClose.inj heq).symm
    · rintro (⟨hshows, -⟩ | ⟨hleft, -⟩ | ⟨-, -, hshows, -, -⟩)
      · exact Or.inl hshows
      · exact Or.inr hleft
      · exact Or.inl hshows

theorem Accounted.concat {s : Server} (hk : s.KeysAgree) (hagree : s.DocumentsAgree)
    (hempty : ∀ d, ¬ s.Holds d) {ms : List DocumentMessage} (h : s.Accounted ms) {m : DocumentMessage}
    (hm : ∀ u, m ≠ .didClose u)
    (hopen : ∀ d, m = .didOpen d → (s.afterAll ms).document? d.uri = none) :
    s.Accounted (ms ++ [m]) := by
  intro uri
  rw [leftBehind_concat_iff]
  constructor
  · intro hheld
    -- held after `m`: it was held before, or `m` published it
    rcases (board_concat_iff hk [] ms hm).mp hheld with hbefore | ⟨d, hd, htemplate, huri⟩
    · rcases (h uri).mp hbefore with hshows | hleft
      -- shown before: `m` closes nothing and opens nothing twice, so it is shown still
      · rw [afterAll_concat]
        exact Or.inl (hshows.after (keysAgree_afterAll hk ms) (documentsAgree_afterAll hk hagree ms)
          hm hopen)
      · exact Or.inr (Or.inl ⟨hleft, hm uri⟩)
    · exact Or.inl ⟨d, ⟨_, hd⟩, htemplate, huri⟩
  · -- one case per way of being shown or left behind
    rintro (hshows | ⟨hleft, -⟩ | ⟨u, rfl, -⟩)
    · exact hshows.isSome_board hk hempty []
    · exact (board_concat_iff hk [] ms hm).mpr (Or.inl ((h uri).mpr (Or.inr hleft)))
    · exact absurd rfl (hm u)

/-- **A run in which documents are opened only while they are not open keeps the invariant.** -/
theorem accounted {s : Server} (hk : s.KeysAgree) (hagree : s.DocumentsAgree)
    (hempty : ∀ d, ¬ s.Holds d) {ms : List DocumentMessage} (hfresh : s.OpensFresh ms) : s.Accounted ms := by
  induction ms using List.reverseRecOn with
  | nil => exact accounted_nil hempty
  | append_singleton ms m ih =>
    have ih := ih hfresh.of_concat
    by_cases hclose : ∃ u, m = .didClose u
    · obtain ⟨u, rfl⟩ := hclose
      exact ih.close hk u
    · refine ih.concat hk hagree hempty (fun u hu => hclose ⟨u, hu⟩) ?_
      rintro d rfl
      exact hfresh ms d (List.prefix_refl _)

theorem not_leftBehind {s : Server} (hk : s.KeysAgree) {ms : List DocumentMessage}
    (h : s.ClosesAsOpened ms) (uri : Text) : ¬ s.LeftBehind uri ms := by
  intro hleft
  induction hleft with
  | @respelled ms u hshows hkey hne =>
    obtain ⟨d, hfound, -, huri⟩ := (shows_iff (keysAgree_afterAll hk ms)).mp hshows
    -- the message finds the template, so that it would have had to spell its URI
    have hclosed : (s.afterAll ms).document? u = some d := by
      unfold document? Store.find? at hfound ⊢
      rw [afterAll_cwd] at hfound ⊢
      rwa [hkey]
    exact hne ((h ms u (List.prefix_refl _) d hclosed).symm.trans huri)
  | later _ _ ih => exact ih h.of_concat

/-! ### The main result -/

/-- **What a board holds.** Take a server whose workspace was opened at most once, and a run in which
documents are opened only while they are not open.

* The board holds diagnostics under a URI if and only if a template with that URI is open, or
  diagnostics were left behind under it by a close in another spelling.
* If documents are closed under the URI with which they were opened, then every URI on the board is
  that of an open document, and after a close the board holds nothing under any spelling of the URI
  that was closed. -/
theorem board_holds_iff (host : Host) (cwd version : Text)
    (workspace : Option WorkspaceParams) {ms : List DocumentMessage}
    (hfresh : (start host cwd version workspace).OpensFresh ms) :
    let s := start host cwd version workspace
    let x := serve (fun _ => Sink.board) (s, []) ms
    (∀ uri, (Table.get? x.2 uri).isSome = true ↔ x.1.Shows uri ∨ s.LeftBehind uri ms) ∧
    (s.ClosesAsOpened ms →
      (∀ uri, (Table.get? x.2 uri).isSome = true → ∃ d, x.1.Holds d ∧ d.uri = uri) ∧
      ∀ front u, ms = front ++ [.didClose u] →
        ∀ v, Uri.normalize cwd v = Uri.normalize cwd u → Table.get? x.2 v = none) := by
  intro s x
  have hk : s.KeysAgree := keysAgree_start host cwd version workspace
  have hserver : x.1 = s.afterAll ms := serve_fst _ s [] ms
  have hheld : ∀ uri, (Table.get? x.2 uri).isSome = true ↔ x.1.Shows uri ∨ s.LeftBehind uri ms := by
    intro uri
    rw [hserver]
    exact accounted hk (documentsAgree_start host cwd version workspace)
      (not_holds_start host cwd version workspace) hfresh uri
  refine ⟨hheld, fun hcloses => ?_⟩
  have hopen : ∀ uri, (Table.get? x.2 uri).isSome = true → x.1.Shows uri := by
    intro uri h
    exact ((hheld uri).mp h).resolve_right (not_leftBehind hk hcloses uri)
  refine ⟨fun uri h => ?_, ?_⟩
  · obtain ⟨d, hd, -, huri⟩ := hopen uri h
    exact ⟨d, hd, huri⟩
  · rintro front u rfl v hkey
    -- an open template under the closed key would not have survived the close
    by_contra hsome
    have hshows := hopen v (Option.isSome_iff_ne_none.mpr hsome)
    rw [hserver, afterAll_concat, shows_after_close (keysAgree_afterAll hk front), afterAll_cwd,
      start_cwd] at hshows
    exact hshows.2 hkey.symm

/-- A template is opened, changed under another spelling of its URI, and closed as it was opened. -/
def reclosedMessages : List DocumentMessage :=
  respelledMessages ++ [.didClose (Text.ofString "file:///v/a.view.php")]

theorem board_holds_iff_reclosed :
    emptyServer.OpensFresh reclosedMessages ∧ emptyServer.ClosesAsOpened reclosedMessages ∧
    Table.get? (serve (fun _ => Sink.board) (emptyServer, []) reclosedMessages).2
      (Text.ofString "file:///v/%61.view.php") = none := by
  -- one case per message of the run, the opening one being the only one that opens
  have hfresh : emptyServer.OpensFresh reclosedMessages := by
    rintro (_ | ⟨a, _ | ⟨b, _ | ⟨c, front⟩⟩⟩) d h <;>
      simp [reclosedMessages, respelledMessages, List.cons_prefix_cons] at h
    rfl
  -- the close names the URI the document was opened by
  have hcloses : emptyServer.ClosesAsOpened reclosedMessages := by
    rintro (_ | ⟨a, _ | ⟨b, _ | ⟨c, front⟩⟩⟩) u h <;>
      simp [reclosedMessages, respelledMessages, List.cons_prefix_cons] at h
    obtain ⟨rfl, rfl, rfl⟩ := h
    intro d hd
    have hfound : (emptyServer.afterAll respelledMessages).document?
        (Text.ofString "file:///v/a.view.php") = some respelledDocument := by decide +kernel
    obtain rfl := Option.some.inj (hfound.symm.trans hd)
    rfl
  obtain ⟨-, hclean⟩ := board_holds_iff (FileTree.host {}) (Text.ofString "/") [] none hfresh
  refine ⟨hfresh, hcloses, (hclean hcloses).2 _ _ rfl _ ?_⟩
  decide +kernel

/-- A template is opened under one spelling of its URI and closed under another one. -/
def respelledClose : List DocumentMessage :=
  [ .didOpen ⟨Text.ofString "file:///v/%61.view.php", Text.ofString "php", 1, Text.ofString "@if"⟩,
    .didClose (Text.ofString "file:///v/a.view.php") ]

/-- **A close in another spelling leaves diagnostics behind**: nothing is open any more, but the board
still holds the diagnostics of the document that was closed. -/
theorem respelled_close_keeps_diagnostics :
    emptyServer.OpensFresh respelledClose ∧
    Uri.normalize (Text.ofString "/") (Text.ofString "file:///v/%61.view.php") =
      Uri.normalize (Text.ofString "/") (Text.ofString "file:///v/a.view.php") ∧
    Table.get? (serve (fun _ => Sink.board) (emptyServer, []) respelledClose).2
        (Text.ofString "file:///v/%61.view.php") =
      some ⟨1, [⟨.onLine 0 0 3, .unclosedDirective (Text.ofString "@if")⟩]⟩ ∧
    ∀ d, ¬ (serve (fun _ => Sink.board) (emptyServer, []) respelledClose).1.Holds d := by
  refine ⟨?_, by decide +kernel, by decide +kernel, ?_⟩
  · -- nothing is open before the first message
    rintro (_ | ⟨a, _ | ⟨b, front⟩⟩) d h <;> simp [respelledClose, List.cons_prefix_cons] at h
    rfl
  · -- and after the close the store is empty
    have hstore : (serve (fun _ => Sink.board) (emptyServer, []) respelledClose).1.store = [] := by
      decide +kernel
    rintro d ⟨key, hd⟩
    rw [hstore] at hd
    cases hd

end ViewLint.Server
