import ViewLint.FileTree.Host
import ViewLint.Proofs.Server.Run
import ViewLint.Server.Publication

/-!
# Announced diagnostics are never stale

A server announces the diagnostics of a document whenever a message has changed or saved it. The
store is keyed by normalized URIs, a sink by the URI under which a document was opened, and the
messages about one document may spell its URI in different ways. `Server.diagnostics_never_stale`
says that the three always agree: after every run, the last thing a sink was told about the URI of a
stored template is the diagnostics of its current text, at its current version.

The argument is one invariant, `Server.LastIs`, on the server and the list of what was sent so far.
It is stated for any form in which announcements are sent, because it is used twice: for the
announcements themselves, and for the publications to an editor, whose columns are computed against
the lines that the store keeps. Two facts carry it through a message (`Server.lastIs_after`). What a
message sends is about the document that it has just stored, so it is current; and it is about no
other document, because documents under different keys have different URIs.
-/

namespace ViewLint

/-! ### Sinks under observation -/

namespace Sink

variable {σ : Type}

/-- A sink that takes every announcement. -/
def NeverFails (sink : Sink σ) : Prop := ∀ held a, ∃ after, sink.deliver held a = .ok after

/-- A sink together with the list of the announcements that it has taken, first to last. -/
def logged (sink : Sink σ) : Sink (σ × List Announcement) where
  deliver held a := (sink.deliver held.1 a).map fun after => (after, held.2 ++ [a])

theorem neverFails_board : board.NeverFails := fun held a => ⟨a.post held, rfl⟩

end Sink

/-- The last entry of a list that is about a URI. -/
def lastAbout {β : Type} (uriOf : β → Text) (entries : List β) (uri : Text) : Option β :=
  (entries.filter fun b => uriOf b == uri).getLast?

section LastAbout

variable {β : Type} (uriOf : β → Text)

theorem lastAbout_append_of_ne (entries : List β) {new : List β} {uri : Text}
    (h : ∀ b ∈ new, uriOf b ≠ uri) :
    lastAbout uriOf (entries ++ new) uri = lastAbout uriOf entries uri := by
  have hnone : new.filter (fun b => uriOf b == uri) = [] :=
    List.filter_eq_nil_iff.mpr fun b hb => by simpa using h b hb
  unfold lastAbout
  rw [List.filter_append, hnone, List.append_nil]

theorem lastAbout_concat (entries : List β) (b : β) :
    lastAbout uriOf (entries ++ [b]) (uriOf b) = some b := by
  unfold lastAbout
  rw [List.filter_append, List.filter_cons_of_pos (by simp), List.filter_nil,
    List.getLast?_concat]

end LastAbout

/-- A board keeps, for every URI, what the last announcement about it says. -/
theorem get?_foldl_post (sent : List Announcement) (board : Board) (uri : Text) :
    Table.get? (sent.foldl (fun b a => a.post b) board) uri =
      ((lastAbout Announcement.uri sent uri).map Announcement.published?).getD
        (Table.get? board uri) := by
  -- induction on the announcements: the last one decides if it is about `uri`
  induction sent using List.reverseRecOn with
  | nil => rfl
  | append_singleton sent a ih =>
    rw [List.foldl_append, List.foldl_cons, List.foldl_nil, Announcement.get?_post]
    by_cases h : uri = a.uri
    · subst h
      rw [if_pos rfl, lastAbout_concat]
      rfl
    · rw [if_neg h, ih, lastAbout_append_of_ne]
      intro b hb
      rw [List.mem_singleton.mp hb]
      exact Ne.symm h

theorem Publication.uri_ofAnnouncement (cwd : Text) (store : Store) (a : Announcement) :
    (ofAnnouncement cwd store a).uri = a.uri := by
  cases a <;> rfl

namespace Server

variable {σ β : Type}

/-! ### What a run sends -/

/-- What the messages of a run have to announce, first to last. -/
def sentAll (s : Server) : List DocumentMessage → List Announcement
  | [] => []
  | m :: ms => s.sends m ++ (s.after m).sentAll ms

theorem sentAll_concat (s : Server) (ms : List DocumentMessage) (m : DocumentMessage) :
    s.sentAll (ms ++ [m]) = s.sentAll ms ++ (s.afterAll ms).sends m := by
  induction ms generalizing s with
  | nil => simp [sentAll]
  | cons m' ms ih =>
    rw [List.cons_append, sentAll, ih, sentAll, List.append_assoc]
    rfl

/-- The observer changes nothing: without its list, a message does what it does with the sink
itself. -/
theorem receive_logged (sink : Store → Sink σ) (s : Server) (held : σ × List Announcement)
    (m : DocumentMessage) :
    (s.receive (fun store => (sink store).logged) held m).2.1.1 =
      (s.receive sink held.1 m).2.1 := by
  unfold receive
  split
  · rfl
  · rfl
  · next t a _ =>
    dsimp only [Sink.logged]
    cases (sink t.store).deliver held.1 a with
    | error fault => rfl
    | ok after => rfl

theorem serve_logged (sink : Store → Sink σ) (s : Server) (held : σ) (log : List Announcement)
    (ms : List DocumentMessage) :
    (serve (fun store => (sink store).logged) (s, (held, log)) ms).2.1 =
      (serve sink (s, held) ms).2 := by
  induction ms using List.reverseRecOn with
  | nil => rfl
  | append_singleton ms m ih =>
    have hs : (serve (fun store => (sink store).logged) (s, (held, log)) ms).1 =
        (serve sink (s, held) ms).1 := by rw [serve_fst, serve_fst]
    rw [serve_concat, serve_concat]
    unfold serveOne
    dsimp only
    rw [receive_logged, hs, ih]

/-- A sink that never fails takes exactly what the messages send, in order. -/
theorem serve_logged_log {sink : Store → Sink σ} (hsink : ∀ store, (sink store).NeverFails)
    (s : Server) (held : σ) (log : List Announcement) (ms : List DocumentMessage) :
    (serve (fun store => (sink store).logged) (s, (held, log)) ms).2.2 = log ++ s.sentAll ms := by
  induction ms using List.reverseRecOn with
  | nil => simp [sentAll]
  | append_singleton ms m ih =>
    rw [serve_concat, sentAll_concat, ← List.append_assoc, ← ih,
      ← serve_fst (fun store => (sink store).logged) s (held, log) ms]
    generalize serve (fun store => (sink store).logged) (s, (held, log)) ms = x
    -- a sink that never fails is a function of what it holds
    choose f hf using hsink
    let take (h : σ × List Announcement) (a : Announcement) : σ × List Announcement :=
      (f (x.1.after m).store h.1 a, h.2 ++ [a])
    have htake : ∀ a, ((sink (x.1.after m).store).logged).deliver x.2 a = .ok (take x.2 a) := by
      intro a
      dsimp only [Sink.logged]
      rw [hf]
      rfl
    have hlog (as : List Announcement) :
        (as.foldl take x.2).2 = as.foldl (fun log a => log ++ [a]) x.2.2 :=
      (List.foldl_hom Prod.snd fun _ _ => rfl).symm
    change (x.1.receive _ x.2 m).2.1.2 = _
    rw [receive_snd_of_ok _ x.1 x.2 m take htake, hlog, List.foldl_append_eq_append,
      ← List.flatMap_def, List.flatMap_singleton']

/-- A board after a run is the board after what the run sends. -/
theorem serve_board (s : Server) (board : Board) (ms : List DocumentMessage) :
    (serve (fun _ => Sink.board) (s, board) ms).2 =
      (s.sentAll ms).foldl (fun b a => a.post b) board := by
  induction ms using List.reverseRecOn with
  | nil => rfl
  | append_singleton ms m ih =>
    rw [serve_concat, sentAll_concat, List.foldl_append, ← ih,
      ← serve_fst (fun _ => Sink.board) s board ms]
    exact receive_snd_of_ok _ _ _ m (fun b a => a.post b) fun a => rfl

/-- An editor gets one publication for each announcement, computed against the store of the moment.
-/
theorem serve_editor_concat (cwd : Text) (s : Server) (sent : List Publication)
    (ms : List DocumentMessage) (m : DocumentMessage) :
    (serve (Sink.editor cwd) (s, sent) (ms ++ [m])).2 =
      (serve (Sink.editor cwd) (s, sent) ms).2 ++
        ((s.afterAll ms).sends m).map
          (Publication.ofAnnouncement cwd (s.afterAll (ms ++ [m])).store) := by
  rw [serve_concat, afterAll_concat, ← serve_fst (Sink.editor cwd) s sent ms]
  generalize serve (Sink.editor cwd) (s, sent) ms = x
  change (x.1.receive _ x.2 m).2.1 = _
  rw [receive_snd_of_ok _ x.1 x.2 m
    (fun sent a => sent ++ [Publication.ofAnnouncement cwd (x.1.after m).store a]) fun a => rfl,
    List.foldl_append_eq_append, ← List.flatMap_def, ← List.map_eq_flatMap]

/-! ### The invariant -/

/-- The last entry about the URI of a stored template is the image of that template. -/
def LastIs (uriOf : β → Text) (image : OpenDocument → β) (s : Server) (entries : List β) : Prop :=
  ∀ d, s.Holds d → s.IsTemplate d → lastAbout uriOf entries d.uri = some (image d)

/-- What a message sends about a document is about that document only. -/
theorem uri_of_mem_announcement? {s : Server} {d : OpenDocument} {a : Announcement}
    (h : a ∈ (s.announcement? d).toList) : a.uri = d.uri := by
  rw [announcement?_eq] at h
  by_cases ht : s.IsTemplate d
  · rw [if_pos ht, Option.toList_some, List.mem_singleton] at h
    rw [h]
    rfl
  · rw [if_neg ht, Option.toList_none] at h
    exact absurd h List.not_mem_nil

/-- **A message keeps the invariant.** Announcements are sent as entries that keep their URI, and
the entry of a template that has just been stored is its image. -/
theorem lastIs_after {uriOf : β → Text} {image : OpenDocument → β} {s : Server} {entries : List β}
    (hk : s.KeysAgree) (hlast : LastIs uriOf image s entries) (m : DocumentMessage)
    (render : Announcement → β) (huri : ∀ a, uriOf (render a) = a.uri)
    (himage : ∀ d, (s.after m).Holds d → s.IsTemplate d →
      render (.publish d.uri d.version (s.diagnose d)) = image d) :
    LastIs uriOf image (s.after m) (entries ++ (s.sends m).map render) := by
  -- entries about other URIs leave the last entry of a document as it was
  have hkeep : ∀ d, s.Holds d → s.IsTemplate d → (∀ a ∈ s.sends m, a.uri ≠ d.uri) →
      lastAbout uriOf (entries ++ (s.sends m).map render) d.uri = some (image d) := by
    intro d hd ht hne
    rw [lastAbout_append_of_ne, hlast d hd ht]
    intro b hb
    obtain ⟨a, ha, rfl⟩ := List.mem_map.mp hb
    rw [huri]
    exact hne a ha
  intro d hd ht
  rw [isTemplate_after] at ht
  have hheld := hd
  obtain ⟨key, hget⟩ := hd
  rcases message_cases hk m with ⟨d', hkey, -, -, hsend, hstore⟩ | ⟨u, -, hsend, hstore⟩ |
    ⟨-, -, hsend, hafter⟩
  · rw [hstore] at hget
    by_cases h : key = Uri.normalize s.cwd m.uri
    · -- the document that was stored: it has just been sent
      rw [if_pos h] at hget
      obtain rfl := Option.some.inj hget
      rw [hsend, announcement?_eq, if_pos ht, Option.toList_some, List.map_singleton,
        himage d' hheld ht]
      have hu : uriOf (image d') = d'.uri := by rw [← himage d' hheld ht, huri]; rfl
      rw [← hu]
      exact lastAbout_concat uriOf entries (image d')
    · -- another document: its key differs, so its URI does
      rw [if_neg h] at hget
      refine hkeep d ⟨key, hget⟩ ht fun a ha heq => h ?_
      rw [hsend] at ha
      rw [hk key d hget, ← heq, uri_of_mem_announcement? ha, hkey]
  · -- a close withdraws the diagnostics of a document that is no longer stored
    rw [hstore] at hget
    by_cases h : key = Uri.normalize s.cwd u
    · rw [if_pos h] at hget
      exact absurd hget (by simp)
    · rw [if_neg h] at hget
      refine hkeep d ⟨key, hget⟩ ht fun a ha heq => h ?_
      rw [hsend, List.mem_singleton] at ha
      rw [hk key d hget, ← heq, ha]
      rfl
  · rw [hafter] at hget
    refine hkeep d ⟨key, hget⟩ ht fun a ha => ?_
    rw [hsend] at ha
    exact absurd ha List.not_mem_nil

/-! ### The two instances -/

@[simp] theorem diagnose_afterAll (s : Server) (ms : List DocumentMessage) (d : OpenDocument) :
    (s.afterAll ms).diagnose d = s.diagnose d := by
  induction ms using List.reverseRecOn with
  | nil => rfl
  | append_singleton ms m ih => rw [afterAll_concat, diagnose_after, ih]

/-- The announcement that is due for a document as it is. -/
def current (s : Server) (d : OpenDocument) : Announcement :=
  .publish d.uri d.version (s.diagnose d)

/-- The publication that is due for a document as it is: every diagnostic in the columns of the
editor, computed against the text of the document itself. -/
def currentPublication (s : Server) (d : OpenDocument) : Publication :=
  ⟨d.uri, some d.version, (s.diagnose d).map fun g =>
    { g with range := (Document.mk d.text).toUTF16Range g.range }⟩

/-- The last announcement about a stored template is current. -/
theorem lastIs_sentAll {s : Server} (hk : s.KeysAgree) (hempty : ∀ d, ¬ s.Holds d)
    (ms : List DocumentMessage) :
    LastIs Announcement.uri s.current (s.afterAll ms) (s.sentAll ms) := by
  induction ms using List.reverseRecOn with
  | nil => exact fun d hd => absurd hd (hempty d)
  | append_singleton ms m ih =>
    have hstep := lastIs_after (keysAgree_afterAll hk ms) ih m id (fun _ => rfl) fun d _ _ => by
      rw [diagnose_afterAll]
      rfl
    rw [List.map_id] at hstep
    rw [afterAll_concat, sentAll_concat]
    exact hstep

/-- The publication of a stored document is computed against its own text. -/
theorem ofAnnouncement_current {s : Server} (hk : s.KeysAgree) (hagree : s.DocumentsAgree)
    {d : OpenDocument} (hd : s.Holds d) :
    Publication.ofAnnouncement s.cwd s.store (s.current d) = s.currentPublication d := by
  have hfind : s.store.find? s.cwd d.uri = some d := hk.document?_uri hd
  unfold Publication.ofAnnouncement current currentPublication Publication.editorRange
  dsimp only
  rw [hfind, ← (hagree d hd).lines_eq]

/-- The last publication about a stored template is current. -/
theorem lastIs_serve_editor {s : Server} (hk : s.KeysAgree) (hagree : s.DocumentsAgree)
    (hempty : ∀ d, ¬ s.Holds d) (sent : List Publication) (ms : List DocumentMessage) :
    LastIs Publication.uri s.currentPublication (s.afterAll ms)
      (serve (Sink.editor s.cwd) (s, sent) ms).2 := by
  -- induction on the run: `m` publishes what is current for its document and leaves the others
  induction ms using List.reverseRecOn with
  | nil => exact fun d hd => absurd hd (hempty d)
  | append_singleton ms m ih =>
    rw [serve_editor_concat, afterAll_concat]
    refine lastIs_after (keysAgree_afterAll hk ms) ih m _ (Publication.uri_ofAnnouncement _ _) ?_
    intro d hd _
    have hkeys := keysAgree_afterAll hk ms
    have hcur := ofAnnouncement_current (keysAgree_after hkeys m)
      (documentsAgree_after hkeys (documentsAgree_afterAll hk hagree ms) m) hd
    unfold current currentPublication at hcur
    rw [after_cwd, afterAll_cwd, diagnose_after, diagnose_afterAll] at hcur
    rw [diagnose_afterAll]
    exact hcur

/-! ### What each message sends -/

/-- What a message has to send, seen from the server after it: a close withdraws once; any other
message publishes the document as it is stored now, once, if that document is a template, and sends
nothing otherwise. -/
def due (s : Server) : DocumentMessage → List Announcement
  | .didClose uri => [.clear uri]
  | m =>
    match s.document? m.uri with
    | some d => if s.IsTemplate d then [.publish d.uri d.version (s.diagnose d)] else []
    | none => []

theorem due_of_not_close (s : Server) {m : DocumentMessage} (hm : ∀ u, m ≠ .didClose u) :
    s.due m = match s.document? m.uri with
      | some d => if s.IsTemplate d then [.publish d.uri d.version (s.diagnose d)] else []
      | none => [] := by
  cases m with
  | didClose u => exact absurd rfl (hm u)
  | _ => rfl

/-- **Every message sends what is due, once.** -/
theorem sends_eq_due {s : Server} (hk : s.KeysAgree) (m : DocumentMessage) :
    s.sends m = (s.after m).due m := by
  -- the message stores a document, closes one, or finds none
  rcases message_cases hk m with ⟨d, -, -, hm, hsend, hstore⟩ | ⟨u, rfl, hsend, -⟩ |
    ⟨hnone, hm, hsend, hafter⟩
  · have hfind : (s.after m).document? m.uri = some d := by
      unfold document? Store.find?
      rw [after_cwd, hstore, if_pos rfl]
    rw [due_of_not_close _ hm, hfind, hsend, announcement?_eq]
    dsimp only
    rw [diagnose_after]
    by_cases ht : s.IsTemplate d
    · -- whether it is a template is asked of the store before or after, which is the same
      rw [if_pos ht, if_pos ((isTemplate_after s m d).mpr ht)]
      rfl
    · rw [if_neg ht, if_neg (mt (isTemplate_after s m d).mp ht)]
      rfl
  · exact hsend
  · rw [due_of_not_close _ hm, hafter, hnone]
    exact hsend

/-! ### The main result -/

theorem start_cwd (host : Host) (cwd version : Text) (p : Option WorkspaceParams) :
    (start host cwd version p).cwd = cwd := by
  cases p <;> rfl

/-- **Diagnostics are never stale.** Take a server whose workspace was opened at most once, and let
it carry out any list of messages about documents.

* With any sink that never fails, whose announcements are noted by an observer that changes nothing:
  the last announcement about the URI of a stored template is the publication of its current version
  and text, and each further message sends what is due, once.
* A board holds exactly these diagnostics under that URI.
* An editor was last sent exactly these diagnostics for that URI, in its own columns, which are
  computed against the text of the document. -/
theorem diagnostics_never_stale (host : Host) (cwd version : Text)
    (workspace : Option WorkspaceParams) {σ : Type} {sink : Store → Sink σ}
    (hsink : ∀ store, (sink store).NeverFails) (held : σ) (board : Board)
    (sent : List Publication) (ms : List DocumentMessage) :
    let s := start host cwd version workspace
    let observed := serve (fun store => (sink store).logged) (s, (held, []))
    let posted := serve (fun _ => Sink.board) (s, board) ms
    let edited := serve (Sink.editor cwd) (s, sent) ms
    (observed ms).2.1 = (serve sink (s, held) ms).2 ∧
    (∀ d, (observed ms).1.Holds d → (observed ms).1.IsTemplate d →
      lastAbout Announcement.uri (observed ms).2.2 d.uri =
        some (.publish d.uri d.version ((observed ms).1.diagnose d))) ∧
    (∀ m, (observed (ms ++ [m])).2.2 = (observed ms).2.2 ++ (observed (ms ++ [m])).1.due m) ∧
    (∀ d, posted.1.Holds d → posted.1.IsTemplate d →
      Table.get? posted.2 d.uri = some ⟨d.version, posted.1.diagnose d⟩) ∧
    (∀ d, edited.1.Holds d → edited.1.IsTemplate d →
      lastAbout Publication.uri edited.2 d.uri = some (edited.1.currentPublication d)) := by
  intro s observed posted edited
  have hk : s.KeysAgree := keysAgree_start host cwd version workspace
  have hagree : s.DocumentsAgree := documentsAgree_start host cwd version workspace
  have hempty : ∀ d, ¬ s.Holds d := not_holds_start host cwd version workspace
  have hcwd : s.cwd = cwd := start_cwd host cwd version workspace
  have hlast := lastIs_sentAll hk hempty ms
  -- an observed run is read through what does not depend on the sink
  have hserver : ∀ ms, (observed ms).1 = s.afterAll ms := fun ms => serve_fst _ s (held, []) ms
  have hlog : ∀ ms, (observed ms).2.2 = s.sentAll ms := fun ms =>
    serve_logged_log hsink s held [] ms
  refine ⟨serve_logged sink s held [] ms, ?_, ?_, ?_, ?_⟩
  · rw [hserver, hlog]
    intro d hd ht
    rw [hlast d hd ht, diagnose_afterAll]
    rfl
  · intro m
    rw [hlog, hlog, hserver, sentAll_concat, afterAll_concat,
      sends_eq_due (keysAgree_afterAll hk ms)]
  · have hposted : posted.1 = s.afterAll ms := serve_fst _ s board ms
    intro d hd ht
    rw [hposted] at hd ht ⊢
    change Table.get? (serve (fun _ => Sink.board) (s, board) ms).2 d.uri = _
    rw [serve_board, get?_foldl_post, hlast d hd ht, diagnose_afterAll]
    rfl
  · have hedited : edited.1 = s.afterAll ms := serve_fst _ s sent ms
    have hpub := lastIs_serve_editor hk hagree hempty sent ms
    rw [hcwd] at hpub
    intro d hd ht
    rw [hedited] at hd ht ⊢
    change lastAbout Publication.uri (serve (Sink.editor cwd) (s, sent) ms).2 d.uri = _
    rw [hpub d hd ht]
    unfold currentPublication
    rw [diagnose_afterAll]

/-- A template is opened under one spelling of its URI and changed under another one. -/
def respelledMessages : List DocumentMessage :=
  [ .didOpen ⟨Text.ofString "file:///v/a.view.php", Text.ofString "php", 1, []⟩,
    .didChange (Text.ofString "file:///v/%61.view.php") 2 [⟨none, Text.ofString "@if"⟩] ]

/-- The template after both messages, under the URI of the first one. -/
def respelledDocument : OpenDocument :=
  ⟨Text.ofString "file:///v/a.view.php", Text.ofString "/v/a.view.php", Text.ofString "php", 2,
    Text.ofString "@if", ⟨Text.ofString "@if"⟩⟩

/-- A new server over an empty tree of files. -/
def emptyServer : Server := start (FileTree.host {}) (Text.ofString "/") [] none

theorem diagnostics_never_stale_respelled :
    (∀ _ : Store, Sink.board.NeverFails) ∧
    (emptyServer.afterAll respelledMessages).Holds respelledDocument ∧
    (emptyServer.afterAll respelledMessages).IsTemplate respelledDocument ∧
    Table.get? (serve (fun _ => Sink.board) (emptyServer, []) respelledMessages).2
        (Text.ofString "file:///v/a.view.php") =
      some ⟨2, [⟨.onLine 0 0 3, .unclosedDirective (Text.ofString "@if")⟩]⟩ := by
  -- the change finds the document by its key, which the other spelling has too
  have hholds : (emptyServer.afterAll respelledMessages).Holds respelledDocument :=
    ⟨Text.ofString "file:///v/a.view.php", by decide +kernel⟩
  have htemplate : (emptyServer.afterAll respelledMessages).IsTemplate respelledDocument := by
    decide +kernel
  have hdiagnose : (emptyServer.afterAll respelledMessages).diagnose respelledDocument =
      [⟨.onLine 0 0 3, .unclosedDirective (Text.ofString "@if")⟩] := by
    decide +kernel
  obtain ⟨-, -, -, hboard, -⟩ := diagnostics_never_stale (FileTree.host {}) (Text.ofString "/") [] none
    (fun _ => Sink.neverFails_board) [] [] [] respelledMessages
  rw [serve_fst] at hboard
  refine ⟨fun _ => Sink.neverFails_board, hholds, htemplate, ?_⟩
  rw [← hdiagnose]
  exact hboard respelledDocument hholds htemplate

end Server

end ViewLint
