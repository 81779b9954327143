import Mathlib.Logic.Function.Basic
import ViewLint.Proofs.Server.Run

/-!
# The store mirrors the editor

An editor and a server have to agree on the texts that are open. What the editor believes is a
`Mirror`: under every key, the document that its messages have left there. `Mirror.after` says what a
message does to it in the plainest way; there is no sink in it, no workspace, and no URI but the one of
the message.

The server works differently. It finds a document by the URI of the message, but stores the new
version under the URI of the document that it found, it keeps a path and lines beside the text, and it
hands announcements to a sink that may refuse them. `Server.store_refines_mirror` says that none of this
shows: after every run, whatever the sinks have done, what the editor knows of the store is the mirror,
and the paths and lines are those that belong to it. The step is `Server.mirror_after`, and it needs the
invariant that every document sits under its own key (`Server.KeysAgree`); otherwise an edit could land
in another slot.
-/

namespace ViewLint

/-! ### The mirror -/

/-- The documents that an editor believes to be open, by their keys. -/
abbrev Mirror := Text → Option DocumentItem

namespace Mirror

/-- Replaces the document of a key, if there is one. -/
def edit (mirror : Mirror) (key : Text) (f : DocumentItem → DocumentItem) : Mirror :=
  Function.update mirror key ((mirror key).map f)

/-- **What a message does to the open documents.** An open binds the key of its URI to what it
brings, a change replaces version and text, a save replaces the text if it brings one, and a close
unbinds the key. Changes and saves of what is not open do nothing. -/
def after (cwd : Text) (mirror : Mirror) : DocumentMessage → Mirror
  | .didOpen item => Function.update mirror (Uri.normalize cwd item.uri) (some item)
  | .didChange uri version changes =>
    mirror.edit (Uri.normalize cwd uri) fun d =>
      { d with version, text := applyChanges d.text changes }
  | .didSave uri (some text) => mirror.edit (Uri.normalize cwd uri) fun d => { d with text }
  | .didSave _ none => mirror
  | .didClose uri => Function.update mirror (Uri.normalize cwd uri) none

theorem edit_of_none {mirror : Mirror} {key : Text} (h : mirror key = none)
    (f : DocumentItem → DocumentItem) : mirror.edit key f = mirror := by
  unfold edit
  rw [h, Option.map_none, ← h, Function.update_eq_self]

theorem edit_of_ne (mirror : Mirror) {key other : Text} (h : other ≠ key)
    (f : DocumentItem → DocumentItem) : mirror.edit key f other = mirror other :=
  Function.update_of_ne h _ _

theorem map_edit {β : Type} (mirror : Mirror) (key other : Text)
    {f : DocumentItem → DocumentItem} {view : DocumentItem → β} (h : ∀ d, view (f d) = view d) :
    (mirror.edit key f other).map view = (mirror other).map view := by
  by_cases hkey : other = key
  · subst hkey
    unfold edit
    rw [Function.update_self, Option.map_map]
    congr 1
    funext d
    exact h d
  · rw [edit_of_ne mirror hkey]

end Mirror

/-- The message changes or saves a document that has to be open. -/
def DocumentMessage.IsEdit : DocumentMessage → Prop
  | .didChange .. | .didSave .. => True
  | .didOpen _ | .didClose _ => False

/-- A change or a save keeps every key, and the URI and the language under it. -/
theorem Mirror.map_after_of_isEdit (cwd : Text) (mirror : Mirror) {m : DocumentMessage}
    (h : m.IsEdit) (key : Text) :
    (mirror.after cwd m key).map (fun d => (d.uri, d.languageId)) =
      (mirror key).map fun d => (d.uri, d.languageId) := by
  cases m with
  | didChange uri version changes => exact map_edit mirror _ key fun _ => rfl
  | didSave uri text =>
    cases text with
    | none => rfl
    | some text => exact map_edit mirror _ key fun _ => rfl
  | didOpen doc => cases h
  | didClose uri => cases h

/-- What the editor knows of a document. -/
def OpenDocument.item (d : OpenDocument) : DocumentItem := ⟨d.uri, d.languageId, d.version, d.text⟩

namespace Server

variable {σ : Type}

/-- What the editor knows of the store. -/
def mirror (s : Server) : Mirror := fun key => (Table.get? s.store key).map OpenDocument.item

/-! ### One message -/

theorem mirror_keep (s : Server) (d : OpenDocument) :
    (s.keep d).1.mirror = Function.update s.mirror (Uri.normalize s.cwd d.uri) (some d.item) := by
  funext key
  change (Table.get? (s.store.keep s.cwd d) key).map OpenDocument.item = _
  rw [get?_keep, Function.update_apply]
  split <;> rfl

theorem mirror_of_document? {s : Server} {uri : Text} {found : Option OpenDocument}
    (h : s.document? uri = found) :
    s.mirror (Uri.normalize s.cwd uri) = found.map OpenDocument.item :=
  congrArg (Option.map OpenDocument.item) h

theorem mirror_keep_withText {s : Server} (hk : s.KeysAgree) {uri : Text} {d : OpenDocument}
    (hd : s.document? uri = some d) (version : Int) (text : Text)
    {f : DocumentItem → DocumentItem} (hf : f d.item = ⟨d.uri, d.languageId, version, text⟩) :
    (s.keep (d.withText s.cwd version text)).1.mirror =
      s.mirror.edit (Uri.normalize s.cwd uri) f := by
  -- the document is written back under its own URI, which has the key of the message
  have hkey : Uri.normalize s.cwd uri = Uri.normalize s.cwd (d.withText s.cwd version text).uri :=
    hk _ d hd
  unfold Mirror.edit
  rw [mirror_keep, ← hkey, mirror_of_document? hd, Option.map_some, Option.map_some, hf]
  rfl

/-- **A message does to the store what it does to the mirror.** -/
theorem mirror_after {s : Server} (hk : s.KeysAgree) (m : DocumentMessage) :
    (s.after m).mirror = s.mirror.after s.cwd m := by
  cases m with
  | didOpen item => exact s.mirror_keep (.ofItem s.cwd item)
  | didChange uri version changes =>
    dsimp only [Mirror.after]
    cases hd : s.document? uri with
    | none =>
      have hafter : s.after (.didChange uri version changes) = s := by simp [after, step, hd]
      rw [hafter, Mirror.edit_of_none (mirror_of_document? hd)]
    | some d =>
      have hafter : s.after (.didChange uri version changes) =
          (s.keep (d.withText s.cwd version (applyChanges d.text changes))).1 := by
        simp [after, step, hd]
      rw [hafter]
      exact mirror_keep_withText hk hd _ _ rfl
  | didSave uri text =>
    cases text with
    | none =>
      -- nothing is stored, whether the document is open or not
      have hafter : s.after (.didSave uri none) = s := by
        cases hd : s.document? uri <;> simp [after, step, hd]
      rw [hafter]
      rfl
    | some text =>
      dsimp only [Mirror.after]
      cases hd : s.document? uri with
      | none =>
        have hafter : s.after (.didSave uri (some text)) = s := by simp [after, step, hd]
        rw [hafter, Mirror.edit_of_none (mirror_of_document? hd)]
      | some d =>
        have hafter : s.after (.didSave uri (some text)) =
            (s.keep (d.withText s.cwd d.version text)).1 := by
          simp [after, step, hd]
        rw [hafter]
        exact mirror_keep_withText hk hd _ _ rfl
  | didClose uri =>
    funext key
    change (Table.get? (s.store.forget s.cwd uri) key).map OpenDocument.item = _
    dsimp only [Mirror.after]
    rw [Function.update_apply, Store.forget, Table.get?_erase]
    split <;> rfl

/-- A message leaves every key but its own untouched. -/
theorem get?_after_of_ne {s : Server} (hk : s.KeysAgree) (m : DocumentMessage) {key : Text}
    (h : key ≠ Uri.normalize s.cwd m.uri) :
    Table.get? (s.after m).store key = Table.get? s.store key := by
  rcases message_cases hk m with ⟨d, -, -, -, -, hget⟩ | ⟨u, rfl, -, hget⟩ | ⟨-, -, -, hafter⟩
  · rw [hget, if_neg h]
  · rw [hget]
    exact if_neg h
  · rw [hafter]

theorem step_eq_error_iff {s : Server} {m : DocumentMessage} {e : MessageError} :
    s.step m = .error e ↔ m.IsEdit ∧ s.document? m.uri = none ∧ e = .notOpen m.uri := by
  -- opening and closing never fail, and an edit does only without a document
  cases m with
  | didOpen doc => simp [step, DocumentMessage.IsEdit]
  | didClose uri => simp [step, DocumentMessage.IsEdit]
  | didChange uri version changes =>
    dsimp only [step, DocumentMessage.IsEdit, DocumentMessage.uri]
    cases s.document? uri with
    | none => simp [eq_comm]
    | some d => simp
  | didSave uri text =>
    dsimp only [step, DocumentMessage.IsEdit, DocumentMessage.uri]
    cases s.document? uri with
    | none => simp [eq_comm]
    | some d => cases text <;> simp

theorem receive_of_error (sink : Store → Sink σ) {s : Server} (held : σ) {m : DocumentMessage}
    {e : MessageError} (h : s.step m = .error e) : s.receive sink held m = (s, held, some e) := by
  unfold receive
  rw [h]

/-- What is reported about a message that was carried out is a failure of the sink. -/
theorem receive_error_of_ok (sink : Store → Sink σ) {s : Server} (held : σ) {m : DocumentMessage}
    {done : Server × Option Announcement} {e : MessageError} (h : s.step m = .ok done)
    (he : (s.receive sink held m).2.2 = some e) : ∃ a fault, e = .undelivered a fault := by
  obtain ⟨t, announcement⟩ := done
  unfold receive at he
  rw [h] at he
  -- the step went well, so what failed is the delivery of its announcement
  cases announcement with
  | none => cases he
  | some a =>
    dsimp only at he
    cases hsink : (sink t.store).deliver held a with
    | ok held' =>
      rw [hsink] at he
      cases he
    | error fault =>
      rw [hsink] at he
      exact ⟨a, fault, (Option.some.inj he).symm⟩

theorem message_undelivered_ne (a : Announcement) (fault uri : Text) :
    (MessageError.undelivered a fault).message ≠ (MessageError.notOpen uri).message := by
  intro h
  -- the first bytes already differ
  have hhead := congrArg List.head? h
  cases a with
  | publish u v ds => exact absurd (Option.some.inj hhead) (by decide)
  | clear u => exact absurd (Option.some.inj hhead) (by decide)

theorem receive_message_eq_notOpen_iff (sink : Store → Sink σ) (s : Server) (held : σ)
    (m : DocumentMessage) :
    (s.receive sink held m).2.2.map MessageError.message =
        some (Text.ofString "document not open: " ++ m.uri) ↔
      m.IsEdit ∧ s.document? m.uri = none := by
  constructor
  · intro h
    obtain ⟨e, he, hmessage⟩ := Option.map_eq_some_iff.mp h
    -- the message of an undelivered announcement is another one
    cases hstep : s.step m with
    | error e' =>
      obtain ⟨hedit, hnone, -⟩ := step_eq_error_iff.mp hstep
      exact ⟨hedit, hnone⟩
    | ok done =>
      obtain ⟨a, fault, rfl⟩ := receive_error_of_ok sink held hstep he
      exact absurd hmessage (message_undelivered_ne a fault m.uri)
  · rintro ⟨hedit, hnone⟩
    rw [receive_of_error sink held (step_eq_error_iff.mpr ⟨hedit, hnone, rfl⟩)]
    rfl

/-! ### Runs with any sinks -/

/-- What can happen to a server: its workspace is opened, or a message arrives. Every message comes
with the sink of the moment, so that a run may have no sink, a working one, or one that fails at
any of its messages. -/
inductive Move (σ : Type) where
  | openWorkspace (p : WorkspaceParams)
  | message (sink : Store → Sink σ) (m : DocumentMessage)

def move (x : Server × σ) : Move σ → Server × σ
  | .openWorkspace p => (x.1.openWorkspace p, x.2)
  | .message sink m => serveOne sink x m

/-- The server and what its sinks hold after some moves. -/
def moves (x : Server × σ) (run : List (Move σ)) : Server × σ := run.foldl move x

/-- The mirror after some moves, from nothing open. -/
def mirrorOf (cwd : Text) (run : List (Move σ)) : Mirror :=
  run.foldl (fun mirror x => match x with
    | .openWorkspace _ => mirror
    | .message _ m => mirror.after cwd m) fun _ => none

theorem moves_concat (x : Server × σ) (run : List (Move σ)) (last : Move σ) :
    moves x (run ++ [last]) = move (moves x run) last := by
  unfold moves
  rw [List.foldl_append, List.foldl_cons, List.foldl_nil]

theorem mirrorOf_concat_message (cwd : Text) (run : List (Move σ)) (sink : Store → Sink σ)
    (m : DocumentMessage) :
    mirrorOf cwd (run ++ [.message sink m]) = (mirrorOf cwd run).after cwd m := by
  unfold mirrorOf
  rw [List.foldl_append, List.foldl_cons, List.foldl_nil]

theorem mirrorOf_concat_openWorkspace (cwd : Text) (run : List (Move σ)) (p : WorkspaceParams) :
    mirrorOf cwd (run ++ [.openWorkspace p]) = mirrorOf cwd run := by
  unfold mirrorOf
  rw [List.foldl_append, List.foldl_cons, List.foldl_nil]

theorem move_message_fst (sink : Store → Sink σ) (x : Server × σ) (m : DocumentMessage) :
    (move x (.message sink m)).1 = x.1.after m := receive_fst sink x.1 x.2 m

/-- The server keeps its working directory, files its documents under their own keys, and has the paths
and the lines that belong to them. -/
structure FiledAt (s : Server) (cwd : Text) : Prop where
  cwd_eq : s.cwd = cwd
  keysAgree : s.KeysAgree
  documentsAgree : s.DocumentsAgree

theorem filedAt_move {x : Server × σ} {cwd : Text} (h : FiledAt x.1 cwd) (last : Move σ) :
    FiledAt (move x last).1 cwd := by
  cases last with
  | openWorkspace p => exact ⟨h.cwd_eq, h.keysAgree, h.documentsAgree⟩
  | message sink m =>
    rw [move_message_fst]
    exact ⟨(after_cwd x.1 m).trans h.cwd_eq, keysAgree_after h.keysAgree m,
      documentsAgree_after h.keysAgree h.documentsAgree m⟩

theorem filedAt_moves {x : Server × σ} {cwd : Text} (h : FiledAt x.1 cwd) (run : List (Move σ)) :
    FiledAt (moves x run).1 cwd := by
  induction run using List.reverseRecOn with
  | nil => exact h
  | append_singleton run last ih =>
    rw [moves_concat]
    exact filedAt_move ih last

theorem filedAt_start (host : Host) (cwd version : Text) :
    FiledAt (start host cwd version none) cwd :=
  ⟨rfl, keysAgree_start host cwd version none, documentsAgree_start host cwd version none⟩

/-- **After every run the store is the mirror.** -/
theorem mirror_moves (host : Host) (cwd version : Text) (held : σ) (run : List (Move σ)) :
    (moves (start host cwd version none, held) run).1.mirror = mirrorOf cwd run := by
  -- induction on the moves: opening a workspace moves neither side, a message moves both alike
  induction run using List.reverseRecOn with
  | nil =>
    funext key
    rfl
  | append_singleton run last ih =>
    have hfiled := filedAt_moves (x := (start host cwd version none, held))
      (filedAt_start host cwd version) run
    rw [moves_concat]
    cases last with
    | openWorkspace p =>
      rw [mirrorOf_concat_openWorkspace]
      exact ih
    | message sink m =>
      rw [move_message_fst, mirrorOf_concat_message, mirror_after hfiled.keysAgree, hfiled.cwd_eq, ih]

/-- **The store refines the mirror, whatever the sinks do.** Take any run of a new server, with
workspaces opened and messages received in any order, and with sinks that take or refuse what they
like.

* What the editor knows of the store is the mirror.
* Every document sits under the normalized form of its own URI, the path that is stored with it is that
  of its URI, and the lines that are stored with it are those of its text.
* A further message, with any sink, leaves every key but its own untouched; a change or a save keeps
  all keys, and the URI and the language under each; a change or a save is refused as not open if and
  only if its key is unbound; and then it changes neither the server nor what the sink holds. -/
theorem store_refines_mirror (host : Host) (cwd version : Text) (held : σ)
    (run : List (Move σ)) :
    let x := moves (start host cwd version none, held) run
    x.1.mirror = mirrorOf cwd run ∧
    (∀ key d, Table.get? x.1.store key = some d →
      key = Uri.normalize cwd d.uri ∧ d.path = (Uri.toPath? cwd d.uri).getD [] ∧
        d.lines = ⟨d.text⟩) ∧
    ∀ (sink : Store → Sink σ) (m : DocumentMessage),
      let y := x.1.receive sink x.2 m
      (∀ key, key ≠ Uri.normalize cwd m.uri →
        Table.get? y.1.store key = Table.get? x.1.store key) ∧
      (m.IsEdit → ∀ key, (Table.get? y.1.store key).map (fun d => (d.uri, d.languageId)) =
        (Table.get? x.1.store key).map fun d => (d.uri, d.languageId)) ∧
      (y.2.2.map MessageError.message = some (Text.ofString "document not open: " ++ m.uri) ↔
        m.IsEdit ∧ Table.get? x.1.store (Uri.normalize cwd m.uri) = none) ∧
      (m.IsEdit → Table.get? x.1.store (Uri.normalize cwd m.uri) = none →
        y.1 = x.1 ∧ y.2.1 = x.2) := by
  intro x
  obtain ⟨hcwd, hk, hagree⟩ : FiledAt x.1 cwd := filedAt_moves (filedAt_start host cwd version) run
  refine ⟨mirror_moves host cwd version held run, fun key d hd => ?_, fun sink m => ?_⟩
  · rw [← hcwd]
    obtain ⟨hpath, hlines⟩ := hagree d ⟨key, hd⟩
    exact ⟨hk key d hd, hpath, hlines⟩
  intro y
  have hafter : y.1 = x.1.after m := receive_fst sink x.1 x.2 m
  have hunbound : x.1.document? m.uri = Table.get? x.1.store (Uri.normalize cwd m.uri) := by
    rw [← hcwd]
    rfl
  refine ⟨fun key hkey => ?_, fun hedit key => ?_, ?_, fun hedit hnone => ?_⟩
  · rw [← hcwd] at hkey
    rw [hafter, get?_after_of_ne hk m hkey]
  · -- the editor knows the URI and the language, so the mirror tells them
    have hmap := Mirror.map_after_of_isEdit x.1.cwd x.1.mirror hedit key
    rw [← mirror_after hk m, ← hafter] at hmap
    unfold mirror at hmap
    rwa [Option.map_map, Option.map_map] at hmap
  · rw [← hunbound]
    exact receive_message_eq_notOpen_iff sink x.1 x.2 m
  · rw [← hunbound] at hnone
    have hrefused := receive_of_error sink x.2 (step_eq_error_iff.mpr ⟨hedit, hnone, rfl⟩)
    change (x.1.receive sink x.2 m).1 = x.1 ∧ (x.1.receive sink x.2 m).2.1 = x.2
    rw [hrefused]
    exact ⟨rfl, rfl⟩

end Server

end ViewLint
