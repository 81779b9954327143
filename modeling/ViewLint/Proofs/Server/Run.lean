import Mathlib.Data.List.Induction
import Mathlib.Tactic.Common
import ViewLint.Server.Basic

/-!
# Runs of the language server

A run is a server, a sink for its announcements, and a list of document messages that are carried
out one after the other (`Server.serve`). What a message does to the server and what it has to
announce do not depend on the sink: `Server.after` and `Server.sends` say both without it, and
`Server.serve_fst` reads the server off a run with any sink, failing or not.

A message does one of three things (`Server.message_cases`): it leaves a document under the URI that
it is about and announces it, it closes the document of that URI and withdraws what was announced,
or it is refused.

In every run from an empty store each document sits under the normalized form of its own URI
(`Server.KeysAgree`), so two documents of the store never have the same URI. And what a document keeps
beside its URI and its text, the path and the lines, is that of this URI and of this text
(`Server.DocumentsAgree`), though messages change the text many times.
-/

namespace ViewLint

/-- The URI that a message is about. -/
def DocumentMessage.uri : DocumentMessage → Text
  | .didOpen item => item.uri
  | .didChange uri _ _ => uri
  | .didSave uri _ => uri
  | .didClose uri => uri

/-- **A document whose stored path is that of its URI, and whose stored lines are those of its text.** -/
structure OpenDocument.Agrees (cwd : Text) (d : OpenDocument) : Prop where
  path_eq : d.path = (Uri.toPath? cwd d.uri).getD []
  lines_eq : d.lines = ⟨d.text⟩

theorem OpenDocument.agrees_ofItem (cwd : Text) (item : DocumentItem) : (ofItem cwd item).Agrees cwd :=
  ⟨rfl, rfl⟩

namespace Server

variable {σ : Type}

/-- A new server whose workspace has been opened once or not at all. -/
def start (host : Host) (cwd version : Text) : Option WorkspaceParams → Server
  | none => { host, cwd, version }
  | some p => openWorkspace { host, cwd, version } p

/-- The server and its sink after a message. -/
def serveOne (sink : Store → Sink σ) (x : Server × σ) (m : DocumentMessage) : Server × σ :=
  ((x.1.receive sink x.2 m).1, (x.1.receive sink x.2 m).2.1)

/-- The server and its sink after a list of messages. -/
def serve (sink : Store → Sink σ) (x : Server × σ) (ms : List DocumentMessage) : Server × σ :=
  ms.foldl (serveOne sink) x

/-- The server after a message; a message that is refused changes nothing. -/
def after (s : Server) (m : DocumentMessage) : Server :=
  match s.step m with
  | .ok (t, _) => t
  | .error _ => s

/-- What a message has to announce. -/
def sends (s : Server) (m : DocumentMessage) : List Announcement :=
  match s.step m with
  | .ok (_, a) => a.toList
  | .error _ => []

/-- The server after a list of messages. -/
def afterAll (s : Server) (ms : List DocumentMessage) : Server := ms.foldl after s

/-- The document is in the store. -/
def Holds (s : Server) (d : OpenDocument) : Prop := ∃ key, Table.get? s.store key = some d

/-- The document is a view template. -/
def IsTemplate (s : Server) (d : OpenDocument) : Prop :=
  s.selector.selects d.languageId d.path = true

instance (s : Server) (d : OpenDocument) : Decidable (s.IsTemplate d) :=
  inferInstanceAs (Decidable (_ = true))

/-- The diagnostics of a document under the settings of the server. -/
def diagnose (s : Server) (d : OpenDocument) : List Diagnostic :=
  check s.settings.unclosedWindow d.text

/-! ### Runs -/

@[simp] theorem serve_nil (sink : Store → Sink σ) (x : Server × σ) : serve sink x [] = x := rfl

theorem serve_concat (sink : Store → Sink σ) (x : Server × σ) (ms : List DocumentMessage)
    (m : DocumentMessage) : serve sink x (ms ++ [m]) = serveOne sink (serve sink x ms) m := by
  unfold serve
  rw [List.foldl_append, List.foldl_cons, List.foldl_nil]

@[simp] theorem afterAll_nil (s : Server) : s.afterAll [] = s := rfl

theorem afterAll_concat (s : Server) (ms : List DocumentMessage) (m : DocumentMessage) :
    s.afterAll (ms ++ [m]) = (s.afterAll ms).after m := by
  unfold afterAll
  rw [List.foldl_append, List.foldl_cons, List.foldl_nil]

/-- The server does not depend on the sink, not even on its failures. -/
theorem receive_fst (sink : Store → Sink σ) (s : Server) (held : σ) (m : DocumentMessage) :
    (s.receive sink held m).1 = s.after m := by
  unfold receive after
  split
  · next h => rw [h]
  · next h => rw [h]
  · next h =>
    rw [h]
    split <;> rfl

theorem serve_fst (sink : Store → Sink σ) (s : Server) (held : σ) (ms : List DocumentMessage) :
    (serve sink (s, held) ms).1 = s.afterAll ms := by
  induction ms using List.reverseRecOn with
  | nil => rfl
  | append_singleton ms m ih =>
    rw [serve_concat, afterAll_concat, ← ih]
    exact receive_fst sink _ _ m

/-- A sink that takes everything is handed what the message sends, with the store after it. -/
theorem receive_snd_of_ok (sink : Store → Sink σ) (s : Server) (held : σ) (m : DocumentMessage)
    (f : σ → Announcement → σ)
    (hf : ∀ a, (sink (s.after m).store).deliver held a = .ok (f held a)) :
    (s.receive sink held m).2.1 = (s.sends m).foldl f held := by
  unfold receive sends
  unfold after at hf
  -- a failed step and one without announcement send nothing; the third sends `a`
  split
  · next h =>
    rw [h]
    rfl
  · next h =>
    rw [h]
    rfl
  · next t a h =>
    rw [h] at hf ⊢
    rw [hf a]
    rfl

/-! ### What a message does -/

/-- Every document sits under the normalized form of its own URI. -/
def KeysAgree (s : Server) : Prop :=
  ∀ key d, Table.get? s.store key = some d → key = Uri.normalize s.cwd d.uri

/-- Every document has the path of its URI and the lines of its text. -/
def DocumentsAgree (s : Server) : Prop := ∀ d, s.Holds d → d.Agrees s.cwd

/-- A new server has no document open. -/
theorem not_holds_start (host : Host) (cwd version : Text) (p : Option WorkspaceParams)
    (d : OpenDocument) : ¬ (start host cwd version p).Holds d := by
  rintro ⟨key, h⟩
  cases p <;> exact absurd h (by simp [start, openWorkspace])

theorem keysAgree_start (host : Host) (cwd version : Text) (p : Option WorkspaceParams) :
    (start host cwd version p).KeysAgree :=
  fun key d h => absurd ⟨key, h⟩ (not_holds_start host cwd version p d)

theorem documentsAgree_start (host : Host) (cwd version : Text) (p : Option WorkspaceParams) :
    (start host cwd version p).DocumentsAgree :=
  fun d h => absurd h (not_holds_start host cwd version p d)

/-- A message changes nothing but the store. -/
theorem after_eq (s : Server) (m : DocumentMessage) :
    s.after m = { s with store := (s.after m).store } := by
  unfold after
  -- no message touches more of the server than its store
  cases m with
  | didOpen doc => rfl
  | didChange uri version changes =>
    dsimp only [step]
    cases s.document? uri <;> rfl
  | didSave uri text =>
    dsimp only [step]
    cases s.document? uri with
    | none => rfl
    | some doc => cases text <;> rfl
  | didClose uri => rfl

@[simp] theorem after_cwd (s : Server) (m : DocumentMessage) : (s.after m).cwd = s.cwd := by
  rw [after_eq]

@[simp] theorem after_settings (s : Server) (m : DocumentMessage) :
    (s.after m).settings = s.settings := by
  rw [after_eq]

@[simp] theorem isTemplate_after (s : Server) (m : DocumentMessage) (d : OpenDocument) :
    (s.after m).IsTemplate d ↔ s.IsTemplate d := by
  unfold IsTemplate selector
  rw [after_eq]

@[simp] theorem diagnose_after (s : Server) (m : DocumentMessage) (d : OpenDocument) :
    (s.after m).diagnose d = s.diagnose d := by
  unfold diagnose
  rw [after_settings]

@[simp] theorem afterAll_cwd (s : Server) (ms : List DocumentMessage) :
    (s.afterAll ms).cwd = s.cwd := by
  induction ms using List.reverseRecOn with
  | nil => rfl
  | append_singleton ms m ih => rw [afterAll_concat, after_cwd, ih]

/-- The announcement of a document: a template is published, another one is left alone. -/
theorem announcement?_eq (s : Server) (d : OpenDocument) :
    s.announcement? d =
      if s.IsTemplate d then some (.publish d.uri d.version (s.diagnose d)) else none := rfl

theorem get?_keep (s : Server) (d : OpenDocument) (key : Text) :
    Table.get? (s.store.keep s.cwd d) key =
      if key = Uri.normalize s.cwd d.uri then some d else Table.get? s.store key :=
  Table.get?_put ..

/-- A new version of a document is kept under every spelling of its URI. -/
theorem get?_keep_withText (s : Server) {uri : Text} {doc : OpenDocument}
    (hkey : Uri.normalize s.cwd uri = Uri.normalize s.cwd doc.uri) (version : Int)
    (text key : Text) :
    Table.get? (s.store.keep s.cwd (doc.withText s.cwd version text)) key =
      if key = Uri.normalize s.cwd uri then some (doc.withText s.cwd version text)
      else Table.get? s.store key := by
  rw [get?_keep, hkey]
  rfl

/-- **What a message does.** It leaves a document under the URI that it is about and announces that
document, which is new or was there before; or it closes the document of that URI and withdraws what
was announced for it; or it is refused. No other key is touched. -/
theorem message_cases {s : Server} (hk : s.KeysAgree) (m : DocumentMessage) :
    (∃ d, Uri.normalize s.cwd d.uri = Uri.normalize s.cwd m.uri ∧
        (d.Agrees s.cwd ∨ s.document? m.uri = some d) ∧ (∀ u, m ≠ .didClose u) ∧
        s.sends m = (s.announcement? d).toList ∧
        ∀ key, Table.get? (s.after m).store key =
          if key = Uri.normalize s.cwd m.uri then some d else Table.get? s.store key) ∨
    (∃ u, m = .didClose u ∧ s.sends m = [.clear u] ∧
        ∀ key, Table.get? (s.after m).store key =
          if key = Uri.normalize s.cwd u then none else Table.get? s.store key) ∨
    (s.document? m.uri = none ∧ (∀ u, m ≠ .didClose u) ∧ s.sends m = [] ∧ s.after m = s) := by
  cases m with
  | didOpen item =>
    exact Or.inl ⟨.ofItem s.cwd item, rfl, Or.inl (OpenDocument.agrees_ofItem _ _), by simp, rfl,
      s.get?_keep _⟩
  | didChange uri version changes =>
    cases hd : s.document? uri with
    | none =>
      refine Or.inr (Or.inr ⟨hd, by simp, ?_, ?_⟩)
      · simp [sends, step, hd]
      · simp [after, step, hd]
    | some doc =>
      -- the message may spell the URI in another way than the document, but not another key
      have hkey : Uri.normalize s.cwd uri = Uri.normalize s.cwd doc.uri := hk _ doc hd
      refine Or.inl ⟨doc.withText s.cwd version (applyChanges doc.text changes), hkey.symm,
        Or.inl (OpenDocument.agrees_ofItem _ _), by simp, ?_, ?_⟩
      · simp [sends, step, hd, keep]
      · intro key
        have hafter : (s.after (.didChange uri version changes)).store =
            s.store.keep s.cwd (doc.withText s.cwd version (applyChanges doc.text changes)) := by
          simp [after, step, hd, keep]
        rw [hafter]
        exact s.get?_keep_withText hkey version _ key
  | didSave uri text =>
    cases hd : s.document? uri with
    | none =>
      refine Or.inr (Or.inr ⟨hd, by simp, ?_, ?_⟩)
      · simp [sends, step, hd]
      · simp [after, step, hd]
    | some doc =>
      have hkey : Uri.normalize s.cwd uri = Uri.normalize s.cwd doc.uri := hk _ doc hd
      cases text with
      | none =>
        -- a save without a text stores nothing, but the document is announced again
        refine Or.inl ⟨doc, hkey.symm, Or.inr hd, by simp, ?_, ?_⟩
        · simp [sends, step, hd]
        · intro key
          have hafter : s.after (.didSave uri none) = s := by simp [after, step, hd]
          rw [hafter]
          by_cases hu : key = Uri.normalize s.cwd uri
          · subst hu
            exact hd.trans (if_pos rfl).symm
          · exact (if_neg hu).symm
      | some text =>
        refine Or.inl ⟨doc.withText s.cwd doc.version text, hkey.symm,
          Or.inl (OpenDocument.agrees_ofItem _ _), by simp, ?_, ?_⟩
        · simp [sends, step, hd, keep]
        · intro key
          have hafter : (s.after (.didSave uri (some text))).store =
              s.store.keep s.cwd (doc.withText s.cwd doc.version text) := by
            simp [after, step, hd, keep]
          rw [hafter]
          exact s.get?_keep_withText hkey doc.version text key
  | didClose uri =>
    exact Or.inr (Or.inl ⟨uri, rfl, rfl, fun key => Table.get?_erase ..⟩)

/-- A document that is in the store after a message sits under its own key and has just been made, or
it was in the store before. -/
theorem get?_after_eq_some {s : Server} (hk : s.KeysAgree) {m : DocumentMessage} {key : Text}
    {d : OpenDocument} (h : Table.get? (s.after m).store key = some d) :
    key = Uri.normalize s.cwd d.uri ∧ d.Agrees s.cwd ∨ Table.get? s.store key = some d := by
  -- the key of the message holds what it stored, every other key what it held
  rcases message_cases hk m with ⟨d', huri, horigin, -, -, hget⟩ | ⟨u, -, -, hget⟩ | ⟨-, -, -, hafter⟩
  · rw [hget] at h
    by_cases hkey : key = Uri.normalize s.cwd m.uri
    · rw [if_pos hkey] at h
      obtain rfl := Option.some.inj h
      rcases horigin with hagrees | hfound
      · exact Or.inl ⟨hkey.trans huri.symm, hagrees⟩
      · rw [hkey]
        exact Or.inr hfound
    · rw [if_neg hkey] at h
      exact Or.inr h
  · rw [hget] at h
    by_cases hkey : key = Uri.normalize s.cwd u
    · rw [if_pos hkey] at h
      exact absurd h (by simp)
    · rw [if_neg hkey] at h
      exact Or.inr h
  · rw [hafter] at h
    exact Or.inr h

/-- **Keys agree along every run.** -/
theorem keysAgree_after {s : Server} (hk : s.KeysAgree) (m : DocumentMessage) :
    (s.after m).KeysAgree := by
  intro key d h
  rw [after_cwd]
  exact (get?_after_eq_some hk h).elim And.left (hk key d)

theorem keysAgree_afterAll {s : Server} (hk : s.KeysAgree) (ms : List DocumentMessage) :
    (s.afterAll ms).KeysAgree := by
  induction ms using List.reverseRecOn with
  | nil => exact hk
  | append_singleton ms m ih =>
    rw [afterAll_concat]
    exact keysAgree_after ih m

/-- **Documents agree with their URI and their text along every run.** -/
theorem documentsAgree_after {s : Server} (hk : s.KeysAgree) (hd : s.DocumentsAgree)
    (m : DocumentMessage) : (s.after m).DocumentsAgree := by
  rintro d ⟨key, h⟩
  rw [after_cwd]
  exact (get?_after_eq_some hk h).elim And.right fun hheld => hd d ⟨key, hheld⟩

theorem documentsAgree_afterAll {s : Server} (hk : s.KeysAgree) (hd : s.DocumentsAgree)
    (ms : List DocumentMessage) : (s.afterAll ms).DocumentsAgree := by
  induction ms using List.reverseRecOn with
  | nil => exact hd
  | append_singleton ms m ih =>
    rw [afterAll_concat]
    exact documentsAgree_after (keysAgree_afterAll hk ms) ih m

theorem DocumentsAgree.agrees_of_template? {s : Server} (h : s.DocumentsAgree) {uri : Text}
    {d : OpenDocument} (hd : s.template? uri = some d) : d.Agrees s.cwd :=
  h d ⟨_, (Option.filter_eq_some_iff.mp hd).1⟩

/-- A document of the store is found under its own URI. -/
theorem KeysAgree.document?_uri {s : Server} (hk : s.KeysAgree) {d : OpenDocument}
    (h : s.Holds d) : s.document? d.uri = some d := by
  obtain ⟨key, hd⟩ := h
  unfold document? Store.find?
  rw [← hk key d hd]
  exact hd

end Server

end ViewLint
