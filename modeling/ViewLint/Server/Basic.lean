import ViewLint.Component
import ViewLint.Server.Document
import ViewLint.Settings

/-!
# The language server

The state of a language server is its workspace, the settings that were read from it, and the open
documents. `Server.step` carries out a message about a document: it gives the server after the
message and what has to be announced, and knows nothing of where announcements go.
`Server.receive` also delivers the announcement to a sink. A sink that fails changes nothing in the
server: the message has been carried out before.
-/

namespace ViewLint

/-- A language server. -/
structure Server where
  host : Host
  /-- The working directory, against which relative paths are read. -/
  cwd : Text
  /-- The version that the server reports. -/
  version : Text
  /-- The root of the workspace; empty without one. -/
  workspace : Text := []
  settings : Settings := Settings.default
  store : Store := []

/-! ### The workspace -/

/-- What the editor says about its workspace. -/
structure WorkspaceParams where
  /-- The URIs of the workspace folders. -/
  folders : List Text := []
  rootUri : Text := []
  rootPath : Text := []
  deriving DecidableEq

/-- The root of the workspace: the first folder, else the root URI, else the root path. What names
no file is passed over. -/
def WorkspaceParams.root (cwd : Text) (p : WorkspaceParams) : Text :=
  match p.folders.head?.bind (Uri.toPath? cwd), Uri.toPath? cwd p.rootUri with
  | some path, _ => path
  | none, some path => path
  | none, none => if p.rootPath.isEmpty then [] else Path.clean p.rootPath

namespace Server

/-- Opens a workspace and reads its settings. The documents stay open. -/
def openWorkspace (s : Server) (p : WorkspaceParams) : Server :=
  { s with
    workspace := p.root s.cwd
    settings := Settings.loadOrDefault s.host (p.root s.cwd) }

/-- Which documents are view templates. -/
def selector (s : Server) : Selector :=
  .ofSuffix s.host.patterns s.settings.languageIds s.settings.viewSuffix

/-- Knows the components of the workspace. -/
def resolver (s : Server) : Resolver := .ofSettings s.host s.workspace s.settings

/-- The open document of a URI. -/
def document? (s : Server) (uri : Text) : Option OpenDocument := s.store.find? s.cwd uri

/-- The open document of a URI, if it is a view template. -/
def template? (s : Server) (uri : Text) : Option OpenDocument :=
  (s.document? uri).filter fun doc => s.selector.selects doc.languageId doc.path

end Server

/-! ### Messages about documents -/

/-- What the editor says about a document. -/
inductive DocumentMessage where
  | didOpen (item : DocumentItem)
  | didChange (uri : Text) (version : Int) (changes : List Change)
  /-- The document was saved; its text may come along. -/
  | didSave (uri : Text) (text : Option Text)
  | didClose (uri : Text)
  deriving DecidableEq

/-- Why a message was not carried out, or its announcement not delivered. -/
inductive MessageError where
  | notOpen (uri : Text)
  | undelivered (announcement : Announcement) (fault : Text)
  deriving DecidableEq

/-- The wording of a failure. -/
def MessageError.message : MessageError → Text
  | notOpen uri => Text.ofString "document not open: " ++ uri
  | undelivered announcement fault => announcement.failure fault

namespace Server

/-- What has to be announced about a document as it is now. -/
def announcement? (s : Server) (doc : OpenDocument) : Option Announcement :=
  Announcement.ofSnapshot? s.selector s.settings.unclosedWindow doc.snapshot

/-- Keeps a document and announces its diagnostics. -/
def keep (s : Server) (doc : OpenDocument) : Server × Option Announcement :=
  ({ s with store := s.store.keep s.cwd doc }, s.announcement? doc)

/-- Carries out a message about a document. A change or a save of a document that is not open is
refused; closing one is not. -/
def step (s : Server) : DocumentMessage → Except MessageError (Server × Option Announcement)
  | .didOpen item => .ok (s.keep (.ofItem s.cwd item))
  | .didChange uri version changes =>
    match s.document? uri with
    | none => .error (.notOpen uri)
    | some doc => .ok (s.keep (doc.withText s.cwd version (applyChanges doc.text changes)))
  | .didSave uri text =>
    match s.document? uri with
    | none => .error (.notOpen uri)
    | some doc =>
      match text with
      | none => .ok (s, s.announcement? doc)
      | some text => .ok (s.keep (doc.withText s.cwd doc.version text))
  | .didClose uri => .ok ({ s with store := s.store.forget s.cwd uri }, some (.clear uri))

/-- Carries out a message and delivers its announcement to a sink that may look at the open
documents. -/
def receive {σ : Type} (sink : Store → Sink σ) (s : Server) (held : σ) (m : DocumentMessage) :
    Server × σ × Option MessageError :=
  match s.step m with
  | .error e => (s, held, some e)
  | .ok (after, none) => (after, held, none)
  | .ok (after, some a) =>
    match (sink after.store).deliver held a with
    | .ok held => (after, held, none)
    | .error fault => (after, held, some (.undelivered a fault))

end Server

/-- Takes every announcement and keeps none. -/
def Sink.silent {σ : Type} : Sink σ := ⟨fun held _ => .ok held⟩

end ViewLint
