import ViewLint.Json.Fit
import ViewLint.Server.Basic

/-!
# Calls

A call is what an editor asks a server to do, with its parameters read into a record. Parameters
that are left out have their defaults; parameters that do not fit are refused.
-/

namespace ViewLint

/-- A place of a document, in the editor's columns. -/
structure DocumentPlace where
  uri : Text := []
  place : Place := ⟨0, 0⟩
  deriving DecidableEq

/-- What an editor asks a server to do. -/
inductive Call where
  | openWorkspace (p : WorkspaceParams)
  /-- The editor is ready. -/
  | ready
  | shutdown
  /-- The connection is to be closed. -/
  | exit
  /-- A call that needs no action. -/
  | noted
  | document (m : DocumentMessage)
  | completion (p : DocumentPlace)
  | hover (p : DocumentPlace)
  | definition (p : DocumentPlace)
  | folding (uri : Text)
  | symbols (query : Text)
  deriving DecidableEq

/-! ### The shapes of parameters -/

namespace Fit

/-- The width of the integers of the protocol, versions apart. -/
def wide : Fit Int := int 64

def place : Fit Place := record [
  .of "line" Place.line (fun p v => { p with line := v }) wide,
  .of "character" Place.character (fun p v => { p with character := v }) wide]

def range : Fit Range := record [
  .of "start" Range.start (fun r v => { r with start := v }) place,
  .of "end" Range.stop (fun r v => { r with stop := v }) place]

/-- A value whose key is `uri`. -/
def identifier : Fit Text := record [.of "uri" id (fun _ v => v) text]

def origin : Range := ⟨⟨0, 0⟩, ⟨0, 0⟩⟩

/-- A workspace folder, of which the URI is kept. -/
def folder : Fit Text := record [
  .of "uri" id (fun _ v => v) text,
  .of "name" (fun _ => []) (fun uri _ => uri) text]

def workspace : Fit WorkspaceParams := record [
  .of "processId" (fun _ => none) (fun p _ => p) (option 0 wide),
  .of "rootUri" WorkspaceParams.rootUri (fun p v => { p with rootUri := v }) text,
  .of "rootPath" WorkspaceParams.rootPath (fun p v => { p with rootPath := v }) text,
  .of "workspaceFolders" WorkspaceParams.folders (fun p v => { p with folders := v })
    (list [] folder),
  ⟨"initializationOptions", any⟩]

def item : Fit DocumentItem := record [
  .of "uri" DocumentItem.uri (fun d v => { d with uri := v }) text,
  .of "languageId" DocumentItem.languageId (fun d v => { d with languageId := v }) text,
  .of "version" DocumentItem.version (fun d v => { d with version := v }) (int 32),
  .of "text" DocumentItem.text (fun d v => { d with text := v }) text]

def didOpen : Fit DocumentItem := record [.of "textDocument" id (fun _ v => v) item]

def change : Fit Change := record [
  .of "range" Change.range (fun c v => { c with range := v }) (option origin range),
  .of "rangeLength" (fun _ => none) (fun c _ => c) (option 0 wide),
  .of "text" Change.text (fun c v => { c with text := v }) text]

/-- What is said of a changed document. -/
structure Changed where
  uri : Text := []
  version : Int := 0
  changes : List Change := []

def versioned : Fit Changed := record [
  .of "uri" Changed.uri (fun c v => { c with uri := v }) text,
  .of "version" Changed.version (fun c v => { c with version := v }) (int 32)]

def didChange : Fit Changed := record [
  ⟨"textDocument", versioned⟩,
  .of "contentChanges" Changed.changes (fun c v => { c with changes := v })
    (list ⟨none, []⟩ change)]

/-- What is said of a saved document. -/
structure Saved where
  uri : Text := []
  text : Option Text := none

def didSave : Fit Saved := record [
  .of "textDocument" Saved.uri (fun s v => { s with uri := v }) identifier,
  .of "text" Saved.text (fun s v => { s with text := v }) (option [] text)]

/-- Parameters that name a document only. -/
def document : Fit Text := record [.of "textDocument" id (fun _ v => v) identifier]

/-- The fields that name a place of a document. -/
def placeFields : List (Field DocumentPlace) := [
  .of "textDocument" DocumentPlace.uri (fun p v => { p with uri := v }) identifier,
  .of "position" DocumentPlace.place (fun p v => { p with place := v }) place]

def documentPlace : Fit DocumentPlace := record placeFields

/-- Why a completion was asked for, which does not matter. -/
def trigger : Fit Unit := record [
  .of "triggerKind" (fun _ => 0) (fun u _ => u) wide,
  .of "triggerCharacter" (fun _ => []) (fun u _ => u) text]

def completion : Fit DocumentPlace := record (placeFields ++ [
  .of "context" (fun _ => none) (fun p _ => p) (option () trigger)])

def query : Fit Text := record [.of "query" id (fun _ v => v) text]

end Fit

/-! ### Reading calls -/

/-- Why a call could not be read. -/
inductive CallFault where
  | unknownMethod
  | unfitParams
  deriving DecidableEq

namespace Call

/-- Reads parameters into a record; parameters that are left out leave it as it is. -/
def readParams {α : Type} (fit : Fit α) (zero : α) (params : Option Json) (make : α → Call) :
    Except CallFault Call :=
  match params with
  | none => .ok (make zero)
  | some v =>
    match fit zero v with
    | some a => .ok (make a)
    | none => .error .unfitParams

/-- Reads the parameters of a call. -/
abbrev Reader := Option Json → Except CallFault Call

/-- The methods that a server knows. -/
def methods : List (String × Reader) := [
  ("initialize", fun p => readParams Fit.workspace {} p .openWorkspace),
  ("initialized", fun p => readParams (Fit.record []) () p fun _ => .ready),
  ("shutdown", fun _ => .ok .shutdown),
  ("exit", fun _ => .ok .exit),
  ("$/cancelRequest", fun _ => .ok .noted),
  ("$/setTrace", fun _ => .ok .noted),
  ("textDocument/didOpen", fun p =>
    readParams Fit.didOpen ⟨[], [], 0, []⟩ p fun item => .document (.didOpen item)),
  ("textDocument/didChange", fun p =>
    readParams Fit.didChange {} p fun c => .document (.didChange c.uri c.version c.changes)),
  ("textDocument/didSave", fun p =>
    readParams Fit.didSave {} p fun s => .document (.didSave s.uri s.text)),
  ("textDocument/didClose", fun p =>
    readParams Fit.document [] p fun uri => .document (.didClose uri)),
  ("textDocument/completion", fun p => readParams Fit.completion {} p .completion),
  ("textDocument/hover", fun p => readParams Fit.documentPlace {} p .hover),
  ("textDocument/definition", fun p => readParams Fit.documentPlace {} p .definition),
  ("textDocument/foldingRange", fun p => readParams Fit.document [] p .folding),
  ("workspace/symbol", fun p => readParams Fit.query [] p .symbols)]

/-- How the parameters of a method are read. -/
def reader? (method : Text) : Option Reader :=
  (methods.find? fun m => Text.ofString m.1 == method).map (·.2)

/-- Reads a call. -/
def read (method : Text) (params : Option Json) : Except CallFault Call :=
  match reader? method with
  | none => .error .unknownMethod
  | some reader => reader params

end Call

end ViewLint
