import ViewLint.Completion
import ViewLint.Hover
import ViewLint.Server.Call
import ViewLint.Server.Log

/-!
# What a server notes

The records that a call leaves in the log of a server. They are a function of the server before the
call and of the call, so that the answers need not know of them.
-/

namespace ViewLint

namespace Server

/-- The records of reading the settings of the project at `root`. -/
def settingsJournal (host : Host) (root : Text) : List LogRecord :=
  let found : List LogRecord := match Settings.file? host root with
    | .ok (some file) => [⟨.debug, "loading project config", [("path", .str file.path)]⟩]
    | _ => []
  let refused : List LogRecord := match Settings.load host root with
    | .error e => [⟨.warning, "invalid project config, using defaults",
        [("error", .str e.message), ("root", .str root)]⟩]
    | .ok _ => []
  found ++ refused

/-- The record of an announcement. -/
def announcementJournal : Announcement → List LogRecord
  | .publish uri version diagnostics => [⟨.debug, "publishing diagnostics",
      [("uri", .str uri), ("version", .int version), ("count", .int diagnostics.length)]⟩]
  | .clear _ => []

/-- The records of a message about a document. -/
def documentJournal (s : Server) (m : DocumentMessage) : List LogRecord :=
  let opened : List LogRecord := match m with
    | .didOpen item => [⟨.debug, "document opened",
        [("uri", .str item.uri), ("language_id", .str item.languageId)]⟩]
    | _ => []
  let announced : List LogRecord := match s.step m with
    | .ok (_, some a) => announcementJournal a
    | _ => []
  opened ++ announced

/-- The record of a components directory that cannot be listed. -/
def listingJournal (r : Resolver) (c : Completion.Context) : List LogRecord :=
  match c.typedComponent.bind r.listedDir? with
  | none => []
  | some dir =>
    match r.host.files.list dir with
    | .ok _ => []
    | .error fault => [⟨.debug, "listing components",
        [("error", .str (Text.ofString "reading " ++ dir ++ Text.ofString ": " ++ fault.message)),
          ("dir", .str dir)]⟩]

/-- The record of a component file that cannot be looked at; that it is missing is no fault. -/
def lookupJournal (r : Resolver) (doc : Document) (place : Place) : List LogRecord :=
  match Resolver.tagAt? doc place with
  | none => []
  | some (tag, _) =>
    if r.root.isEmpty then []
    else match r.host.files.stat (r.pathFor tag) with
      | .ok _ => []
      | .error fault =>
        if fault.isMissing then []
        else [⟨.debug, "checking component file",
          [("error", .str fault.message), ("path", .str (r.pathFor tag))]⟩]

/-- The records of a call. -/
def journal (s : Server) : Call → List LogRecord
  | .openWorkspace p =>
    let after := s.openWorkspace p
    (if after.workspace.isEmpty then [] else settingsJournal s.host after.workspace) ++
      [⟨.debug, "initializing server",
        [("workspace", .str after.workspace),
          ("components_dir", .str after.settings.componentsDir),
          ("language_ids", .arr (after.settings.languageIds.map .str))]⟩]
  | .ready => [⟨.info, "client initialized", [("workspace", .str s.workspace)]⟩]
  | .shutdown => [⟨.debug, "shutdown requested", []⟩]
  | .document m => s.documentJournal m
  | .completion p =>
    match s.template? p.uri with
    | none => []
    | some doc => listingJournal s.resolver
        (.ofPlace doc.lines (doc.lines.fromUTF16Place p.place))
  | .hover p | .definition p =>
    match s.template? p.uri with
    | none => []
    | some doc => lookupJournal s.resolver doc.lines (doc.lines.fromUTF16Place p.place)
  | .exit | .noted | .folding _ | .symbols _ => []

end Server

end ViewLint
