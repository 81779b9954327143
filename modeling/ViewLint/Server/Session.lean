import ViewLint.Server.Answer
import ViewLint.Server.Frame
import ViewLint.Server.Journal
import ViewLint.Server.Rpc

/-!
# Sessions

A session is a server at the end of a connection. It takes bytes as they arrive (`Session.receive`),
carries out the requests that they hold, one after the other, and gives the messages to be sent
back: the log records and diagnostics of a request first, then the reply to it. It ends when the
editor asks it to, when the connection is closed (`Session.close`), or when the bytes cannot be read
as frames.
-/

namespace ViewLint

/-! ### Carrying out calls -/

/-- What a call gives. -/
structure Outcome where
  server : Server
  published : List Publication := []
  /-- The answer, or why the call failed. -/
  answer : Except Text Json := .ok .null

namespace Server

/-- Carries out a call. -/
def perform (s : Server) : Call → Outcome
  | .openWorkspace p =>
    let after := s.openWorkspace p
    { server := after, answer := .ok after.introduction }
  | .document m =>
    let (after, published, e) := s.receive (Sink.editor s.cwd) [] m
    { server := after
      published
      answer := match e with
        | none => .ok .null
        | some e => .error e.message }
  | .completion p =>
    { server := s
      answer := .ok (Json.orNull (fun items => .arr (items.map (·.json)))
        (s.completion? p.uri p.place)) }
  | .hover p => { server := s, answer := .ok (Json.orNull hoverJson (s.hover? p.uri p.place)) }
  | .definition p =>
    { server := s, answer := .ok (Json.orNull locationJson (s.definition? p.uri p.place)) }
  | .folding uri =>
    { server := s
      answer := .ok (Json.orNull (fun folds => .arr (folds.map Fold.json)) (s.folds? uri)) }
  | .symbols query =>
    { server := s
      answer := match s.symbols query with
        | .ok found => .ok (.arr (found.map s.symbolJson))
        | .error e => .error (Text.ofString "listing components: " ++ e.message) }
  | .ready | .shutdown | .exit | .noted => { server := s }

end Server

/-! ### The state of a session -/

/-- How far a session has come. -/
inductive Phase where
  | running
  /-- The session ended as it should. -/
  | ended
  | broken (fault : Frame.Fault)
  deriving DecidableEq

/-- A server at the end of a connection. -/
structure Session where
  server : Server
  logger : Logger
  /-- Is every request and every reply noted in the log? -/
  traced : Bool
  /-- The bytes that have arrived and are not read yet. -/
  unread : Text := []
  phase : Phase := .running

/-- A message to the editor. -/
inductive Outgoing where
  | notification (n : Notification)
  | reply (r : Rpc.Reply)
  | batch (rs : List Rpc.Reply)

/-- The form of a message. -/
def Outgoing.json : Outgoing → Json
  | notification n => Json.record
      [("jsonrpc", .string "2.0"), ("method", .string n.method), ("params", n.params)]
  | reply r => r.json
  | batch rs => .arr (rs.map (·.json))

namespace Session

/-! ### Requests -/

/-- The messages of log records, each with further fields. -/
def logged (s : Session) (fields : List (String × Json)) (records : List LogRecord) :
    List Notification :=
  records.filterMap fun r =>
    (s.logger.message? r.level (Text.ofString r.message)
      ((r.fields ++ fields).map fun f => (Text.ofString f.1, f.2))).map (·.notification)

/-- The record of a request. -/
def requestRecord (r : Rpc.Request) : LogRecord :=
  ⟨.debug, "client request",
    [("rpc_params", .str ((r.params.map Json.compact).getD [])), ("rpc_id", .str r.idText),
      ("rpc_method", .str r.method)]⟩

/-- The record of a reply. -/
def replyRecord (r : Rpc.Reply) : LogRecord :=
  ⟨.debug, "server response",
    [("rpc_result", .str (match r.result with
      | .ok v => v.compact
      | .error _ => [])), ("rpc_id", .str r.id.compact)]⟩

/-- What a request gives: the session after it, the messages on the way, and the reply. -/
structure Handled where
  session : Session
  sent : List Notification := []
  reply : Option Rpc.Reply := none

/-- The reply to a request; a notification gets none. -/
def replyTo (r : Rpc.Request) (result : Except Rpc.Fault Json) : Option Rpc.Reply :=
  r.id.map fun id => ⟨id, result⟩

/-- Carries out a call that a request has made. -/
def perform (s : Session) (r : Rpc.Request) (call : Call) : Handled :=
  let outcome := s.server.perform call
  let context := [("rpc_method", Json.str r.method), ("rpc_id", Json.str r.idText)]
  { session :=
      { s with
        server := outcome.server
        phase := if call = .exit then .ended else s.phase }
    sent := s.logged context (s.server.journal call) ++ outcome.published.map (·.notification)
    reply := replyTo r (outcome.answer.mapError .failed) }

/-- Handles a request. A request that is wrong in itself gets a reply even without an id. -/
def handle (s : Session) (r : Rpc.Request) : Handled :=
  match r.fault, Call.reader? r.method with
  | some f, _ => { session := s, reply := some ⟨r.id.getD .null, .error f⟩ }
  | none, none => { session := s, reply := replyTo r (.error .unknownMethod) }
  | none, some reader =>
    let asked := if s.traced then s.logged [] [requestRecord r] else []
    let handled := match reader r.params with
      | .ok call => s.perform r call
      | .error _ => { session := s, reply := replyTo r (.error .unfitParams) }
    { handled with sent := asked ++ handled.sent }

/-- Handles requests one after the other. -/
def handleAll (s : Session) : List Rpc.Request → Session × List Notification × List Rpc.Reply
  | [] => (s, [], [])
  | r :: rest =>
    let h := s.handle r
    let (after, sent, replies) := h.session.handleAll rest
    (after, h.sent ++ sent, h.reply.toList ++ replies)

/-- Is a reply noted in the log? Replies to requests that are wrong in themselves are not. -/
def isNoted (r : Rpc.Reply) : Bool :=
  match r.result with
  | .ok _ => true
  | .error f => f.code != Rpc.Fault.requestCode &&
      (f.code != Rpc.Fault.parseCode || f == .unfitParams)

/-- The records of replies, if they are noted. -/
def replyLog (s : Session) (replies : List Rpc.Reply) : List Notification :=
  if s.traced then s.logged [] ((replies.filter isNoted).map replyRecord) else []

/-- Handles a payload. -/
def handlePayload (s : Session) (payload : Text) : Session × List Outgoing :=
  match Rpc.Payload.read payload with
  | .faulty f => (s, [.reply ⟨.null, .error f⟩])
  | .single r =>
    let (after, sent, replies) := s.handleAll [r]
    (after, (sent ++ s.replyLog replies).map .notification ++ replies.map .reply)
  | .batch rs =>
    let (after, sent, replies) := s.handleAll rs
    (after, (sent ++ s.replyLog replies).map .notification ++
      (if replies.isEmpty then [] else [.batch replies]))

/-! ### Bytes -/

/-- Handles the whole frames among the unread bytes; each step of the fuel handles one. -/
def drain : Nat → Session → Session × List Outgoing
  | 0, s => (s, [])
  | fuel + 1, s =>
    if s.phase ≠ .running then (s, [])
    else match Frame.next s.unread with
      | .part _ => (s, [])
      | .faulty f => ({ s with phase := .broken f }, [])
      | .whole (payload, rest) =>
        let (after, sent) := { s with unread := rest }.handlePayload payload
        let (final, more) := drain fuel after
        (final, sent ++ more)

/-- Takes bytes that have arrived. Every frame takes up at least one byte. -/
def receive (s : Session) (bytes : Text) : Session × List Outgoing :=
  if s.phase ≠ .running then (s, [])
  else
    let unread := s.unread ++ bytes
    drain (unread.length + 1) { s with unread }

/-- Is the connection closed by the server? -/
def isOver (s : Session) : Bool := s.phase ≠ .running

/-- The session after the editor has closed the connection. Inside a payload this is a fault. -/
def close (s : Session) : Session :=
  if s.phase ≠ .running then s
  else match Frame.next s.unread with
    | .part true => { s with phase := .broken .cutShort }
    | _ => { s with phase := .ended }

/-- Why the session broke, if it did. -/
def failure? (s : Session) : Option Text :=
  match s.phase with
  | .broken f => some (Text.ofString "language server stopped: " ++ f.message)
  | _ => none

end Session

end ViewLint
