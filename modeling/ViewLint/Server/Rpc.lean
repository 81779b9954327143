import ViewLint.Json.Parse
import ViewLint.Json.Print

/-!
# Requests and replies

Messages follow JSON-RPC 2.0. A payload holds one request or a batch of them; a request without an
id, or with the id `null`, is a notification and gets no reply. What is wrong with a request is told
in the reply to it, with the id `null` if it has none.
-/

namespace ViewLint.Rpc

/-- An error in a reply. -/
structure Fault where
  code : Int
  message : Text
  deriving DecidableEq

namespace Fault

def parseCode : Int := -32700
def requestCode : Int := -32600

/-- The payload is no JSON. -/
def notJson : Fault := ⟨parseCode, Text.ofString "invalid request value"⟩
def emptyBatch : Fault := ⟨requestCode, Text.ofString "empty request batch"⟩
def notObject : Fault := ⟨parseCode, Text.ofString "request is not a JSON object"⟩
def badVersionKey : Fault := ⟨parseCode, Text.ofString "invalid version key"⟩
def badId : Fault := ⟨requestCode, Text.ofString "invalid request ID"⟩
def badMethod : Fault := ⟨parseCode, Text.ofString "invalid method name"⟩
def badParams : Fault := ⟨requestCode, Text.ofString "parameters must be array or object"⟩
def badError : Fault := ⟨parseCode, Text.ofString "invalid error value"⟩
def mixed : Fault := ⟨requestCode, Text.ofString "mixed request and reply fields"⟩
def extraFields : Fault := ⟨requestCode, Text.ofString "extra fields in request"⟩
def duplicateId : Fault := ⟨requestCode, Text.ofString "duplicate request ID"⟩
def badVersion : Fault := ⟨requestCode, Text.ofString "invalid version marker"⟩
def emptyMethod : Fault := ⟨requestCode, Text.ofString "empty method name"⟩
def unknownMethod : Fault := ⟨-32601, Text.ofString "method not found"⟩
/-- The parameters do not fit the method. -/
def unfitParams : Fault := ⟨parseCode, Text.ofString "[-32602] invalid parameters"⟩
/-- The call failed. -/
def failed (message : Text) : Fault := ⟨-32098, message⟩

/-- The form of an error. -/
def json (f : Fault) : Json := Json.record [("code", .int f.code), ("message", .str f.message)]

end Fault

/-- A request as it was received. -/
structure Request where
  /-- The id; a notification has none. -/
  id : Option Json
  method : Text
  params : Option Json
  /-- What is wrong with the request, apart from its method. -/
  fault : Option Fault

namespace Request

/-- The value of a key, or `null`. -/
def value (members : List (Text × Json)) (key : String) : Json :=
  (members.reverse.lookup (Text.ofString key)).getD .null

/-- A text or nothing; `none` for any other value. -/
def text? : Json → Option Text
  | .null => some []
  | .str s => some s
  | _ => none

/-- Is the value allowed as an id? -/
def isId : Json → Bool
  | .null | .num _ | .str _ => true
  | _ => false

/-- Is the value allowed as parameters? -/
def isParams : Json → Bool
  | .null | .arr _ | .obj _ => true
  | _ => false

/-- Is the value allowed as the error of a reply? -/
def isError : Json → Bool
  | .null | .obj _ => true
  | _ => false

/-- A value that is not `null`. -/
def nonNull : Json → Option Json
  | .null => none
  | v => some v

/-- The keys that a message may have. -/
def keys : List String := ["jsonrpc", "id", "method", "params", "error", "result"]

/-- The first fault whose condition holds. -/
def firstFault (checks : List (Bool × Fault)) : Option Fault :=
  (checks.find? (·.1)).map (·.2)

/-- What is wrong with the members of a request. -/
def faultOf (members : List (Text × Json)) : Option Fault :=
  let get := value members
  let has (key : String) : Bool := members.any fun m => m.1 == Text.ofString key
  let method := (text? (get "method")).getD []
  firstFault [
    ((text? (get "jsonrpc")).isNone, .badVersionKey),
    (!isId (get "id"), .badId),
    ((text? (get "method")).isNone, .badMethod),
    (!isParams (get "params"), .badParams),
    (!isError (get "error"), .badError),
    (!method.isEmpty && ((nonNull (get "error")).isSome || has "result"), .mixed),
    (members.any fun m => !keys.any fun k => Text.ofString k == m.1, .extraFields),
    (text? (get "jsonrpc") != some (Text.ofString "2.0"), .badVersion),
    (method.isEmpty, .emptyMethod)]

/-- Reads a request. `null` counts as an object without members. -/
def ofJson : Json → Request
  | .obj members =>
    { id := if isId (value members "id") then nonNull (value members "id") else none
      method := (text? (value members "method")).getD []
      params := nonNull (value members "params")
      fault := faultOf members }
  | .null => ⟨none, [], none, some .badVersion⟩
  | _ => ⟨none, [], none, some .notObject⟩

/-- An id as it is written; a notification has the empty text. -/
def idText (r : Request) : Text :=
  match r.id with
  | some id => id.compact
  | none => []

/-- Marks the requests of a batch that share an id. A fault of a request's own form weighs more. -/
def markDuplicates (batch : List Request) : List Request :=
  batch.map fun r =>
    let shared := r.id.isSome && 1 < batch.countP fun q => q.idText == r.idText
    let formal := match r.fault with
      | none => false
      | some f => f != .badVersion && f != .emptyMethod
    if shared && !formal then { r with fault := some .duplicateId } else r

end Request

/-- What a payload holds. -/
inductive Payload where
  | single (r : Request)
  | batch (rs : List Request)
  /-- The payload as a whole is wrong. -/
  | faulty (f : Fault)

/-- Reads a payload. -/
def Payload.read (text : Text) : Payload :=
  match Json.parse? text with
  | none => .faulty .notJson
  | some (.arr []) => .faulty .emptyBatch
  | some (.arr items) => .batch (Request.markDuplicates (items.map Request.ofJson))
  | some v => .single (Request.ofJson v)

/-- A reply to a request. -/
structure Reply where
  id : Json
  result : Except Fault Json

/-- The form of a reply. -/
def Reply.json (r : Reply) : Json :=
  Json.record [("jsonrpc", .string "2.0"), ("id", r.id),
    match r.result with
    | .ok v => ("result", v)
    | .error f => ("error", f.json)]

end ViewLint.Rpc
