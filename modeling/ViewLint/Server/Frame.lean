import ViewLint.Text.Quoted
import ViewLint.Word

/-!
# Frames

Messages travel in frames: header lines, a blank line, and a payload of the length that the header
tells. `Frame.next` takes the first frame from the bytes that have arrived, which need not be whole;
`Frame.encode` writes one.
-/

namespace ViewLint.Frame

/-- The content type of the payloads. -/
def contentType : Text := Text.ofString "application/vscode-jsonrpc; charset=utf-8"

/-- Why a connection cannot be read any further. -/
inductive Fault where
  | badHeaderLine
  | noLength
  | badLength
  | otherType (given : Text)
  /-- The connection ended inside a payload. -/
  | cutShort
  deriving DecidableEq

/-- The wording of a fault. -/
def Fault.message : Fault → Text
  | badHeaderLine => Text.ofString "invalid header line"
  | noLength => Text.ofString "missing required content-length"
  | badLength => Text.ofString "invalid content-length"
  | otherType given => Text.ofString "content type mismatch: got " ++ Text.quoted given ++
      Text.ofString ", want " ++ Text.quoted contentType
  | cutShort => Text.ofString "unexpected EOF"

/-- The fields of a header that matter; an empty text means that a field is not given. -/
structure Header where
  type : Text := []
  length : Text := []
  deriving DecidableEq

/-- Notes a field of a header; names are read in any case, and unknown names are passed over. -/
def Header.note (h : Header) (name value : Text) : Header :=
  let name := name.map Text.lower
  if name = Text.ofString "content-type" then { h with type := value }
  else if name = Text.ofString "content-length" then { h with length := value }
  else h

/-- What has arrived of something. -/
inductive Arrival (α : Type) where
  | whole (a : α)
  /-- More bytes are needed; `begun` says whether a payload has begun. -/
  | part (begun : Bool)
  | faulty (f : Fault)

/-- Reads the lines of a header up to a blank one. The last line has not ended yet. -/
def header : Header → List Text → Arrival (Header × List Text)
  | _, [] => .part false
  | _, [_] => .part false
  | h, line :: next :: rest =>
    let line := Text.trimEnd (fun b => b == 13 || b == 10) line
    if line.isEmpty then .whole (h, next :: rest)
    else match Text.cutAt (Text.ofString ":") line with
      | none => .faulty .badHeaderLine
      | some (name, value) => header (h.note name (Text.trimSpace value)) (next :: rest)

/-- The length of the payload that a header tells. -/
def Header.payloadLength (h : Header) : Except Fault Nat :=
  if h.length.isEmpty then .error .noLength
  else match Text.toInt? h.length with
    | none => .error .badLength
    | some n => if n < 0 ∨ Word.bound 64 ≤ n then .error .badLength else .ok n.toNat

/-- The first payload of the bytes that have arrived, and the bytes behind it. -/
def next (arrived : Text) : Arrival (Text × Text) :=
  match header {} (Text.split (Text.byte '\n') arrived) with
  | .part begun => .part begun
  | .faulty f => .faulty f
  | .whole (h, lines) =>
    match h.payloadLength with
    | .error f => .faulty f
    | .ok length =>
      let body := Text.join [Text.byte '\n'] lines
      if body.length < length then .part (!body.isEmpty)
      else if !h.type.isEmpty && h.type != contentType then .faulty (.otherType h.type)
      else .whole (body.take length, body.drop length)

/-- The frame of a payload. -/
def encode (payload : Text) : Text :=
  Text.ofString "Content-Type: " ++ contentType ++ Text.ofString "\r\nContent-Length: " ++
    Text.ofNat payload.length ++ Text.ofString "\r\n\r\n" ++ payload

end ViewLint.Frame
