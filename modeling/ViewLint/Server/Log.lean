import ViewLint.Decimal
import ViewLint.Json.Parse
import ViewLint.Json.Print
import ViewLint.Server.Publication

/-!
# Log records for the editor

What a server does is noted in log records, JSON objects with a level, a message and further fields.
They are shown in the editor as messages: `LogMessage.ofRecord` takes the fields that a message has
a place for out of a record, and keeps the rest as it is. A record that was not written by the
server's own logger is marked as coming from a dependency.
-/

namespace ViewLint

/-! ### Levels -/

/-- The weight of a log record; a greater rank weighs more. -/
structure LogLevel where
  rank : Int
  deriving DecidableEq

namespace LogLevel

def trace : LogLevel := ⟨-1⟩
def debug : LogLevel := ⟨0⟩
def info : LogLevel := ⟨1⟩
def warning : LogLevel := ⟨2⟩
def error : LogLevel := ⟨3⟩
def fatal : LogLevel := ⟨4⟩
def critical : LogLevel := ⟨5⟩
/-- The level of a record without one. -/
def absent : LogLevel := ⟨6⟩
/-- The threshold that no record reaches. -/
def disabled : LogLevel := ⟨7⟩

/-- The names of the levels. -/
def names : List (String × LogLevel) :=
  [("trace", trace), ("debug", debug), ("info", info), ("warn", warning), ("error", error),
    ("fatal", fatal), ("panic", critical), ("disabled", disabled), ("", absent)]

/-- The name of a level; a level without a name is written as its rank. -/
def name (l : LogLevel) : Text :=
  match names.find? (·.2 = l) with
  | some (n, _) => Text.ofString n
  | none => Text.ofInt l.rank

/-- The level of a name in any case, or of a rank of eight bits. -/
def ofName? (name : Text) : Option LogLevel :=
  match names.find? fun n => Text.ofString n.1 = name.map Text.lower with
  | some (_, l) => some l
  | none => ((Text.toInt? name).filter fun n => -128 ≤ n ∧ n ≤ 127).map (⟨·⟩)

end LogLevel

/-- The types of messages in the editor. -/
inductive MessageType where
  | error
  | warning
  | info
  | debug
  | trace
  /-- A record of another logger. -/
  | dependency
  | unknown
  deriving DecidableEq

namespace MessageType

/-- The number of a type. -/
def number : MessageType → Nat
  | error => 1
  | warning => 2
  | info => 3
  | debug => 4
  | trace => 5
  | dependency => 6
  | unknown => 7

/-- The name of a type. -/
def name : MessageType → String
  | error => "error"
  | warning => "warning"
  | info => "info"
  | debug => "debug"
  | trace => "trace"
  | dependency => "dependency"
  | unknown => "unknown"

/-- The type of a number; any other number is unknown. -/
def ofNumber (n : Int) : MessageType :=
  ([error, warning, info, debug, trace, dependency].find? fun t => t.number = n).getD unknown

/-- The type of the records of a level. -/
def ofLevel (l : LogLevel) : MessageType :=
  if l = .info then info
  else if l = .error ∨ l = .fatal ∨ l = .critical then error
  else if l = .warning then warning
  else if l = .debug then debug
  else if l = .trace then trace
  else unknown

/-- The type of the records whose level has this name. -/
def ofLevelName (name : Text) : MessageType :=
  match LogLevel.ofName? name with
  | some l => ofLevel l
  | none => unknown

end MessageType

/-! ### Messages -/

/-- A log record as the editor shows it. -/
structure LogMessage where
  type : MessageType
  message : Text
  /-- Where in the server the record was written. -/
  source : Text
  /-- The record as it was written. -/
  raw : Text
  extra : List (Text × Json)
  time : Text

/-- Members of an object by their keys; a key that is repeated has its last value. -/
abbrev Fields := List (Text × Json)

namespace Fields

/-- The fields with each key once. -/
def distinct : Fields → Fields
  | [] => []
  | (key, v) :: rest =>
    if rest.any (·.1 == key) then distinct rest else (key, v) :: distinct rest

/-- The text of a key; a value that is no text counts as empty. -/
def text (fields : Fields) (key : String) : Text :=
  match fields.reverse.lookup (Text.ofString key) with
  | some (.str s) => s
  | _ => []

/-- The fields other than the given ones. -/
def without (fields : Fields) (keys : List String) : Fields :=
  fields.filter fun f => !keys.any fun k => Text.ofString k == f.1

end Fields

mutual

/-- A value with every number written as its nearest double; `none` if a number is too large for
one. -/
def Json.asDoubles? : Json → Option Json
  | .num written => (Decimal.ofText? written).bind fun d =>
      d.nearest?.map fun b => .num b.shortest.jsonText
  | .arr items => (Json.itemsAsDoubles? items).map .arr
  | .obj members => (Json.membersAsDoubles? members).map .obj
  | v => some v

/-- Values with every number written as its nearest double. -/
def Json.itemsAsDoubles? : List Json → Option (List Json)
  | [] => some []
  | v :: rest => do return (← Json.asDoubles? v) :: (← Json.itemsAsDoubles? rest)

/-- Members with every number written as its nearest double. -/
def Json.membersAsDoubles? : List (Text × Json) → Option (List (Text × Json))
  | [] => some []
  | (key, v) :: rest => do return (key, ← Json.asDoubles? v) :: (← Json.membersAsDoubles? rest)

end

namespace LogMessage

/-- The name under which the server's own logger signs its records. -/
def ownLogger : Text := Text.ofString "language-server"

/-- The message of a record. The fields that a message has a place for are taken out of it. -/
def ofFields (raw : Text) (record : Fields) : LogMessage where
  type := if record.text "id" = ownLogger then .ofLevelName (record.text "level") else .dependency
  message := record.text "message"
  source := record.text "caller"
  raw := raw
  extra := (record.without ["level", "message", "id", "time", "caller"]).distinct
  time := record.text "time"

/-- The message of a record as it was written. What is no JSON object is dropped; `null` counts as
an object without fields. -/
def ofRecord? (raw : Text) : Option LogMessage :=
  match (Json.parse? raw).bind Json.asDoubles? with
  | some (.obj fields) => some (ofFields raw fields)
  | some .null => some (ofFields raw [])
  | _ => none

/-- A member that is left out when it is empty. -/
def optional (key : String) (value : Text) : List (String × Json) :=
  if value.isEmpty then [] else [(key, .str value)]

/-- The message to the editor. -/
def notification (m : LogMessage) : Notification where
  method := "window/logMessage"
  params := Json.record ([("type", .int m.type.number), ("message", .str m.message)] ++
    optional "source" m.source ++ optional "raw" m.raw ++
    (if m.extra.isEmpty then [] else [("extra", .obj m.extra)]) ++ optional "time" m.time)

end LogMessage

/-! ### Writing records -/

/-- A record before it is written. -/
structure LogRecord where
  level : LogLevel
  message : String
  fields : List (String × Json) := []

/-- Writes the records that reach its threshold, each with the time and the place of its writing. -/
structure Logger where
  threshold : LogLevel
  time : Text := []
  source : Text := []

namespace Logger

/-- Does the logger write records of a level? -/
def writes (l : Logger) (level : LogLevel) : Bool :=
  decide (l.threshold.rank ≤ level.rank) && level != .disabled

/-- A record as the logger writes it. -/
def line (l : Logger) (level : LogLevel) (message : Text) (fields : Fields) : Text :=
  (Json.obj ((if level = .absent then [] else [(Text.ofString "level", .str level.name)]) ++
    [(Text.ofString "id", .str LogMessage.ownLogger)] ++ fields ++
    [(Text.ofString "time", .str l.time), (Text.ofString "caller", .str l.source)] ++
    (if message.isEmpty then [] else [(Text.ofString "message", .str message)]))).compact

/-- The message for a record, if the logger writes it. -/
def message? (l : Logger) (level : LogLevel) (message : Text) (fields : Fields) :
    Option LogMessage :=
  if l.writes level then LogMessage.ofRecord? (l.line level message fields) else none

end Logger

end ViewLint
