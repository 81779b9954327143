import ViewLint.Text.Utf8

/-!
# JSON values

Messages to and from the editor and two of the report formats are JSON. A value keeps what its
users can tell apart: the source text of a number (an integer written as `1.0` is refused where an
integer is expected), and the members of an object in the order in which they were written, repeated
keys included.
-/

namespace ViewLint

/-- A JSON value. -/
inductive Json where
  | null
  | bool (value : Bool)
  /-- A number, as it is written. -/
  | num (written : Text)
  | str (value : Text)
  | arr (items : List Json)
  | obj (members : List (Text × Json))

namespace Json

/-- An integer value. -/
def int (n : Int) : Json := .num (Text.ofInt n)

/-- A string value from a constant. -/
def string (s : String) : Json := .str (Text.ofString s)

/-- An object from members with constant keys. -/
def record (members : List (String × Json)) : Json :=
  .obj (members.map fun m => (Text.ofString m.1, m.2))

/-- The value of a key; of repeated keys the last one counts. -/
def get? (key : Text) : Json → Option Json
  | .obj members => members.reverse.lookup key
  | _ => none

end Json

end ViewLint
