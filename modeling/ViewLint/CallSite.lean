import ViewLint.Path
import ViewLint.Terminal
import ViewLint.Text.Quoted

/-!
# Log lines on the console

The records that the command line shows on the console say where they come from: the package, the
file and the line of the call. The name of a function is split into its package and what stands
behind it.
-/

namespace ViewLint

/-- Splits the name of a function, such as `a.b/c.(*T).m`, at the first dot of its last segment. A
package that a receiver type was taken for is cut before the receiver. -/
def splitFunctionName (name : Text) : Text × Text :=
  let tail := (name.reverse.takeWhile (· != Path.slash)).reverse
  -- The last segment starts with its slash.
  let last := if tail.length < name.length then Path.slash :: tail else tail
  let head := name.take (name.length - last.length)
  match Text.cutAt (Text.ofString ".") last with
  | none => (name, [])
  | some (before, function) =>
    match Text.cutAt (Text.ofString ".(") (head ++ before) with
    | none => (head ++ before, function)
    | some (package, receiver) =>
      (package, Text.ofString "(" ++ receiver ++ Text.ofString "." ++ function)

/-- Where a record was written. -/
structure CallSite where
  package : Text
  path : Text
  line : Int
  deriving DecidableEq

/-- A call site in a line of the console: the package, the name of the file, and the line. -/
def CallSite.text (site : CallSite) (color : Bool) : Text :=
  let separator := Style.paint color .faint (Text.ofString ":")
  site.package ++ separator ++ Style.paint color .bold (Path.name site.path) ++ separator ++
    Style.paint color .brightRedBold (Text.ofInt site.line)

namespace Console

/-- Has a value to be quoted? Blanks, quotes, backslashes and what lies beyond ASCII ask for it. -/
def needsQuotes (value : Text) : Bool :=
  value.any fun b => b < 0x20 || 0x7e < b || b == 32 || b == Text.byte '\\' || b == Text.byte '"'

/-- A text in which malformed bytes are replaced. -/
def wellFormed (text : Text) : Text := (Text.runes text).flatMap fun r => Text.encode r.code

/-- What a line of the console shows behind the call site: the message and the fields. -/
def rest (message : Text) (fields : List (String × Text)) : Text :=
  let shown := fields.map fun (key, value) =>
    let value := wellFormed value
    Text.ofString key ++ Text.ofString "=" ++
      (if needsQuotes value then Text.quoted value else value)
  Text.join (Text.ofString " ")
    ([Text.ofString ">"] ++ (if message.isEmpty then [] else [wellFormed message]) ++ shown) ++
    Text.ofString "\n"

end Console

end ViewLint
