import ViewLint.Text.Quoted
import ViewLint.Word

/-!
# Flags

A command line is a list of words. Words that start with a hyphen are flags: `--name`,
`--name=value` or `--name value`, and single letters behind one hyphen. A switch needs no value. All
other words, and every word behind `--`, are arguments.
-/

namespace ViewLint.CommandLine

/-- The values that a flag takes. -/
inductive FlagKind where
  /-- A truth value; the flag alone means yes. -/
  | switch
  | text
  | integer
  deriving DecidableEq

/-- A flag. -/
structure Flag where
  name : String
  kind : FlagKind
  /-- The letter of the flag, if it has one. -/
  letter : Option UInt8 := none
  deriving DecidableEq

/-- Why the words of a command line could not be read. -/
inductive FlagError where
  | badSyntax (word : Text)
  | unknown (name : Text)
  | unknownLetter (letter : UInt8) (letters : Text)
  | needsValue (word : Text)
  | letterNeedsValue (letter : UInt8) (letters : Text)
  | badValue (value : Text) (flag : Flag) (reason : Text)
  deriving DecidableEq

/-- A byte in single quotes, read as the character with that code. -/
def quotedLetter (b : UInt8) : Text :=
  let code := b.toNat
  let body :=
    if code = 0x27 then Text.ofString "\\'"
    else if code = 0x22 then Text.ofString "\""
    else Text.quoteRune ⟨code, 2⟩ b
  Text.ofString "'" ++ body ++ Text.ofString "'"

/-- How messages name a flag. -/
def Flag.shown (flag : Flag) : Text :=
  match flag.letter with
  | some letter => [Text.byte '-', letter] ++ Text.ofString ", --" ++ Text.ofString flag.name
  | none => Text.ofString "--" ++ Text.ofString flag.name

/-- The wording of a failure. -/
def FlagError.message : FlagError → Text
  | badSyntax word => Text.ofString "bad flag syntax: " ++ word
  | unknown name => Text.ofString "unknown flag: --" ++ name
  | unknownLetter letter letters => Text.ofString "unknown shorthand flag: " ++
      quotedLetter letter ++ Text.ofString " in -" ++ letters
  | needsValue word => Text.ofString "flag needs an argument: " ++ word
  | letterNeedsValue letter letters => Text.ofString "flag needs an argument: " ++
      quotedLetter letter ++ Text.ofString " in -" ++ letters
  | badValue value flag reason => Text.ofString "invalid argument " ++ Text.quoted value ++
      Text.ofString " for " ++ Text.quoted flag.shown ++ Text.ofString " flag: " ++ reason

/-! ### Values -/

/-- The truth value of a text. -/
def truth? (value : Text) : Option Bool :=
  let isOne (texts : List String) : Bool := texts.any fun t => Text.ofString t == value
  if isOne ["1", "t", "T", "true", "TRUE", "True"] then some true
  else if isOne ["0", "f", "F", "false", "FALSE", "False"] then some false
  else none

/-- The value of a digit in any base up to 36. -/
def digitValue? (b : UInt8) : Option Nat :=
  if Text.isDigit b then some (b.toNat - 48)
  else if Text.isLetter b then some ((Text.lower b).toNat - 87)
  else none

/-- The value of a non-empty run of digits of a base. -/
def inBase? (base : Nat) (digits : Text) : Option Nat :=
  if digits.isEmpty then none
  else digits.foldlM (fun n b => ((digitValue? b).filter (· < base)).map (n * base + ·)) 0

/-- The base that a number is written in, and the digits behind its mark. A zero alone, or before an
underscore, marks base eight. -/
def baseOf : Text → Nat × Text
  | 48 :: b :: rest =>
    let mark := Text.lower b
    if mark = Text.byte 'x' then (16, rest)
    else if mark = Text.byte 'o' then (8, rest)
    else if mark = Text.byte 'b' then (2, rest)
    else (8, b :: rest)
  | digits => (10, digits)

/-- Do underscores stand only between digits, or between the mark of a base and a digit? `after`
says whether an underscore may stand here. -/
def underscoresFit : Bool → Text → Bool
  | _, [] => true
  | after, b :: rest =>
    if b = Text.byte '_' then
      after && (match rest with
        | [] => false
        | c :: _ => c != Text.byte '_') && underscoresFit false rest
    else underscoresFit true rest

/-- The integer of a text, with a sign and the mark of a base if wanted; `none` if it is no
number. -/
def integer? (value : Text) : Option Int :=
  let negative := value.head? = some (Text.byte '-')
  let signed := negative ∨ value.head? = some (Text.byte '+')
  let body := if signed then value.drop 1 else value
  let (base, digits) := baseOf body
  if !underscoresFit (base != 10) digits then none
  else (inBase? base (digits.filter (· != Text.byte '_'))).map fun n =>
    if negative then -(n : Int) else n

/-- The wording of a value that could not be read. -/
def unreadable (reader : String) (value : Text) (reason : String) : Text :=
  Text.ofString reader ++ Text.ofString ": parsing " ++ Text.quoted value ++
    Text.ofString ": " ++ Text.ofString reason

/-- What is wrong with a value for a flag. -/
def FlagKind.refusal? (kind : FlagKind) (value : Text) : Option Text :=
  match kind with
  | .text => none
  | .switch =>
    if (truth? value).isSome then none
    else some (unreadable "strconv.ParseBool" value "invalid syntax")
  | .integer =>
    match integer? value with
    | none => some (unreadable "strconv.ParseInt" value "invalid syntax")
    | some n =>
      if Word.fits 64 n then none
      else some (unreadable "strconv.ParseInt" value "value out of range")

/-! ### Words -/

/-- The flags and the arguments of a command line. Of a flag that is given twice the last value
counts. -/
structure Words where
  values : List (Flag × Text) := []
  arguments : List Text := []

namespace Words

/-- Notes the value of a flag. -/
def set (w : Words) (flag : Flag) (value : Text) : Except FlagError Words :=
  match flag.kind.refusal? value with
  | some reason => .error (.badValue value flag reason)
  | none => .ok { w with values := (flag, value) :: w.values }

/-- The last value of a flag. -/
def value? (w : Words) (name : String) : Option Text :=
  (w.values.find? (·.1.name == name)).map (·.2)

/-- The last value of a switch; a switch that is not given is off. -/
def isOn (w : Words) (name : String) : Bool := ((w.value? name).bind truth?).getD false

end Words

/-- What a switch means when it has no value. -/
def yes : Text := Text.ofString "true"

/-- A flag by its letter. -/
def letterFlag? (flags : List Flag) (letter : UInt8) : Option Flag :=
  flags.find? (·.letter == some letter)

/-- A flag by its name. -/
def namedFlag? (flags : List Flag) (name : Text) : Option Flag :=
  flags.find? fun f => Text.ofString f.name == name

/-- Reads the letters behind one hyphen. `next` is the word behind them, which the last letter may
take as its value; gives whether it did. -/
def readLetters (flags : List Flag) (next : Option Text) :
    Words → Text → Except FlagError (Words × Bool)
  | w, [] => .ok (w, false)
  | w, letter :: rest =>
    if (Text.ofString "test.").isPrefixOf (letter :: rest) then .ok (w, false)
    else match letterFlag? flags letter with
      | none => .error (.unknownLetter letter (letter :: rest))
      | some flag =>
        if rest.head? = some (Text.byte '=') ∧ 1 < rest.length then
          (w.set flag (rest.drop 1)).map (·, false)
        else if flag.kind = .switch then
          match w.set flag yes with
          | .error e => .error e
          | .ok w => readLetters flags next w rest
        else if !rest.isEmpty then (w.set flag rest).map (·, false)
        else match next with
          | some value => (w.set flag value).map (·, true)
          | none => .error (.letterNeedsValue letter (letter :: rest))

/-- Reads a word that starts with two hyphens; `next` is the word behind it. Gives whether that word
was taken as the value. -/
def readLong (flags : List Flag) (next : Option Text) (w : Words) (word : Text) :
    Except FlagError (Words × Bool) :=
  let body := word.drop 2
  if body.head? = some (Text.byte '-') ∨ body.head? = some (Text.byte '=') then
    .error (.badSyntax word)
  else
    let name := body.takeWhile (· != Text.byte '=')
    match namedFlag? flags name with
    | none => .error (.unknown name)
    | some flag =>
      if name.length < body.length then (w.set flag (body.drop (name.length + 1))).map (·, false)
      else if flag.kind = .switch then (w.set flag yes).map (·, false)
      else match next with
        | some value => (w.set flag value).map (·, true)
        | none => .error (.needsValue word)

/-- Reads words; `taken` says that the first of them was the value of a flag. -/
def readFrom (flags : List Flag) : Bool → Words → List Text → Except FlagError Words
  | _, w, [] => .ok { w with arguments := w.arguments.reverse }
  | true, w, _ :: rest => readFrom flags false w rest
  | false, w, word :: rest =>
    if word.head? ≠ some (Text.byte '-') ∨ word.length = 1 then
      readFrom flags false { w with arguments := word :: w.arguments } rest
    else if word = Text.ofString "--" then .ok { w with arguments := w.arguments.reverse ++ rest }
    else
      let step :=
        if (word.drop 1).head? = some (Text.byte '-') then readLong flags rest.head? w word
        else readLetters flags rest.head? w (word.drop 1)
      match step with
      | .error e => .error e
      | .ok (w, taken) => readFrom flags taken w rest

/-- Reads the words of a command line. -/
def readWords (flags : List Flag) (words : List Text) : Except FlagError Words :=
  readFrom flags false {} words

end ViewLint.CommandLine
