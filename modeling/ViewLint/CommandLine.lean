import ViewLint.CheckRun
import ViewLint.CommandLine.Flag
import ViewLint.Product
import ViewLint.Text.Lower

/-!
# The command line

`Command.read` finds out what a command line asks for. The command is the first word that is neither
a flag nor the value of one; the words around it are then read by the flags of that command. A word
that is no command is refused, with the names of the commands that look like it.
-/

namespace ViewLint

namespace CommandLine

/-! ### The commands -/

/-- The commands by name. -/
inductive CommandName where
  | rawVersion
  | serve
  | check
  | help
  | completion
  deriving DecidableEq

namespace CommandName

/-- All commands, in the order in which they are looked for. -/
def all : List CommandName := [rawVersion, serve, check, help, completion]

/-- The word of a command. -/
def word : CommandName → String
  | rawVersion => "raw-version"
  | serve => "serve-lsp"
  | check => "check"
  | help => "help"
  | completion => "completion"

/-- Is the command offered to someone who looks for a command? -/
def isOffered : CommandName → Bool
  | rawVersion | help => false
  | _ => true

/-- The command of a word. -/
def ofWord? (word : Text) : Option CommandName := all.find? fun c => Text.ofString c.word == word

end CommandName

/-- The flags of every command. -/
def verboseFlag : Flag := ⟨"verbose", .switch, some (Text.byte 'v')⟩
@[inherit_doc verboseFlag] def helpFlag : Flag := ⟨"help", .switch, some (Text.byte 'h')⟩

/-- The flags of a command; without one, those of the program itself. -/
def flagsOf : Option CommandName → List Flag
  | none => [verboseFlag, helpFlag, ⟨"version", .switch, none⟩]
  | some .serve => [verboseFlag, helpFlag, ⟨"debug", .switch, none⟩]
  | some .check => [verboseFlag, helpFlag, ⟨"root", .text, none⟩, ⟨"format", .text, none⟩,
      ⟨"no-color", .switch, none⟩, ⟨"fail-on", .text, none⟩, ⟨"jobs", .integer, none⟩]
  | some _ => [verboseFlag, helpFlag]

/-! ### Finding the command -/

/-- Does a flag take the next word as its value? Before the command is known all flags but the one
for verbosity seem to. -/
def takesNext (word : Text) : Bool :=
  let isSwitch := word = Text.ofString "--verbose" ∨ word = Text.ofString "-v"
  (Text.ofString "-").isPrefixOf word && !word.any (· == Text.byte '=') && !isSwitch &&
    ((Text.ofString "--").isPrefixOf word || word.length == 2)

/-- The words that are neither flags nor values of flags. A flag that takes the last word ends
them. -/
def plainWords : List Text → List Text
  | [] => []
  | word :: rest =>
    if word = Text.ofString "--" then []
    else if takesNext word then
      match rest with
      | [] => []
      | [_] => []
      | _ :: next :: rest => plainWords (next :: rest)
    else if word.isEmpty || word.head? == some (Text.byte '-') then plainWords rest
    else word :: plainWords rest

/-- Takes the first plain word that is `target` out of the words. -/
def removeWord (target : Text) : List Text → List Text
  | [] => []
  | word :: rest =>
    if word = Text.ofString "--" then word :: rest
    else if takesNext word then
      match rest with
      | [] => [word]
      | value :: rest => word :: value :: removeWord target rest
    else if word.head? ≠ some (Text.byte '-') ∧ word = target then rest
    else word :: removeWord target rest

/-! ### Words that look alike -/

/-- The distances of a text from the starts of another one, given those of the text without its
first byte `a`. -/
def distanceRow (a : UInt8) : Nat → List Nat → Text → List Nat
  | left, diagonal :: above :: row, b :: other =>
    let here := if a = b then diagonal else 1 + min (min left above) diagonal
    left :: distanceRow a here (above :: row) other
  | left, _, _ => [left]

/-- The distances of a text from all starts of another one, the empty start first: how many bytes
have to be added, dropped or changed. -/
def distances (other : Text) : Text → List Nat → List Nat
  | [], row => row
  | a :: rest, row => distances other rest (distanceRow a (row.headD 0 + 1) row other)

/-- The distance of two texts. -/
def distance (text other : Text) : Nat :=
  ((distances other text (List.range (other.length + 1))).getLast?).getD 0

/-- Does a word look like the word of a command: at most two bytes off, or the start of it? -/
def looksLike (word : Text) (c : CommandName) : Bool :=
  let typed := Text.toLower word
  let name := Text.ofString c.word
  distance typed name ≤ 2 || typed.isPrefixOf name

/-- The commands that a word looks like. -/
def suggestions (word : Text) : List CommandName :=
  CommandName.all.filter fun c => c.isOffered && looksLike word c

end CommandLine

/-! ### Commands -/

/-- What a command line asks for. -/
inductive Command where
  /-- How to use the program. -/
  | usage
  | version
  /-- The bare version. -/
  | rawVersion
  | check (run : CheckRun)
  | serve (debug : Bool)
  deriving DecidableEq

/-- Why a command line failed. -/
inductive CommandError where
  | unknownCommand (word : Text)
  | flag (e : CommandLine.FlagError)
  | check (e : CheckError)
  /-- The language server stopped. -/
  | server (reason : Text)
  deriving DecidableEq

namespace CommandError

/-- The wording of a failure. -/
def cause : CommandError → Text
  | unknownCommand word =>
    let alike := CommandLine.suggestions word
    Text.ofString "unknown command " ++ Text.quoted word ++ Text.ofString " for " ++
      Text.quoted (Text.ofString Product.name) ++
      (if alike.isEmpty then []
        else Text.ofString "\n\nDid you mean this?\n" ++ alike.flatMap fun c =>
          Text.ofString "\t" ++ Text.ofString c.word ++ Text.ofString "\n")
  | flag e => e.message
  | check e => e.message
  | server reason => Text.ofString "running language server: " ++ reason

/-- The message of a failure. That a report holds findings is no failure of the program, and is told
as it is. -/
def message : CommandError → Text
  | check .findings => CheckError.findings.message
  | e => Text.ofString "failed to execute command: " ++ e.cause

end CommandError

namespace Command

open CommandLine

/-- A run of checks, as its flags ask for it. -/
def checkRun (w : Words) : CheckRun where
  root := (w.value? "root").getD (Text.ofString ".")
  format := (w.value? "format").getD (Text.ofString "text")
  color := !w.isOn "no-color"
  failOn := (w.value? "fail-on").getD (Text.ofString "error")
  arguments := w.arguments

/-- The command of a name and its words. -/
def ofWords (name : Option CommandName) (w : Words) : Command :=
  if w.isOn "help" then .usage
  else match name with
    | none => if w.isOn "version" then .version else .usage
    | some .rawVersion => .rawVersion
    | some .serve => .serve (w.isOn "debug")
    | some .check => .check (checkRun w)
    | some .help => .usage
    | some .completion => .usage

/-- Reads a command line. -/
def read (words : List Text) : Except CommandError Command :=
  let found : Except CommandError (Option CommandName × List Text) :=
    match plainWords words with
    | [] => .ok (none, words)
    | word :: _ =>
      match CommandName.ofWord? word with
      | some name => .ok (some name, removeWord word words)
      | none => .error (.unknownCommand word)
  match found with
  | .error e => .error e
  | .ok (name, rest) =>
    match readWords (flagsOf name) rest with
    | .error e => .error (.flag e)
    | .ok w => .ok (ofWords name w)

end Command

/-- What a command has written, and how it failed. -/
structure CommandOutcome where
  output : Text := []
  errors : Text := []
  failure : Option CommandError := none

namespace Command

/-- How to use the program, in short. -/
def usageText : Text :=
  Text.ofString "usage: " ++ Text.ofString Product.name ++
    Text.ofString " check [path|glob]... | serve-lsp | --version\n"

/-- Runs a command in a directory of a host. A language server is run elsewhere: here its
connection is closed at once, and it says nothing. -/
def run (host : Host) (cwd : Text) : Command → CommandOutcome
  | .usage => { output := usageText }
  | .version =>
    { output := Text.ofString Product.name ++ Text.ofString " version " ++
        Text.ofString Product.version ++ Text.ofString "\n" }
  | .rawVersion => { errors := Text.ofString Product.version ++ Text.ofString "\n" }
  | .check run =>
    let (output, e) := run.execute host cwd none
    { output, failure := e.map .check }
  | .serve _ => {}

/-- Reads and runs a command line. -/
def runLine (host : Host) (cwd : Text) (words : List Text) : CommandOutcome :=
  match read words with
  | .ok c => c.run host cwd
  | .error e => { failure := some e }

end Command

end ViewLint
