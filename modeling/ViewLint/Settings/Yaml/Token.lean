import ViewLint.Settings.Characters

/-!
# The tokens of a YAML stream

A YAML stream is cut into tokens by a scanner that keeps track of the indentation of open block
collections, of the nesting of flow collections, and of where a simple key may stand. A simple key
is recognised only by the colon behind it; its token, and the token that opens the block mapping it
starts, are then put in front of tokens that have already been found.

`scan` gives the tokens of a stream, the end of the stream last. A stream that breaks the rules
gives the tokens that can be used before the fault is met, and no end: the last two before the fault
are lost, because a reader looks two tokens ahead, and so is every token from an undecided simple
key on.
-/

namespace ViewLint.Yaml

/-- How a scalar was written. -/
inductive Style where
  | plain
  | quoted
  deriving DecidableEq

/-- A token of a YAML stream. -/
inductive Token where
  | streamEnd
  | directive
  | documentStart
  | documentEnd
  | blockSequence
  | blockMapping
  | blockEnd
  | flowSequence
  | flowSequenceEnd
  | flowMapping
  | flowMappingEnd
  | entry
  | comma
  | key
  | value
  | alias (name : List Char)
  | anchor (name : List Char)
  | tag (name : List Char)
  | scalar (style : Style) (content : List Char)
  deriving DecidableEq

/-- A place where a simple key may have started. -/
structure SimpleKey where
  possible : Bool := false
  /-- Without a colon behind it the stream is at fault. -/
  required : Bool := false
  /-- The number of tokens found before it. -/
  number : Nat := 0
  line : Nat := 0
  column : Nat := 0
  index : Nat := 0

/-- The state of the scanner. -/
structure Scanner where
  input : List Char
  line : Nat := 0
  column : Nat := 0
  index : Nat := 0
  /-- The indentation of the current block collection; `-1` outside all of them. -/
  indent : Int := -1
  /-- The indentations of the enclosing block collections. -/
  indents : List Int := []
  /-- The nesting of flow collections. -/
  flow : Nat := 0
  /-- May a simple key start here? -/
  keyAllowed : Bool := true
  /-- The simple key of the current flow level. -/
  simple : SimpleKey := {}
  /-- The simple keys of the enclosing flow levels. -/
  simples : List SimpleKey := []
  /-- The tokens found, last first. -/
  found : List Token := []

/-! ### Character classes -/

/-- The characters that end a line. -/
def isBreak (c : Char) : Bool :=
  c == '\n' || c == '\r' || c.toNat == 0x85 || c.toNat == 0x2028 || c.toNat == 0x2029

/-- A space or a tab. -/
def isBlank (c : Char) : Bool := c == ' ' || c == '\t'

/-- Is the input at a blank, at a line end, or at its end? -/
def atGap : List Char → Bool
  | [] => true
  | c :: _ => isBlank c || isBreak c

/-- The characters of anchor names and tag handles. -/
def isWordChar (c : Char) : Bool := c.isAlphanum || c == '_' || c == '-'

/-- The characters that a stream may hold. -/
def isAllowed (c : Char) : Bool :=
  let n := c.toNat
  n == 9 || n == 10 || n == 13 || (0x20 ≤ n && n ≤ 0x7E) || n == 0x85 || (0xA0 ≤ n && n ≤ 0xD7FF) ||
    (0xE000 ≤ n && n ≤ 0xFFFD) || 0x10000 ≤ n

namespace Scanner

/-! ### Moving on -/

/-- Passes over one character. -/
def skip (s : Scanner) : Scanner :=
  { s with input := s.input.drop 1, column := s.column + 1, index := s.index + 1 }

/-- Passes over `n` characters. -/
def skipN (s : Scanner) (n : Nat) : Scanner :=
  { s with input := s.input.drop n, column := s.column + n, index := s.index + n }

/-- Passes over a line end, and gives the character it stands for. -/
def takeBreak (s : Scanner) : List Char × Scanner :=
  let onto (n : Nat) (c : Char) :=
    ([c], { s with input := s.input.drop n, line := s.line + 1, column := 0, index := s.index + n })
  match s.input with
  | '\r' :: '\n' :: _ => onto 2 '\n'
  | c :: _ =>
    if c.toNat == 0x2028 || c.toNat == 0x2029 then onto 1 c
    else if isBreak c then onto 1 '\n'
    else ([], s)
  | [] => ([], s)

/-- Adds a token. -/
def push (s : Scanner) (t : Token) : Scanner := { s with found := t :: s.found }

/-- Is the input at a document marker, at the start of a line? -/
def atDocumentMarker (s : Scanner) : Bool :=
  s.column == 0 &&
    match s.input with
    | '-' :: '-' :: '-' :: rest => atGap rest
    | '.' :: '.' :: '.' :: rest => atGap rest
    | _ => false

/-! ### Indentation -/

/-- Opens a block collection at a column; its token is put behind the first `number` tokens. -/
def rollIndent (s : Scanner) (column number : Nat) (t : Token) : Scanner :=
  if s.flow = 0 ∧ s.indent < column then
    let behind := s.found.length - number
    { s with
      indent := column
      indents := s.indent :: s.indents
      found := s.found.take behind ++ t :: s.found.drop behind }
  else s

/-- Closes the given block collections while they are indented deeper than a column. -/
def unrollFrom (column : Int) : List Int → Scanner → Scanner
  | [], s => s
  | outer :: indents, s =>
    if column < s.indent then
      unrollFrom column indents { s.push .blockEnd with indent := outer, indents := indents }
    else s

/-- Closes the block collections that are indented deeper than a column. -/
def unrollIndent (s : Scanner) (column : Int) : Scanner :=
  if s.flow = 0 then unrollFrom column s.indents s else s

/-! ### Simple keys -/

/-- Drops the current simple key; at fault if it was required. -/
def dropSimple (s : Scanner) : Option Scanner :=
  if s.simple.possible && s.simple.required then none
  else some { s with simple := { s.simple with possible := false } }

/-- Notes that a simple key may start here. -/
def saveSimple (s : Scanner) : Option Scanner :=
  if s.keyAllowed then
    (dropSimple s).map fun s =>
      { s with simple :=
        { possible := true
          required := s.flow == 0 && s.indent == s.column
          number := s.found.length
          line := s.line
          column := s.column
          index := s.index } }
  else some s

/-- Is a simple key still on its line and within reach? -/
def inReach (s : Scanner) (k : SimpleKey) : Bool :=
  k.possible && k.line == s.line && s.index ≤ k.index + 1024

/-! ### Blanks and comments -/

/-- Passes over blanks, comments and line ends up to the next token. -/
def toNextToken : Nat → Scanner → Scanner
  | 0, s => s
  | fuel + 1, s =>
    match s.input with
    | [] => s
    | c :: _ =>
      if c == ' ' || (c == '\t' && (0 < s.flow || !s.keyAllowed)) then toNextToken fuel s.skip
      else if c.toNat == 0xFEFF && s.column == 0 then toNextToken fuel s.skip
      else if c == '#' then
        toNextToken fuel (s.skipN (s.input.takeWhile (!isBreak ·)).length)
      else if isBreak c then
        let s := (s.takeBreak).2
        toNextToken fuel (if s.flow = 0 then { s with keyAllowed := true } else s)
      else s

/-! ### Line folding -/

/-- What stands between two words of a scalar: blanks on one line, or line ends. -/
structure Gap where
  blanks : List Char := []
  /-- The first line end. -/
  first : List Char := []
  /-- The further line ends. -/
  more : List Char := []
  /-- Has a line ended? -/
  broken : Bool := false

/-- The text that a gap stands for: a single line end is a space, and of several the first is
dropped. -/
def Gap.folded (g : Gap) : List Char :=
  if g.broken then
    if g.first = ['\n'] then if g.more.isEmpty then [' '] else g.more
    else g.first ++ g.more
  else g.blanks

/-- Passes over the blanks and line ends of a gap. `tabLimit` is the column before which a tab may
not stand at the start of a line. -/
def scanGap (tabLimit : Int) : Nat → Gap → Scanner → Option (Gap × Scanner)
  | 0, g, s => some (g, s)
  | fuel + 1, g, s =>
    match s.input with
    | [] => some (g, s)
    | c :: _ =>
      if isBlank c then
        if g.broken then
          if c == '\t' && (s.column : Int) < tabLimit then none else scanGap tabLimit fuel g s.skip
        else scanGap tabLimit fuel { g with blanks := g.blanks ++ [c] } s.skip
      else if isBreak c then
        let (b, s) := s.takeBreak
        if g.broken then scanGap tabLimit fuel { g with more := g.more ++ b } s
        else scanGap tabLimit fuel { g with blanks := [], first := b, broken := true } s
      else some (g, s)

/-! ### Plain scalars -/

/-- Does a plain scalar end at this input? -/
def endsPlain (flow : Nat) : List Char → Bool
  | [] => true
  | c :: rest =>
    isBlank c || isBreak c || (c == ':' && atGap rest) ||
      (0 < flow && (c == ',' || c == '?' || c == '[' || c == ']' || c == '\x7b' || c == '\x7d'))

/-- The characters before the end of a plain scalar's word. -/
def plainWord (flow : Nat) : List Char → List Char
  | [] => []
  | c :: rest => if endsPlain flow (c :: rest) then [] else c :: plainWord flow rest

/-- Scans a plain scalar; `gap` is what stands before the next word. -/
def scanPlain : Nat → Gap → List Char → Scanner → Option Scanner
  | 0, _, _, _ => none
  | fuel + 1, gap, content, s =>
    let finish (gap : Gap) (content : List Char) (s : Scanner) :=
      { s.push (.scalar .plain content) with keyAllowed := gap.broken }
    if s.atDocumentMarker || s.input.head? == some '#' then some (finish gap content s)
    else
      let word := plainWord s.flow s.input
      let content := if word.isEmpty then content else content ++ gap.folded ++ word
      let gap := if word.isEmpty then gap else {}
      let s := s.skipN word.length
      if !s.input.head?.any (fun c => isBlank c || isBreak c) then some (finish gap content s)
      else
        match scanGap (s.indent + 1) (s.input.length + 1) gap s with
        | none => none
        | some (gap, s) =>
          if s.flow = 0 ∧ (s.column : Int) < s.indent + 1 then some (finish gap content s)
          else scanPlain fuel gap content s

/-! ### Quoted scalars -/

/-- The value of hexadecimal digits. -/
def hexValue (digits : List Char) : Option Nat :=
  digits.foldl (fun value c => value.bind fun v =>
    if c.isDigit then some (v * 16 + (c.toNat - 48))
    else if 'a' ≤ c ∧ c ≤ 'f' then some (v * 16 + (c.toNat - 87))
    else if 'A' ≤ c ∧ c ≤ 'F' then some (v * 16 + (c.toNat - 55))
    else none) (some 0)

/-- The character of an escape with `n` hexadecimal digits, and its length. -/
def hexEscape (n : Nat) (digits : List Char) : Option (Char × Nat) :=
  if (digits.take n).length < n then none
  else match hexValue (digits.take n) with
    | none => none
    | some v =>
      if (0xD800 ≤ v ∧ v ≤ 0xDFFF) ∨ 0x10FFFF < v then none else some (Char.ofNat v, n + 1)

/-- The character of an escape, read behind the backslash, and the length of the escape. -/
def escape? : List Char → Option (Char × Nat)
  | [] => none
  | 'x' :: rest => hexEscape 2 rest
  | 'u' :: rest => hexEscape 4 rest
  | 'U' :: rest => hexEscape 8 rest
  | c :: _ =>
    (([('0', 0), ('a', 7), ('b', 8), ('t', 9), ('\t', 9), ('n', 10), ('v', 11), ('f', 12),
      ('r', 13), ('e', 27), (' ', 32), ('"', 34), ('\'', 39), ('/', 47), ('\\', 92), ('N', 0x85),
      ('_', 0xA0), ('L', 0x2028), ('P', 0x2029)] : List (Char × Nat)).lookup c).map fun n =>
      (Char.ofNat n, 1)

/-- Scans a quoted scalar behind its opening quote. -/
def scanQuoted (quote : Char) : Nat → List Char → Scanner → Option Scanner
  | 0, _, _ => none
  | fuel + 1, content, s =>
    if s.atDocumentMarker then none
    else match s.input with
      | [] => none
      | c :: rest =>
        if c == quote then
          if quote == '\'' && rest.head? == some '\'' then
            scanQuoted quote fuel (content ++ ['\'']) (s.skipN 2)
          else some (s.skip.push (.scalar .quoted content))
        else if isBlank c || isBreak c then
          match scanGap 0 (s.input.length + 1) {} s with
          | none => none
          | some (gap, s) =>
            if s.input.head? == some quote && !gap.broken then
              scanQuoted quote fuel (content ++ gap.blanks) s
            else scanQuoted quote fuel (content ++ gap.folded) s
        else if c == '\\' && quote == '"' then
          if rest.head?.any isBreak then
            let s := (s.skip.takeBreak).2
            match scanGap 0 (s.input.length + 1) { broken := true } s with
            | none => none
            | some (gap, s) => scanQuoted quote fuel (content ++ gap.folded) s
          else match escape? rest with
            | none => none
            | some (e, n) => scanQuoted quote fuel (content ++ [e]) (s.skipN (n + 1))
        else scanQuoted quote fuel (content ++ [c]) s.skip

/-! ### Block scalars -/

/-- What happens to the line ends behind a block scalar. -/
inductive Chomping where
  | strip
  | clip
  | keep
  deriving DecidableEq

/-- The header of a block scalar: its chomping, its indentation if it is given, and its length. -/
def blockHeader : List Char → Option (Chomping × Nat × Nat)
  | c :: rest =>
    let chomp (c : Char) := if c == '+' then Chomping.keep else .strip
    if c == '+' || c == '-' then
      match rest.head? with
      | some d =>
        if d == '0' then none
        else if d.isDigit then some (chomp c, d.toNat - 48, 2)
        else some (chomp c, 0, 1)
      | none => some (chomp c, 0, 1)
    else if c == '0' then none
    else if c.isDigit then
      match rest.head? with
      | some d =>
        if d == '+' || d == '-' then some (chomp d, c.toNat - 48, 2)
        else some (.clip, c.toNat - 48, 1)
      | none => some (.clip, c.toNat - 48, 1)
    else some (.clip, 0, 0)
  | [] => some (.clip, 0, 0)

/-- Passes over the indentation and the empty lines before a line of a block scalar. An indentation
of zero is still to be found. -/
def blockBreaks (indent : Nat) : Nat → Nat → List Char → Scanner →
    Option (List Char × Nat × Scanner)
  | 0, deepest, breaks, s => some (breaks, deepest, s)
  | fuel + 1, deepest, breaks, s =>
    let spaces := (s.input.takeWhile (· == ' ')).length
    let spaces := if indent = 0 then spaces else min spaces (indent - s.column)
    let s := s.skipN spaces
    let deepest := max deepest s.column
    if (indent = 0 ∨ s.column < indent) ∧ s.input.head? = some '\t' then none
    else if s.input.head?.any isBreak then
      let (b, s) := s.takeBreak
      blockBreaks indent fuel deepest (breaks ++ b) s
    else some (breaks, deepest, s)

/-- Scans the lines of a block scalar. `pending` is the end of the last line, `breaks` the empty
lines behind it, and `wasBlank` says that the last line started with a blank. -/
def blockLines (literal : Bool) (chomping : Chomping) (indent : Nat) :
    Nat → List Char → List Char → List Char → Bool → Scanner → Option Scanner
  | 0, _, _, _, _, _ => none
  | fuel + 1, content, pending, breaks, wasBlank, s =>
    if s.column = indent ∧ !s.input.isEmpty then
      let startsBlank := s.input.head?.any isBlank
      let joined :=
        if !literal && !wasBlank && !startsBlank && pending == ['\n'] then
          if breaks.isEmpty then [' '] else []
        else pending
      let line := s.input.takeWhile (!isBreak ·)
      let (b, s) := (s.skipN line.length).takeBreak
      match blockBreaks indent (s.input.length + 1) 0 [] s with
      | none => none
      | some (more, _, s) =>
        blockLines literal chomping indent fuel (content ++ joined ++ breaks ++ line) b more
          startsBlank s
    else
      let content := match chomping with
        | .strip => content
        | .clip => content ++ pending
        | .keep => content ++ pending ++ breaks
      some (s.push (.scalar .quoted content))

/-- Scans a block scalar behind its indicator. -/
def scanBlock (literal : Bool) (s : Scanner) : Option Scanner := do
  let (chomping, increment, length) ← blockHeader s.input
  let s := s.skipN length
  let s := s.skipN (s.input.takeWhile isBlank).length
  let s := if s.input.head? == some '#' then s.skipN (s.input.takeWhile (!isBreak ·)).length else s
  if s.input.head?.any (!isBreak ·) then none
  else
    let s := (s.takeBreak).2
    let base := (max s.indent 0).toNat
    let given := if increment = 0 then 0 else base + increment
    let (breaks, deepest, s) ← blockBreaks given (s.input.length + 1) 0 [] s
    let indent := if given = 0 then max (max deepest (s.indent + 1).toNat) 1 else given
    blockLines literal chomping indent (s.input.length + 1) [] [] breaks false s

/-! ### Tags and anchors -/

/-- The characters of a tag's name. -/
def isTagChar (c : Char) : Bool :=
  isWordChar c || ";/?:@&=+$.!~*'()%".toList.contains c || c == ',' || c == '[' || c == ']'

/-- Scans a tag behind its exclamation mark. The core tags get their short names back, and a lone
mark is the empty name. -/
def scanTag (s : Scanner) : Option Scanner :=
  let finish (name : List Char) (s : Scanner) :=
    if atGap s.input || (0 < s.flow && s.input.head? == some ',') then some (s.push (.tag name))
    else none
  match s.input with
  | '<' :: rest =>
    let name := rest.takeWhile isTagChar
    let after := rest.drop name.length
    if name.isEmpty ∨ after.head? ≠ some '>' then none
    else
      let core := "tag:yaml.org,2002:".toList
      let short := if core.isPrefixOf name then "!!".toList ++ name.drop core.length else name
      finish short (s.skipN (name.length + 2))
  | '!' :: rest =>
    let name := rest.takeWhile fun c => isTagChar c && c != ',' && c != '[' && c != ']'
    if name.isEmpty then none else finish ("!!".toList ++ name) (s.skipN (name.length + 1))
  | input =>
    let name := input.takeWhile fun c => isTagChar c && c != ',' && c != '[' && c != ']'
    if name.contains '!' then none
    else finish (if name.isEmpty then [] else '!' :: name) (s.skipN name.length)

/-- Scans the name of an anchor or an alias behind its mark. -/
def scanName (make : List Char → Token) (s : Scanner) : Option Scanner :=
  let name := s.input.takeWhile isWordChar
  let s := s.skipN name.length
  if name.isEmpty then none
  else if atGap s.input || s.input.head?.any ("?:,]\x7d%@`".toList.contains ·) then
    some (s.push (make name))
  else none

/-! ### Tokens -/

/-- Scans a directive. Only the version 1.1 and tag handles are known. -/
def scanDirective (s : Scanner) : Option Scanner := do
  let s ← (s.unrollIndent (-1)).dropSimple
  let line := s.input.takeWhile (!isBreak ·)
  let words := ((String.ofList (line.takeWhile (· != '#'))).splitOn " ").filter (· != "")
  let known := match words with
    | ["%YAML", version] => version == "1.1"
    | ["%TAG", _, _] => true
    | _ => false
  if known then
    some { (s.skipN line.length).push .directive with keyAllowed := false }
  else none

/-- Opens a flow collection. -/
def openFlow (s : Scanner) (t : Token) : Option Scanner :=
  s.saveSimple.map fun s =>
    { s.skip.push t with
      flow := s.flow + 1
      simples := s.simple :: s.simples
      simple := {}
      keyAllowed := true }

/-- Closes a flow collection. -/
def closeFlow (s : Scanner) (t : Token) : Option Scanner :=
  s.dropSimple.map fun s =>
    let s := { s.skip.push t with keyAllowed := false }
    match s.simples with
    | [] => s
    | k :: ks => { s with flow := s.flow - 1, simple := k, simples := ks }

/-- Handles a dash that starts an entry of a block sequence. -/
def blockEntry (s : Scanner) : Option Scanner :=
  if s.flow = 0 ∧ !s.keyAllowed then none
  else
    (s.rollIndent s.column s.found.length .blockSequence).dropSimple.map fun s =>
      { s.skip.push .entry with keyAllowed := true }

/-- Handles a question mark that starts a key. -/
def explicitKey (s : Scanner) : Option Scanner :=
  if s.flow = 0 ∧ !s.keyAllowed then none
  else
    (s.rollIndent s.column s.found.length .blockMapping).dropSimple.map fun s =>
      { s.skip.push .key with keyAllowed := s.flow == 0 }

/-- Handles a colon that starts a value. The simple key before it, if there is one, becomes a
key. -/
def valueMark (s : Scanner) : Option Scanner :=
  if s.inReach s.simple then
    let k := s.simple
    let behind := s.found.length - k.number
    let s := { s with
      found := s.found.take behind ++ Token.key :: s.found.drop behind
      simple := { k with possible := false } }
    let s := s.rollIndent k.column k.number .blockMapping
    some { s.skip.push .value with keyAllowed := false }
  else if s.simple.possible && s.simple.required then none
  else if s.flow = 0 ∧ !s.keyAllowed then none
  else
    let s := { s with simple := { s.simple with possible := false } }
    let s := s.rollIndent s.column s.found.length .blockMapping
    some { s.skip.push .value with keyAllowed := s.flow == 0 }

/-- A scalar, an anchor, an alias or a tag: it may be a simple key. -/
def content (s : Scanner) (scan : Scanner → Option Scanner) : Option Scanner := do
  let s ← s.saveSimple
  scan { s with keyAllowed := false }

/-- The characters that cannot start a plain scalar. -/
def indicators : List Char := "-?:,[]\x7b\x7d#&*!|>'\"%@`".toList

/-- Can a plain scalar start here? -/
def startsPlain (flow : Nat) : List Char → Bool
  | [] => false
  | c :: rest =>
    !indicators.contains c || (c == '-' && !rest.head?.all isBlank) ||
      (flow == 0 && (c == '?' || c == ':') && !atGap rest)

/-- Scans one token; the input stands at its first character. -/
def fetch (s : Scanner) : Option Scanner :=
  let s := s.unrollIndent s.column
  let fuel := s.input.length + 2
  match s.input with
  | [] => none
  | c :: rest =>
    if s.column == 0 && c == '%' then s.scanDirective
    else if s.atDocumentMarker then
      (s.unrollIndent (-1)).dropSimple.map fun s =>
        { (s.skipN 3).push (if c == '-' then .documentStart else .documentEnd) with
          keyAllowed := false }
    else if c == '[' then s.openFlow .flowSequence
    else if c == '\x7b' then s.openFlow .flowMapping
    else if c == ']' then s.closeFlow .flowSequenceEnd
    else if c == '\x7d' then s.closeFlow .flowMappingEnd
    else if c == ',' then
      s.dropSimple.map fun s => { s.skip.push .comma with keyAllowed := true }
    else if c == '-' && atGap rest then s.blockEntry
    else if c == '?' && (0 < s.flow || atGap rest) then s.explicitKey
    else if c == ':' && (0 < s.flow || atGap rest) then s.valueMark
    else if c == '*' then s.content fun s => s.skip.scanName .alias
    else if c == '&' then s.content fun s => s.skip.scanName .anchor
    else if c == '!' then s.content fun s => s.skip.scanTag
    else if (c == '|' || c == '>') && s.flow == 0 then
      s.dropSimple.bind fun s => { s with keyAllowed := true }.skip.scanBlock (c == '|')
    else if c == '\'' || c == '"' then s.content fun s => s.skip.scanQuoted c fuel []
    else if startsPlain s.flow s.input then s.content fun s => s.scanPlain fuel {} []
    else none

/-- Ends the stream: every block collection is closed. -/
def finish (s : Scanner) : Option Scanner :=
  ({ s with column := 0, line := s.line + 1 }.unrollIndent (-1)).dropSimple

/-- The tokens that can be used before a fault. -/
def usable (s : Scanner) : List Token :=
  let undecided := (s.simple :: s.simples).filterMap fun k =>
    if s.inReach k then some k.number else none
  s.found.reverse.take (undecided.foldl min (s.found.length - 2))

/-- Scans all tokens. -/
def all : Nat → Scanner → List Token
  | 0, s => s.usable
  | fuel + 1, s =>
    let next := s.toNextToken (s.input.length + 1)
    match if next.input.isEmpty then next.finish else next.fetch with
    | none => s.usable
    | some done =>
      if next.input.isEmpty then (done.push .streamEnd).found.reverse else all fuel done

end Scanner

/-- The tokens of a stream. -/
def scan (input : List Char) : List Token :=
  if input.all isAllowed then Scanner.all (input.length + 2) { input := input } else []

end ViewLint.Yaml
