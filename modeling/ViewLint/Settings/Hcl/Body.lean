import ViewLint.Settings.Hcl.Expr

/-!
# Reading HCL

A file is a list of attributes and blocks, one a line. The reader works on characters, because what
a character means depends on where it stands: between quotes, in a heredoc, or in an expression.
Line ends are significant in bodies and in objects; inside parentheses, brackets and interpolations
they are blanks, which the flag `lines` of every function says.

* `expr?` reads an expression, `body?` a whole file;
* a template is read as a list of `Piece`s, which `assemble?` puts together.

All readers give `none` for a text that breaks the grammar. They recurse on fuel, of which `body?`
has more than any text can use.
-/

namespace ViewLint.Hcl

/-! ### Blanks and names -/

/-- Is the input at the end of a line? -/
def atLineEnd : List Char → Bool
  | '\n' :: _ => true
  | '\r' :: '\n' :: _ => true
  | _ => false

/-- What follows the end of a block comment. -/
def afterComment? : List Char → Option (List Char)
  | [] => none
  | '*' :: '/' :: rest => some rest
  | _ :: rest => afterComment? rest

/-- Passes over blanks and comments, and over line ends unless they are significant. -/
def skipFrom (lines : Bool) : Nat → List Char → List Char
  | 0, cs => cs
  | fuel + 1, cs =>
    match cs with
    | ' ' :: rest => skipFrom lines fuel rest
    | '\t' :: rest => skipFrom lines fuel rest
    | '#' :: rest => skipFrom lines fuel (rest.dropWhile (· != '\n'))
    | '/' :: '/' :: rest => skipFrom lines fuel (rest.dropWhile (· != '\n'))
    | '/' :: '*' :: rest =>
      match afterComment? rest with
      | some after => skipFrom lines fuel after
      | none => cs
    | '\n' :: rest => if lines then cs else skipFrom lines fuel rest
    | '\r' :: '\n' :: rest => if lines then cs else skipFrom lines fuel rest
    | _ => cs

/-- Passes over blanks and comments, and over line ends unless they are significant. -/
def skip (lines : Bool) (cs : List Char) : List Char := skipFrom lines (cs.length + 1) cs

/-- The letters beyond ASCII, by blocks. -/
def isForeignLetter (c : Char) : Bool :=
  let n := c.toNat
  n == 0xAA || n == 0xB5 || n == 0xBA || (0xC0 ≤ n && n ≤ 0x2C1 && n != 0xD7 && n != 0xF7) ||
    (0x370 ≤ n && n ≤ 0x1FFF) || (0x2C00 ≤ n && n ≤ 0x2DFF) || (0x3041 ≤ n && n ≤ 0x318E) ||
    (0x3400 ≤ n && n ≤ 0x9FFF) || (0xA000 ≤ n && n ≤ 0xD7FB) || (0xF900 ≤ n && n ≤ 0xFDFB) ||
    (0x10000 ≤ n && n ≤ 0x1EFFF) || (0x20000 ≤ n && n ≤ 0x3FFFF)

/-- Can a name start with this character? -/
def startsName (c : Char) : Bool := c.isAlpha || c == '_' || isForeignLetter c

/-- Can a name go on with this character? -/
def continuesName (c : Char) : Bool := startsName c || c.isDigit || c == '-'

/-- A name at the start of the input, and the rest. -/
def name? : List Char → Option (List Char × List Char)
  | [] => none
  | c :: rest =>
    if startsName c then
      let more := rest.takeWhile continuesName
      some (c :: more, rest.drop more.length)
    else none

/-- Passes over a given name. -/
def word? (lines : Bool) (word : String) (cs : List Char) : Option (List Char) :=
  match name? (skip lines cs) with
  | some (found, rest) => if found = word.toList then some rest else none
  | none => none

/-- Passes over a given mark. -/
def mark? (lines : Bool) (mark : String) (cs : List Char) : Option (List Char) :=
  let cs := skip lines cs
  if mark.toList.isPrefixOf cs then some (cs.drop mark.length) else none

/-- Is the input at an equals sign that is no comparison? -/
def atEquals : List Char → Bool
  | '=' :: rest => rest.head? != some '='
  | _ => false

/-! ### Numbers and escapes -/

/-- A number at the start of the input, and the rest. -/
def number? (cs : List Char) : Option (Number × List Char) :=
  let whole := cs.takeWhile Char.isDigit
  let rest := cs.drop whole.length
  let fraction := match rest with
    | '.' :: more =>
      let digits := more.takeWhile Char.isDigit
      if digits.isEmpty then [] else '.' :: digits
    | _ => []
  let rest := rest.drop fraction.length
  let exponent := match rest with
    | e :: more =>
      let sign := more.takeWhile fun c => c == '+' || c == '-'
      let digits := (more.drop sign.length).takeWhile Char.isDigit
      if (e == 'e' || e == 'E') && sign.length ≤ 1 && !digits.isEmpty then e :: sign ++ digits
      else []
    | [] => []
  let written := whole ++ fraction ++ exponent
  if whole.isEmpty then none
  else (Decimal.ofText? (Settings.textOf written)).map fun x =>
    (Number.ofDecimal x, cs.drop written.length)

/-- The value of a hexadecimal digit. -/
def hexDigit? (c : Char) : Option Nat :=
  if c.isDigit then some (c.toNat - 48)
  else if 'a' ≤ c ∧ c ≤ 'f' then some (c.toNat - 87)
  else if 'A' ≤ c ∧ c ≤ 'F' then some (c.toNat - 55)
  else none

/-- The character of `n` hexadecimal digits, and the rest. -/
def hexChar? (n : Nat) (cs : List Char) : Option (Char × List Char) := do
  if cs.length < n then none
  else
    let digits ← (cs.take n).mapM hexDigit?
    let code := digits.foldl (fun v d => v * 16 + d) 0
    return (if code.isValidChar then Char.ofNat code else Char.ofNat 0xFFFD, cs.drop n)

/-- The character of an escape, read behind the backslash, and the rest. -/
def escape? : List Char → Option (Char × List Char)
  | 'n' :: rest => some ('\n', rest)
  | 'r' :: rest => some ('\r', rest)
  | 't' :: rest => some ('\t', rest)
  | '"' :: rest => some ('"', rest)
  | '\\' :: rest => some ('\\', rest)
  | 'u' :: rest => hexChar? 4 rest
  | 'U' :: rest => hexChar? 8 rest
  | _ => none

/-! ### Operators -/

/-- The operator at the start of the input, its level from weak to strong, and the rest. -/
def operator? : List Char → Option (Operator × Nat × List Char)
  | '|' :: '|' :: rest => some (.or, 0, rest)
  | '&' :: '&' :: rest => some (.and, 1, rest)
  | '=' :: '=' :: rest => some (.equal, 2, rest)
  | '!' :: '=' :: rest => some (.notEqual, 2, rest)
  | '>' :: '=' :: rest => some (.greaterEqual, 3, rest)
  | '<' :: '=' :: rest => some (.lessEqual, 3, rest)
  | '>' :: rest => some (.greater, 3, rest)
  | '<' :: rest => some (.less, 3, rest)
  | '+' :: rest => some (.add, 4, rest)
  | '-' :: rest => some (.sub, 4, rest)
  | '*' :: rest => some (.mul, 5, rest)
  | '/' :: rest => some (.div, 5, rest)
  | '%' :: rest => some (.mod, 5, rest)
  | _ => none

/-! ### Templates -/

/-- What a piece of a template is. -/
inductive PieceKind where
  | literal (content : List Char)
  | value (e : Expr)
  | ifMark (condition : Expr)
  | elseMark
  | endIf
  | forMark (key value : List Char) (source : Expr)
  | endFor

/-- A piece of a template. The flags ask for the white space before and behind it to be dropped. -/
structure Piece where
  kind : PieceKind
  trimBefore : Bool := false
  trimBehind : Bool := false

/-- A literal piece, if there is anything in it; the characters are given last first. -/
def literalPiece (reversed : List Char) : List Piece :=
  if reversed.isEmpty then [] else [{ kind := .literal reversed.reverse }]

/-- White space that a template drops. -/
def isSpace (c : Char) : Bool := Text.isUnicodeSpace c.toNat

/-- Drops the white space that the neighbours of literals ask for. `before` says that the last piece
asks for it. -/
def trimPieces (before : Bool) : List Piece → List Piece
  | [] => []
  | p :: rest =>
    match p.kind with
    | .literal s =>
      let s := if before then s.dropWhile isSpace else s
      let s := if rest.head?.any (·.trimBefore) then (s.reverse.dropWhile isSpace).reverse else s
      { p with kind := .literal s } :: trimPieces false rest
    | _ => p :: trimPieces p.trimBehind rest

/-- The least indentation of the lines of a heredoc; blank lines do not count. `start` says that the
next piece starts a line. -/
def leastIndent (start : Bool) : List Piece → Option Nat
  | [] => none
  | p :: rest =>
    match p.kind with
    | .literal s =>
      let after := leastIndent (s.getLast? == some '\n') rest
      if !start || (s.all isSpace && s.getLast? == some '\n') then after
      else
        let here := (s.takeWhile isSpace).length
        some ((after.map (min here)).getD here)
    | _ => if start then some 0 else leastIndent false rest

/-- Drops an indentation from the lines of a heredoc. -/
def dropIndent (n : Nat) (start : Bool) : List Piece → List Piece
  | [] => []
  | p :: rest =>
    match p.kind with
    | .literal s =>
      let blank := s.all isSpace && s.getLast? == some '\n'
      let kept := if start && !blank then s.drop n else s
      { p with kind := .literal kept } :: dropIndent n (s.getLast? == some '\n') rest
    | _ => p :: dropIndent n false rest

/-- Puts the pieces up to the end of a branch together; the pieces from the end on are returned. -/
def assembleBranch? : Nat → List Piece → Option (List Expr × List Piece)
  | 0, _ => none
  | _ + 1, [] => some ([], [])
  | fuel + 1, p :: rest =>
    match p.kind with
    | .elseMark | .endIf | .endFor => some ([], p :: rest)
    | .literal s => do
      let (tail, rest) ← assembleBranch? fuel rest
      return (.literal (.string s) :: tail, rest)
    | .value e => do
      let (tail, rest) ← assembleBranch? fuel rest
      return (e :: tail, rest)
    | .ifMark condition => do
      let (yes, rest) ← assembleBranch? fuel rest
      let (no, rest) ← match rest with
        | ⟨.elseMark, _, _⟩ :: rest => assembleBranch? fuel rest
        | rest => some ([], rest)
      match rest with
      | ⟨.endIf, _, _⟩ :: rest =>
        let (tail, rest) ← assembleBranch? fuel rest
        return (.choice condition (.template yes) (.template no) :: tail, rest)
      | _ => none
    | .forMark key value source => do
      let (body, rest) ← assembleBranch? fuel rest
      match rest with
      | ⟨.endFor, _, _⟩ :: rest =>
        let (tail, rest) ← assembleBranch? fuel rest
        let always : Expr := .literal (.bool true)
        return (.joined (.forTuple key value source (.template body) always) :: tail, rest)
      | _ => none

/-- The expression of a template. A single interpolation keeps the type of its value. -/
def assemble? (flush : Bool) (pieces : List Piece) : Option Expr :=
  match pieces with
  | [⟨.value e, _, _⟩] => some e
  | _ =>
    let pieces := trimPieces false pieces
    let pieces :=
      if flush then dropIndent ((leastIndent true pieces).getD 0) true pieces else pieces
    match assembleBranch? (2 * pieces.length + 2) pieces with
    | some (parts, []) => some (.template parts)
    | _ => none

/-! ### Expressions -/

/-- What follows the name of a function, of which a first part has been read; further parts stand
behind double colons. -/
def behindName? : Nat → Bool → List Char → Option (List Char)
  | 0, _, _ => none
  | fuel + 1, lines, cs =>
    match mark? lines "::" cs with
    | none => some cs
    | some rest => (name? (skip lines rest)).bind fun (_, rest) => behindName? fuel lines rest

/-- Marks the end of a template. -/
inductive Closing where
  | quote
  | heredoc (marker : List Char)

mutual

/-- An expression. -/
def expr? : Nat → Bool → List Char → Option (Expr × List Char)
  | 0, _, _ => none
  | fuel + 1, lines, cs => do
    let (condition, rest) ← binary? fuel lines 0 cs
    match mark? lines "?" rest with
    | none => return (condition, rest)
    | some rest =>
      let (yes, rest) ← expr? fuel lines rest
      let rest ← mark? lines ":" rest
      let (no, rest) ← expr? fuel lines rest
      return (.choice condition yes no, rest)

/-- Operands joined by operators of a level or of a stronger one. -/
def binary? : Nat → Bool → Nat → List Char → Option (Expr × List Char)
  | 0, _, _, _ => none
  | fuel + 1, lines, level, cs =>
    if 5 < level then primary? fuel lines cs
    else do
      let (first, rest) ← binary? fuel lines (level + 1) cs
      operands? fuel lines level first rest

/-- Further operands of a level, behind a first one. -/
def operands? : Nat → Bool → Nat → Expr → List Char → Option (Expr × List Char)
  | 0, _, _, _, _ => none
  | fuel + 1, lines, level, first, cs =>
    match operator? (skip lines cs) with
    | some (op, found, rest) =>
      if found = level then do
        let (second, rest) ← binary? fuel lines (level + 1) rest
        operands? fuel lines level (.binary op first second) rest
      else some (first, cs)
    | none => some (first, cs)

/-- A term and the parts taken of it. -/
def primary? : Nat → Bool → List Char → Option (Expr × List Char)
  | 0, _, _ => none
  | fuel + 1, lines, cs => do
    let (e, rest) ← term? fuel lines (skip lines cs)
    parts? fuel lines true e rest

/-- The parts taken of an expression. With `indexed` unset only members are taken. -/
def parts? : Nat → Bool → Bool → Expr → List Char → Option (Expr × List Char)
  | 0, _, _, _, _ => none
  | fuel + 1, lines, indexed, e, cs =>
    match skip lines cs with
    | '.' :: '.' :: _ => some (e, cs)
    | '.' :: rest =>
      let rest := skip lines rest
      match name? rest with
      | some (member, rest) => parts? fuel lines indexed (.attr e member) rest
      | none =>
        let digits := rest.takeWhile Char.isDigit
        if !digits.isEmpty then
          let key := Value.ofNat (Text.digitsFrom 0 (Settings.textOf digits))
          parts? fuel lines indexed (.index e (.literal key)) (rest.drop digits.length)
        else if rest.head? = some '*' then do
          let (body, rest) ← parts? fuel lines false .item (rest.drop 1)
          parts? fuel lines indexed (.splat e body) rest
        else none
    | '[' :: rest =>
      if !indexed then some (e, cs)
      else match (mark? false "*" rest).bind (mark? false "]") with
        | some rest => do
          let (body, rest) ← parts? fuel lines true .item rest
          parts? fuel lines indexed (.splat e body) rest
        | none => do
          let (key, rest) ← expr? fuel false rest
          parts? fuel lines indexed (.index e key) (← mark? false "]" rest)
    | _ => some (e, cs)

/-- A term; the input stands at its first character. -/
def term? : Nat → Bool → List Char → Option (Expr × List Char)
  | 0, _, _ => none
  | fuel + 1, lines, cs =>
    match cs with
    | [] => none
    | '(' :: rest => do
      let (e, rest) ← expr? fuel false rest
      return (e, ← mark? false ")" rest)
    | '-' :: rest => (primary? fuel lines rest).map fun (e, rest) => (.negate e, rest)
    | '!' :: rest => (primary? fuel lines rest).map fun (e, rest) => (.not e, rest)
    | '"' :: rest => do
      let (pieces, rest) ← quoted? fuel [] rest
      return (← assemble? false pieces, rest)
    | '<' :: '<' :: rest =>
      let flush := rest.head? = some '-'
      match name? (if flush then rest.drop 1 else rest) with
      | none => none
      | some (marker, rest) =>
        if atLineEnd rest then do
          let (pieces, rest) ← heredoc? fuel marker true [] ((rest.dropWhile (· != '\n')).drop 1)
          return (← assemble? flush pieces, rest)
        else none
    | '[' :: rest =>
      match word? false "for" rest with
      | some rest => loop? fuel false rest
      | none => (items? fuel "]" rest).map fun (items, rest) => (.tuple items, rest)
    | '\x7b' :: rest =>
      match word? false "for" rest with
      | some rest => loop? fuel true rest
      | none => (members? fuel rest).map fun (members, rest) => (.object members, rest)
    | c :: rest =>
      match name? (c :: rest) with
      | some (n, rest) => do
        let behind ← behindName? fuel lines rest
        match mark? lines "(" behind with
        | some rest => (items? fuel ")" rest).map fun (_, rest) => (.call, rest)
        | none =>
          if behind.length < rest.length then none
          else if n = "true".toList then some (.literal (.bool true), rest)
          else if n = "false".toList then some (.literal (.bool false), rest)
          else if n = "null".toList then some (.literal .null, rest)
          else some (.reference n, rest)
      | none => (number? (c :: rest)).map fun (x, rest) => (.literal (.number x), rest)

/-- Expressions with commas between them, up to a closing mark. -/
def items? : Nat → String → List Char → Option (List Expr × List Char)
  | 0, _, _ => none
  | fuel + 1, close, cs =>
    match mark? false close cs with
    | some rest => some ([], rest)
    | none => do
      let (e, rest) ← expr? fuel false cs
      match mark? false "," rest with
      | some rest =>
        let (tail, rest) ← items? fuel close rest
        return (e :: tail, rest)
      | none =>
        let rest := if close = ")" then (mark? false "..." rest).getD rest else rest
        return ([e], ← mark? false close rest)

/-- The members of an object, up to its closing brace. -/
def members? : Nat → List Char → Option (List (Expr × Expr) × List Char)
  | 0, _ => none
  | fuel + 1, cs =>
    let cs := skip false cs
    match cs with
    | '\x7d' :: rest => some ([], rest)
    | _ => do
      let bare : Option (Expr × List Char) :=
        (name? cs).bind fun (n, rest) =>
          let rest := skip true rest
          if atEquals rest || rest.head? == some ':' then some (.literal (.string n), rest)
          else none
      let (key, rest) ← match bare with
        | some found => some found
        | none => expr? fuel true cs
      let rest := skip true rest
      if atEquals rest || rest.head? == some ':' then
        let (e, rest) ← expr? fuel true (rest.drop 1)
        match skip true rest with
        | '\x7d' :: rest => return ([(key, e)], rest)
        | rest =>
          if rest.head? = some ',' || atLineEnd rest then
            let (tail, rest) ← members? fuel (if rest.head? = some ',' then rest.drop 1 else rest)
            return ((key, e) :: tail, rest)
          else none
      else none

/-- A loop behind its first word. -/
def loop? : Nat → Bool → List Char → Option (Expr × List Char)
  | 0, _, _ => none
  | fuel + 1, isObject, cs => do
    let (key, value, source, rest) ← loopHead? fuel cs
    let rest ← mark? false ":" rest
    let (first, rest) ← expr? fuel false rest
    let (second, grouped, rest) ←
      if isObject then do
        let rest ← mark? false "=>" rest
        let (second, rest) ← expr? fuel false rest
        match mark? false "..." rest with
        | some rest => some (second, true, rest)
        | none => some (second, false, rest)
      else some (first, false, rest)
    let (condition, rest) ← match word? false "if" rest with
      | some rest => expr? fuel false rest
      | none => some (.literal (.bool true), rest)
    let rest ← mark? false (if isObject then "\x7d" else "]") rest
    return (if isObject then .forObject key value source first second condition grouped
      else .forTuple key value source first condition, rest)

/-- The names of a loop and what it goes over. A loop with one name has no name for the key. -/
def loopHead? : Nat → List Char → Option (List Char × List Char × Expr × List Char)
  | 0, _ => none
  | fuel + 1, cs => do
    let (first, rest) ← name? (skip false cs)
    let (key, value, rest) ← match mark? false "," rest with
      | some rest => (name? (skip false rest)).map fun (second, rest) => (first, second, rest)
      | none => some ([' '], first, rest)
    let rest ← word? false "in" rest
    let (source, rest) ← expr? fuel false rest
    return (key, value, source, rest)

/-- The pieces of a quoted template up to its closing quote; `text` holds the literal characters
before the input, last first. -/
def quoted? : Nat → List Char → List Char → Option (List Piece × List Char)
  | 0, _, _ => none
  | fuel + 1, text, cs =>
    match cs with
    | [] => none
    | '\n' :: _ => none
    | '"' :: rest => some (literalPiece text, rest)
    | '\\' :: rest => do
      let (c, rest) ← escape? rest
      quoted? fuel (c :: text) rest
    | '$' :: '$' :: '\x7b' :: rest => quoted? fuel ('\x7b' :: '$' :: text) rest
    | '%' :: '%' :: '\x7b' :: rest => quoted? fuel ('\x7b' :: '%' :: text) rest
    | '$' :: '\x7b' :: rest => do
      let (p, rest) ← interpolation? fuel rest
      let (tail, rest) ← quoted? fuel [] rest
      return (literalPiece text ++ p :: tail, rest)
    | '%' :: '\x7b' :: rest => do
      let (p, rest) ← directive? fuel rest
      let (tail, rest) ← quoted? fuel [] rest
      return (literalPiece text ++ p :: tail, rest)
    | c :: rest => quoted? fuel (c :: text) rest

/-- The pieces of a heredoc up to the line of its marker; every line ends a literal piece. -/
def heredoc? : Nat → List Char → Bool → List Char → List Char → Option (List Piece × List Char)
  | 0, _, _, _, _ => none
  | fuel + 1, marker, start, text, cs =>
    let line := cs.takeWhile (· != '\n')
    let isMarker := start && ((line.dropWhile isSpace).reverse.dropWhile isSpace).reverse == marker
    if isMarker && line.length < cs.length then some ([], cs.drop line.length)
    else match cs with
      | [] => none
      | '\n' :: rest => do
        let (tail, rest) ← heredoc? fuel marker true [] rest
        return (literalPiece ('\n' :: text) ++ tail, rest)
      | '$' :: '$' :: '\x7b' :: rest => heredoc? fuel marker false ('\x7b' :: '$' :: text) rest
      | '%' :: '%' :: '\x7b' :: rest => heredoc? fuel marker false ('\x7b' :: '%' :: text) rest
      | '$' :: '\x7b' :: rest => do
        let (p, rest) ← interpolation? fuel rest
        let (tail, rest) ← heredoc? fuel marker false [] rest
        return (literalPiece text ++ p :: tail, rest)
      | '%' :: '\x7b' :: rest => do
        let (p, rest) ← directive? fuel rest
        let (tail, rest) ← heredoc? fuel marker false [] rest
        return (literalPiece text ++ p :: tail, rest)
      | c :: rest => heredoc? fuel marker false (c :: text) rest

/-- An interpolation behind its opening brace. -/
def interpolation? : Nat → List Char → Option (Piece × List Char)
  | 0, _ => none
  | fuel + 1, cs => do
    let before := cs.head? = some '~'
    let (e, rest) ← expr? fuel false (if before then cs.drop 1 else cs)
    let (behind, rest) ← closePiece? rest
    return (⟨.value e, before, behind⟩, rest)

/-- A directive behind its opening brace. -/
def directive? : Nat → List Char → Option (Piece × List Char)
  | 0, _ => none
  | fuel + 1, cs => do
    let before := cs.head? = some '~'
    let (word, rest) ← name? (skip false (if before then cs.drop 1 else cs))
    let (kind, rest) ← match String.ofList word with
      | "if" => (expr? fuel false rest).map fun (e, rest) => (PieceKind.ifMark e, rest)
      | "else" => some (.elseMark, rest)
      | "endif" => some (.endIf, rest)
      | "for" => (loopHead? fuel rest).map fun (k, v, e, rest) => (.forMark k v e, rest)
      | "endfor" => some (.endFor, rest)
      | _ => none
    let (behind, rest) ← closePiece? rest
    return (⟨kind, before, behind⟩, rest)

/-- The closing brace of an interpolation or a directive, and whether it asks for white space to be
dropped. -/
def closePiece? (cs : List Char) : Option (Bool × List Char) :=
  match skip false cs with
  | '~' :: '\x7d' :: rest => some (true, rest)
  | '\x7d' :: rest => some (false, rest)
  | _ => none

end

/-! ### Bodies -/

/-- An entry of a body. No setting is a block, so nothing of a block is kept. -/
inductive BodyEntry where
  | attribute (name : List Char) (e : Expr)
  | block

/-- Is the input at the end of a line, or at its own end? -/
def endsEntry (cs : List Char) : Bool := cs.isEmpty || atLineEnd cs

/-- Passes over the labels of a block and its opening brace. -/
def labels? : Nat → List Char → Option (List Char)
  | 0, _ => none
  | fuel + 1, cs =>
    match skip true cs with
    | '\x7b' :: rest => some rest
    | '"' :: rest =>
      match quoted? (20 * rest.length + 20) [] rest with
      | some ([⟨.literal _, _, _⟩], rest) => labels? fuel rest
      | some ([], rest) => labels? fuel rest
      | _ => none
    | rest => (name? rest).bind fun (_, rest) => labels? fuel rest

/-- An attribute's expression behind its equals sign. -/
def attribute? (cs : List Char) : Option (Expr × List Char) := expr? (20 * cs.length + 20) true cs

/-- Do all attributes have different names? -/
def distinctNames (entries : List BodyEntry) : Bool :=
  let names := entries.filterMap fun
    | .attribute name _ => some name
    | .block => none
  names.eraseDups.length == names.length

/-- The entries of a body. A body that is nested ends with a brace, else with the input. -/
def entries? : Nat → Bool → List Char → Option (List BodyEntry × List Char)
  | 0, _, _ => none
  | fuel + 1, nested, cs =>
    match skip false cs with
    | [] => if nested then none else some ([], [])
    | '\x7d' :: rest => if nested then some ([], rest) else none
    | cs => do
      let (name, rest) ← name? cs
      let after := skip true rest
      let (entry, rest) ←
        if atEquals after then
          (attribute? (after.drop 1)).map fun (e, rest) => (BodyEntry.attribute name e, rest)
        else do
          let inside ← labels? (after.length + 1) after
          let first := skip true inside
          let rest ←
            if endsEntry first || first.head? == some '\x7d' then do
              let (entries, rest) ← entries? fuel true inside
              if distinctNames entries then some rest else none
            else do
              let (_, rest) ← name? first
              let rest := skip true rest
              if atEquals rest then
                let (_, rest) ← attribute? (rest.drop 1)
                mark? true "\x7d" rest
              else none
          some (.block, rest)
      if endsEntry (skip true rest) then
        let (tail, rest) ← entries? fuel nested rest
        return (entry :: tail, rest)
      else none

/-- The entries of a file. A byte order mark at its start is passed over. -/
def body? (cs : List Char) : Option (List BodyEntry) := do
  let cs := if cs.head? = some (Char.ofNat 0xFEFF) then cs.drop 1 else cs
  let (entries, _) ← entries? (cs.length + 2) false cs
  if distinctNames entries then some entries else none

end ViewLint.Hcl
