import ViewLint.Patterns
import ViewLint.Text.Utf8

/-!
# Path patterns

Patterns over slash-separated names: `?` is one character and `*` any number of characters, neither
crossing a slash; `[a-c]` and `[!a-c]` are character classes; `{a,b}` are alternatives; a `**` that
fills a segment is any number of segments; a backslash takes the next character literally.

The match is a small machine. A `State` holds the positions reached in the pattern and in the name,
and where to resume after a mismatch: behind the last `*` with one more character of the segment
swallowed, or else behind the last `**/` at the next segment of the name. `step` makes one move; a
brace splits the run into one run for each alternative, with the alternative put in place of the
braces. What is left of a pattern behind the end of the name must match nothing, and what is left
behind a mismatch must at least be well formed.
-/

namespace ViewLint.Glob

/-- The separator of segments. -/
abbrev slash : UInt8 := Text.byte '/'

/-- The escape byte. -/
abbrev backslash : UInt8 := Text.byte '\\'

/-- The byte that opens alternatives. -/
abbrev brace : UInt8 := Text.byte '\x7b'

/-- The byte that closes alternatives. -/
abbrev unbrace : UInt8 := Text.byte '\x7d'

/-! ### Well-formed patterns -/

/-- Where a check of a pattern stands. -/
inductive Check where
  | plain
  | escaped
  /-- Behind the opening bracket of a class; `negated` if a negation sign has been read. -/
  | classStart (negated : Bool)
  | inClass
  | inClassEscaped
  deriving DecidableEq

/-- Is the rest of a pattern well formed, with `depth` braces open? Classes are closed and not
empty, braces are balanced, and no escape stands at the end. -/
def wellFormedFrom : Check → Nat → Text → Bool
  | .plain, depth, [] => depth == 0
  | _, _, [] => false
  | .plain, depth, b :: rest =>
    if b = backslash then wellFormedFrom .escaped depth rest
    else if b = Text.byte '[' then wellFormedFrom (.classStart false) depth rest
    else if b = brace then wellFormedFrom .plain (depth + 1) rest
    else if b = unbrace then
      match depth with
      | 0 => false
      | depth + 1 => wellFormedFrom .plain depth rest
    else wellFormedFrom .plain depth rest
  | .escaped, depth, _ :: rest => wellFormedFrom .plain depth rest
  | .classStart negated, depth, b :: rest =>
    if !negated && (b == Text.byte '^' || b == Text.byte '!') then
      wellFormedFrom (.classStart true) depth rest
    else if b = Text.byte ']' then false
    else if b = backslash then wellFormedFrom .inClassEscaped depth rest
    else wellFormedFrom .inClass depth rest
  | .inClass, depth, b :: rest =>
    if b = backslash then wellFormedFrom .inClassEscaped depth rest
    else if b = Text.byte ']' then wellFormedFrom .plain depth rest
    else wellFormedFrom .inClass depth rest
  | .inClassEscaped, depth, _ :: rest => wellFormedFrom .inClass depth rest

/-- Is the pattern well formed? -/
def wellFormed (pattern : Text) : Bool := wellFormedFrom .plain 0 pattern

/-! ### Alternatives -/

/-- Cuts the text behind an opening brace at the commas of its own level and at its closing brace:
the alternatives, and what follows the brace. `depth` counts the braces open inside. -/
def alternativesFrom : Bool → Nat → Text → Option (List Text × Text)
  | _, _, [] => none
  | true, depth, b :: rest => prepend b (alternativesFrom false depth rest)
  | false, depth, b :: rest =>
    if b = backslash then prepend b (alternativesFrom true depth rest)
    else if b = brace then prepend b (alternativesFrom false (depth + 1) rest)
    else if b = unbrace then
      match depth with
      | 0 => some ([[]], rest)
      | depth + 1 => prepend b (alternativesFrom false depth rest)
    else if b = Text.byte ',' ∧ depth = 0 then
      (alternativesFrom false depth rest).map fun cut => ([] :: cut.1, cut.2)
    else prepend b (alternativesFrom false depth rest)
where
  /-- Puts a byte in front of the first alternative. -/
  prepend (b : UInt8) (cut : Option (List Text × Text)) : Option (List Text × Text) :=
    cut.map fun c => match c.1 with
      | [] => ([[b]], c.2)
      | first :: more => ((b :: first) :: more, c.2)

/-- The alternatives behind an opening brace, and what follows the closing one. -/
def alternatives? (behind : Text) : Option (List Text × Text) := alternativesFrom false 0 behind

/-! ### Character classes -/

/-- What a look at a character class gives. -/
inductive ClassResult where
  /-- The class has no end, or is empty. -/
  | bad
  /-- The character is not in the class; `rest` is where the look stopped in the pattern. -/
  | misses (rest : Text)
  /-- The character is in the class; `rest` is what follows the class. -/
  | hits (rest : Text)
  deriving DecidableEq

/-- What follows the next unescaped closing bracket. -/
def behindClass : Bool → Text → Option Text
  | _, [] => none
  | true, _ :: rest => behindClass false rest
  | false, b :: rest =>
    if b = backslash then behindClass true rest
    else if b = Text.byte ']' then some rest
    else behindClass false rest

/-- Looks for a character among the items of a class, up to the closing bracket. `last` is the
previous single character, which a hyphen turns into the start of a range. The answer is whether the
character was found and where the look stopped. -/
def scanClass (code : Nat) : Nat → Option Nat → Text → Bool × Text
  | 0, _, rest => (false, rest)
  | _ + 1, _, [] => (false, [])
  | fuel + 1, last, b :: rest =>
    if b = Text.byte ']' then (false, b :: rest)
    else
      let r := Text.runeAt b rest
      let after := (b :: rest).drop r.width
      let isRange := r.code == 45 && after.head?.any (· != Text.byte ']')
      match last, isRange with
      | some lo, true =>
        let after := if after.head? = some backslash then after.drop 1 else after
        let hi := Text.firstRune after
        let after := after.drop hi.width
        if lo ≤ code ∧ code ≤ hi.code then (true, after) else scanClass code fuel none after
      | _, _ =>
        let escaped := r.code == 0x5C
        let item := if escaped then Text.firstRune after else r
        let after := if escaped then after.drop item.width else after
        if item.code = code then (true, after) else scanClass code fuel (some item.code) after

/-- Looks for a character in the class whose opening bracket has been read. -/
def matchClass (code : Nat) (behind : Text) : ClassResult :=
  let negated := behind.head? == some (Text.byte '!') || behind.head? == some (Text.byte '^')
  let items := if negated then behind.drop 1 else behind
  if items.isEmpty ∨ items.head? = some (Text.byte ']') then .bad
  else
    let (found, rest) := scanClass code items.length none items
    if found = negated then if rest.isEmpty then .bad else .misses rest
    else match behindClass false rest with
      | none => .bad
      | some after => .hits after

/-! ### What matches nothing -/

/-- The patterns that match the empty rest of a name: a star, a `**`, and a `**` with slashes around
it, since a directory name stands for what is below it. -/
def matchesNothing : List Text :=
  ["", "*", "**", "/**", "**/", "/**/"].map Text.ofString

/-- Can a pattern match the empty rest of a name? `none` if the pattern turns out to be malformed.
The fuel bounds the braces that are opened one after the other. -/
def emptyMatch : Nat → Text → Option Bool
  | 0, _ => some false
  | fuel + 1, pattern =>
    if matchesNothing.contains pattern then some true
    else match pattern with
      | [] => some true
      | b :: behind =>
        if b = brace then
          match alternatives? behind with
          | none => none
          | some (choices, after) => firstTrue (choices.map fun c => emptyMatch fuel (c ++ after))
        else if wellFormed (b :: behind) then some false else none
where
  /-- The first answer that is true or malformed, and false if there is none. -/
  firstTrue : List (Option Bool) → Option Bool
    | [] => some false
    | none :: _ => none
    | some true :: _ => some true
    | some false :: rest => firstTrue rest

/-! ### The machine -/

/-- A pair of positions, in the pattern and in the name. -/
structure Cursor where
  pattern : Nat
  name : Nat
  deriving DecidableEq

/-- Where a match stands. -/
structure State where
  cursor : Cursor
  /-- Is the pattern at the start of a segment? -/
  fresh : Bool
  /-- Behind the last `*`. -/
  star : Option Cursor
  /-- Behind the last `**/`. -/
  deep : Option Cursor
  deriving DecidableEq

/-- What a move leads to. -/
inductive Move where
  | goOn (s : State)
  | done (matched : Bool)
  | malformed
  /-- The pattern continues, from the position of the brace on, with one of these. -/
  | choose (s : State) (rests : List Text)

/-- The position behind the next slash of a name, counted from `offset`. -/
def nextSegment (offset : Nat) (name : Text) : Option Nat :=
  ((name.drop offset).findIdx? (· == slash)).map fun n => offset + n + 1

/-- Resumes at the last `**/`, at the next segment of the name; without one the match has failed,
and what is left of the pattern must be well formed. -/
def resumeDeep (pattern name : Text) (stuck : Nat) (s : State) : Move :=
  match s.deep.bind fun d => (nextSegment d.name name).map fun n => (d.pattern, n) with
  | some (p, n) => .goOn ⟨⟨p, n⟩, true, none, some ⟨p, n⟩⟩
  | none => if wellFormed (pattern.drop stuck) then .done false else .malformed

/-- Resumes after a mismatch at `stuck`: behind the last `*` if it can swallow another character,
otherwise at the last `**/`. -/
def resume (pattern name : Text) (stuck : Nat) (s : State) : Move :=
  match s.star with
  | none => resumeDeep pattern name stuck s
  | some star =>
    let r := Text.firstRune (name.drop star.name)
    if r.code = 47 then resumeDeep pattern name stuck s
    else
      let next := ⟨star.pattern, star.name + r.width⟩
      .goOn ⟨next, false, some next, s.deep⟩

/-- Compares one literal character, which stands at `offset` in the pattern. -/
def stepLiteral (pattern name : Text) (offset : Nat) (s : State) : Move :=
  let p := Text.firstRune (pattern.drop offset)
  let n := Text.firstRune (name.drop s.cursor.name)
  if p.code = n.code then
    .goOn { s with cursor := ⟨offset + p.width, s.cursor.name + n.width⟩, fresh := p.code == 47 }
  else
    let escaped := 0 < offset && pattern[offset - 1]? == some backslash
    resume pattern name (if escaped then offset - 1 else offset) s

/-- One move of the match, before the end of the name. -/
def step (pattern name : Text) (s : State) : Move :=
  let p := s.cursor.pattern
  let n := s.cursor.name
  match pattern.drop p with
  | [] => resume pattern name p s
  | b :: behind =>
    if b = Text.byte '*' then
      if behind.head? = some (Text.byte '*') ∧ s.fresh ∧ behind.length = 1 then .done true
      else if behind.head? = some (Text.byte '*') ∧ s.fresh ∧ behind[1]? = some slash then
        .goOn ⟨⟨p + 3, n⟩, true, none, some ⟨p + 3, n⟩⟩
      else
        let next := if behind.head? = some (Text.byte '*') then p + 2 else p + 1
        .goOn ⟨⟨next, n⟩, false, some ⟨next, n⟩, s.deep⟩
    else if b = Text.byte '?' then
      let r := Text.firstRune (name.drop n)
      if r.code = 47 then resume pattern name p s
      else .goOn { s with cursor := ⟨p + 1, n + r.width⟩, fresh := false }
    else if b = Text.byte '[' then
      let r := Text.firstRune (name.drop n)
      match matchClass r.code behind with
      | .bad => .malformed
      | .misses rest => resume pattern name (pattern.length - rest.length) s
      | .hits rest =>
        .goOn { s with cursor := ⟨pattern.length - rest.length, n + r.width⟩, fresh := false }
    else if b = brace then
      match alternatives? behind with
      | none => .malformed
      | some (choices, after) => .choose s (choices.map (· ++ after))
    else if b = backslash then
      if behind.isEmpty then .malformed else stepLiteral pattern name (p + 1) s
    else stepLiteral pattern name p s

/-- Runs the machine between two braces; `choose` answers for the alternatives. -/
def runWith (name : Text) (choose : Text → State → List Text → Option Bool) :
    Nat → Text → State → Option Bool
  | 0, _, _ => some false
  | fuel + 1, pattern, s =>
    if name.length ≤ s.cursor.name then
      emptyMatch (pattern.length + 1) (pattern.drop s.cursor.pattern)
    else match step pattern name s with
      | .goOn next => runWith name choose fuel pattern next
      | .done matched => some matched
      | .malformed => none
      | .choose reached rests => choose pattern reached rests

/-- A bound on the moves of a match: the positions behind the last `**/` and behind the last `*`
only grow, one after the other, and between two resumptions the pattern is read once. -/
def moves (pattern name : Text) : Nat :=
  let cursors := (pattern.length + 1) * (name.length + 1)
  cursors * cursors * (pattern.length + 2)

/-- Runs the machine. Each alternative is tried in turn until one matches or turns out to be
malformed; the positions reached so far stay valid, because the pattern before the brace is the
same. The fuel bounds the braces opened one after the other. -/
def run (name : Text) : Nat → Text → State → Option Bool
  | 0, _, _ => some false
  | braces + 1, pattern, s =>
    runWith name (fun pattern s rests =>
      emptyMatch.firstTrue (rests.map fun rest =>
        run name braces (pattern.take s.cursor.pattern ++ rest) { s with fresh := true }))
      (moves pattern name) pattern s

/-- Matches a whole name. The answer is `none` if the pattern turns out to be malformed. -/
def matches? (pattern name : Text) : Option Bool :=
  run name (pattern.length + 1) pattern ⟨⟨0, 0⟩, true, none, none⟩

/-- This matcher. -/
def patterns : Patterns := ⟨wellFormed, matches?⟩

end ViewLint.Glob
