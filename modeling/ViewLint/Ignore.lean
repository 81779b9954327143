import ViewLint.Regex

/-!
# Ignore rules

The lines of an ignore file, each turned into a regular expression over slash-separated paths below
the root. `*` stays within a segment, `**` crosses segments, a leading slash ties a rule to the
root, a trailing one is kept as written, and a leading `!` takes back what earlier rules ignored. A
`?` stands for itself, and characters that mean something in a regular expression keep that meaning;
a line that makes no expression is dropped. A path is judged on its own: that a directory is ignored
does not make the paths below it so, unless the rule says it.
-/

namespace ViewLint

/-- A rule of an ignore file. -/
structure IgnoreRule where
  pattern : Regex
  /-- Takes back what earlier rules ignored. -/
  negated : Bool

namespace IgnoreRule

/-- Stands for a star while the stars of a line are being replaced. -/
def starMark : Text := Text.ofString "#$~"

/-- Is there a slash, after a byte that is neither slash nor plus, with a `*.` behind it? -/
def hasInnerStar : Text → Bool
  | a :: b :: rest =>
    (a != Text.byte '/' && a != Text.byte '+' && b == Text.byte '/' &&
      Text.includes rest (Text.ofString "*.")) || hasInnerStar (b :: rest)
  | _ => false

/-- Turns dots and stars into expressions. -/
def expandStars (line : Text) : Text :=
  let line := Text.replaceAll (Text.ofString ".") (Text.ofString "\\.") line
  let line := if (Text.ofString "/**/").isPrefixOf line then line.drop 1 else line
  let line := Text.replaceAll (Text.ofString "/**/") (Text.ofString "(/|/.+/)") line
  let line := Text.replaceAll (Text.ofString "**/")
    (Text.ofString "(|." ++ starMark ++ Text.ofString "/)") line
  let line := Text.replaceAll (Text.ofString "/**")
    (Text.ofString "(|/." ++ starMark ++ Text.ofString ")") line
  let line := Text.replaceAll (Text.ofString "\\*") (Text.ofString "\\" ++ starMark) line
  let line := Text.replaceAll (Text.ofString "*") (Text.ofString "([^/]*)") line
  let line := Text.replaceAll (Text.ofString "?") (Text.ofString "\\?") line
  Text.replaceAll starMark (Text.ofString "*") line

/-- Ties an expression to whole segments of a path. -/
def anchored (line : Text) : Text :=
  let tail := if line.getLast? = some (Text.byte '/') then "(|.*)$" else "(|/.*)$"
  let expression := line ++ Text.ofString tail
  if expression.head? = some (Text.byte '/') then
    Text.ofString "^(|/)" ++ expression.drop 1
  else Text.ofString "^(|.*/)" ++ expression

/-- The rule of a line; blank lines, comments and lines that make no expression give none. -/
def ofLine (line : Text) : Option IgnoreRule := do
  let line := Text.trimEnd (· == Text.byte '\r') line
  if line.head? = some (Text.byte '#') then none
  else
    let line := Text.trimBoth (· == Text.byte ' ') line
    if line.isEmpty then none
    else
      let negated := line.head? == some (Text.byte '!')
      let line := if negated then line.drop 1 else line
      let marked := line.head? == some (Text.byte '#') || line.head? == some (Text.byte '!')
      let line := if marked then line.drop 1 else line
      let line := if hasInnerStar line && line.head? != some (Text.byte '/')
        then Text.byte '/' :: line else line
      let pattern ← Regex.parse? (anchored (expandStars line))
      return ⟨pattern, negated⟩

end IgnoreRule

/-- The rules of an ignore file, in order. -/
abbrev IgnoreRules := List IgnoreRule

namespace IgnoreRules

/-- Reads the lines of an ignore file. -/
def ofLines (lines : List Text) : IgnoreRules := lines.filterMap IgnoreRule.ofLine

/-- Is the path ignored? The last rule that matches it decides. -/
def ignores (rules : IgnoreRules) (path : Text) : Bool :=
  rules.foldl (fun ignored rule => if rule.pattern.search path then !rule.negated else ignored)
    false

end IgnoreRules

end ViewLint
