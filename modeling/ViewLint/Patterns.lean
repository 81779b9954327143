import ViewLint.Text.Basic

/-!
# Path patterns

What is asked of a matcher of path patterns. `ViewLint.Glob` is one.
-/

namespace ViewLint

/-- A matcher of path patterns. -/
structure Patterns where
  /-- Can the text be read as a pattern? -/
  wellFormed : Text → Bool
  /-- Does a pattern match a whole name? `none` if the pattern turns out to be malformed. -/
  matches? : Text → Text → Option Bool

/-- The pattern matches the name. -/
def Patterns.Matches (p : Patterns) (pattern name : Text) : Prop := p.matches? pattern name = some true

end ViewLint
