import ViewLint.Patterns

/-!
# Which documents are view templates

A selector names the languages and the path pattern of the templates. The editor service asks it for
every document; the command line, which finds its files by their suffix, asks one that takes every
path.
-/

namespace ViewLint

/-- Decides which documents are view templates. -/
structure Selector where
  /-- Matches paths against the pattern. -/
  patterns : Patterns
  languageIds : List Text
  pattern : Text

namespace Selector

/-- The pattern in force when a selector has none. -/
def defaultPattern : Text := Text.ofString "**/*.view.php"

/-- The selector of files with a suffix. No language means `php`, no suffix means `.view.php`. -/
def ofSuffix (patterns : Patterns) (languageIds : List Text) (suffix : Text) : Selector where
  patterns := patterns
  languageIds := if languageIds.isEmpty then [Text.ofString "php"] else languageIds
  pattern := Text.ofString "**/*" ++ (if suffix.isEmpty then Text.ofString ".view.php" else suffix)

/-- Is a document of this language at this path a view template? A document without a language is
judged by its path alone, and a malformed pattern selects nothing. -/
def selects (s : Selector) (languageId path : Text) : Bool :=
  (languageId.isEmpty || s.languageIds.contains languageId) &&
    s.patterns.matches? (if s.pattern.isEmpty then defaultPattern else s.pattern)
      (Text.dropHead ([Text.byte '/']) path) == some true

end Selector

end ViewLint
