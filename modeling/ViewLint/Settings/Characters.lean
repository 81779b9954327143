import ViewLint.Text.Utf8

/-!
# Settings files as characters

Both settings formats are defined on characters. A file that is no valid UTF-8 has none, and is
refused by either format.
-/

namespace ViewLint.Settings

/-- The characters of a settings file; `none` if it is no valid UTF-8. -/
def characters? (data : Text) : Option (List Char) :=
  if Text.isUtf8 data then some ((Text.runes data).map fun r => Char.ofNat r.code) else none

/-- The text of a list of characters. -/
def textOf (characters : List Char) : Text := characters.flatMap String.utf8EncodeChar

end ViewLint.Settings
