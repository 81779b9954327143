import ViewLint.Text.Basic

/-!
# The settings of a project

What a project can set. A value that is not set is empty or zero here; `ViewLint.Settings` puts the
defaults in.
-/

namespace ViewLint

/-- The settings of a project. -/
structure Settings where
  /-- Where components live, seen from the root. -/
  componentsDir : Text := []
  /-- The suffix of template files. -/
  viewSuffix : Text := []
  /-- The languages whose documents are templates. -/
  languageIds : List Text := []
  /-- The widest range reported for an unclosed component. -/
  unclosedWindow : Int := 0
  deriving DecidableEq

namespace Settings

/-- The components directory of a project that sets none. -/
def defaultComponentsDir : String := "resources/views/components"

end Settings

/-- Why settings in HCL could not be read. -/
inductive Hcl.Fault where
  | syntaxError
  | valueError
  deriving DecidableEq

end ViewLint
