import ViewLint.Component.Basic
import ViewLint.Finder.Walker
import ViewLint.Patterns
import ViewLint.Settings.Basic

/-!
# What the library is given

The library looks at files, walks directories, matches patterns, applies ignore rules and reads
settings files, but how any of this is done is not its concern: it is given by a `Host`. What is
proved about the library holds for every host, or names what it needs of one.

A walk is given twice, once for each state that is carried through walks.
-/

namespace ViewLint

/-- The file system and the tools that the library is given. -/
structure Host where
  files : FileSystem
  walkTemplates : Walk Walker WalkError
  walkComponents : Walk (List Component) ComponentError
  patterns : Patterns
  /-- Do the rules in the lines of an ignore file ignore a path? -/
  ignores : List Text → Text → Bool
  /-- Reads settings in YAML; `none` if there is a fault. -/
  yaml? : Text → Option Settings
  /-- Reads settings in HCL. -/
  hcl : Text → Except Hcl.Fault Settings

end ViewLint
