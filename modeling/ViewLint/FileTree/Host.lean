import ViewLint.FileTree
import ViewLint.Glob
import ViewLint.Host
import ViewLint.Ignore
import ViewLint.Settings.Hcl.Decode
import ViewLint.Settings.Yaml.Decode

/-!
# The host of a tree of files

The program gives the library the files of a tree, and its own tools: the walk of the tree, the
matcher `ViewLint.Glob`, the rules of `ViewLint.Ignore`, and the readers of settings.
-/

namespace ViewLint

/-- The host of a tree of files. -/
def FileTree.host (tree : FileTree) : Host where
  files := tree.fileSystem
  walkTemplates := tree.walk
  walkComponents := tree.walk
  patterns := Glob.patterns
  ignores lines path := (IgnoreRules.ofLines lines).ignores path
  yaml? := Yaml.settings?
  hcl := Hcl.settings

end ViewLint
