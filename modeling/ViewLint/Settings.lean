import ViewLint.Host

/-!
# Project settings

The settings of a project are read from one file in its root directory, in one of two formats. What
a file does not set, or sets to nothing, has a default. Two values are refused: a components
directory that is not relative to the root, and a suffix that does not start with a dot.
-/

namespace ViewLint

/-- Why settings could not be read. -/
inductive SettingsError where
  | yaml
  | hclSyntax
  | hclValue
  | absoluteComponentsDir (dir : Text)
  | suffixWithoutDot (suffix : Text)
  | unreadable (fault : FileFault)
  | inFile (path : Text) (cause : SettingsError)
  deriving DecidableEq

namespace SettingsError

/-- The wording of a failure. -/
def message : SettingsError → Text
  | yaml => Text.ofString "parsing YAML"
  | hclSyntax => Text.ofString "parsing HCL"
  | hclValue => Text.ofString "decoding HCL"
  | absoluteComponentsDir dir =>
    Text.ofString "components_dir must be relative to the workspace root: " ++ dir
  | suffixWithoutDot suffix => Text.ofString "view_suffix must start with a dot: " ++ suffix
  | unreadable fault => Text.ofString "reading config file: " ++ fault.message
  | inFile path cause => Text.ofString "loading " ++ path ++ Text.ofString ": " ++ cause.message

end SettingsError

namespace Settings

/-- The settings with defaults for what is not set. -/
def withDefaults (s : Settings) : Settings where
  componentsDir :=
    if s.componentsDir.isEmpty then Text.ofString defaultComponentsDir else s.componentsDir
  viewSuffix := if s.viewSuffix.isEmpty then Text.ofString ".view.php" else s.viewSuffix
  languageIds := if s.languageIds.isEmpty then [Text.ofString "php"] else s.languageIds
  unclosedWindow := if s.unclosedWindow ≤ 0 then 20 else s.unclosedWindow

/-- The settings of a project without a settings file. -/
def default : Settings := withDefaults {}

/-- Refuses a components directory that is not relative, and a suffix that does not start with a
dot. -/
def validate (s : Settings) : Except SettingsError Settings :=
  if Path.isAbsolute s.componentsDir then .error (.absoluteComponentsDir s.componentsDir)
  else if s.viewSuffix.head? != some (Text.byte '.') then .error (.suffixWithoutDot s.viewSuffix)
  else .ok s

/-- Is a file of this name written in YAML? -/
def isYamlName (name : Text) : Bool :=
  (Text.ofString ".yaml").isSuffixOf name || (Text.ofString ".yml").isSuffixOf name

/-- Reads what a settings file sets, by the format that its name asks for. Blank YAML sets
nothing. -/
def decode (host : Host) (name data : Text) : Except SettingsError Settings :=
  if isYamlName name then
    if (Text.trimSpace data).isEmpty then .ok {}
    else match host.yaml? data with
      | some s => .ok s
      | none => .error .yaml
  else match host.hcl data with
    | .ok s => .ok s
    | .error .syntaxError => .error .hclSyntax
    | .error .valueError => .error .hclValue

/-- Reads a settings file. -/
def parse (host : Host) (name data : Text) : Except SettingsError Settings :=
  (decode host name data).bind fun s => validate s.withDefaults

/-- The names of a settings file; the first that exists wins. -/
def fileNames : List String := [".viewphp.hcl", ".viewphp.yaml", ".viewphp.yml"]

/-- A settings file that was found. -/
structure File where
  name : Text
  path : Text
  data : Text
  deriving DecidableEq

/-- Tries the names of a settings file one after the other. -/
def findFile (host : Host) (root : Text) : List String → Except SettingsError (Option File)
  | [] => .ok none
  | name :: names =>
    let path := Path.join [root, Text.ofString name]
    match host.files.read path with
    | .error fault =>
      if fault.isMissing then findFile host root names else .error (.unreadable fault)
    | .ok data => .ok (some ⟨Text.ofString name, path, data⟩)

/-- The settings file of the project at `root`. -/
def file? (host : Host) (root : Text) : Except SettingsError (Option File) :=
  findFile host root fileNames

/-- The settings of the project at `root`; without a settings file, the defaults. -/
def load (host : Host) (root : Text) : Except SettingsError Settings := do
  match ← file? host root with
  | none => return default
  | some file => (parse host file.name file.data).mapError (.inFile file.path)

/-- The settings in force: where they cannot be read, the defaults. -/
def loadOrDefault (host : Host) (root : Text) : Settings :=
  if root.isEmpty then default
  else match load host root with
    | .ok s => s
    | .error _ => default

end Settings

end ViewLint
