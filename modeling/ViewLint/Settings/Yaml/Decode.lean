import ViewLint.Settings.Basic
import ViewLint.Settings.Yaml.Node
import ViewLint.Settings.Yaml.Scalar

/-!
# Settings in YAML

Settings are a mapping from the four setting names. An unknown name, a name that is set twice and a
value of the wrong shape are faults. A name that is null is passed over, and a null value sets
nothing. A merge key takes in further mappings, whose settings count only where none is set yet.
-/

namespace ViewLint.Yaml

namespace Node

/-- The node behind an alias; an alias inside its own node stands for nothing. -/
def behindAlias? : Node → Option Node
  | .alias _ target => target
  | node => some node

/-- A node as a text: `none` for a fault, `some none` for null. -/
def asText? (node : Node) : Option (Option Text) :=
  match node.behindAlias? with
  | some (.scalar tag style content) =>
    (Value.ofScalar? tag style content).map fun
      | .null => none
      | .binary content => some content
      | _ => some (Settings.textOf content)
  | _ => none

/-- A node as a list of texts, null items left out; null is the empty list. -/
def asTexts? (node : Node) : Option (List Text) :=
  match node.behindAlias? with
  | some (.sequence items) => (items.mapM asText?).map (·.filterMap id)
  | some (.scalar tag style content) =>
    if Value.ofScalar? tag style content = some .null then some [] else none
  | _ => none

/-- A node as a number: `none` for a fault, `some none` for null. -/
def asInt? (node : Node) : Option (Option Int) :=
  match node.behindAlias? with
  | some (.scalar tag style content) =>
    match Value.ofScalar? tag style content with
    | some .null => some none
    | some v => v.toInt?.map some
    | none => none
  | _ => none

/-- Is a key the merge key? -/
def isMerge : Node → Bool
  | .scalar tag style content =>
    content == "<<".toList &&
      match tag.map String.ofList with
      | none | some "" => style == .plain
      | some tag => tag == "!!merge"
  | _ => false

/-- Are two keys spelled the same? -/
def sameKey : Node → Node → Bool
  | .scalar _ _ a, .scalar _ _ b => a == b
  | .alias a _, .alias b _ => a == b
  | .sequence _, .sequence _ => true
  | .mapping _, .mapping _ => true
  | _, _ => false

/-- Do all keys of a mapping differ? -/
def distinctKeys : List (Node × Node) → Bool
  | [] => true
  | (key, _) :: rest => !rest.any (sameKey key ·.1) && distinctKeys rest

end Node

/-- Sets the setting of a name. An unknown name and a value of the wrong shape are faults. -/
def setField? (name : Text) (value : Node) (s : Settings) : Option Settings :=
  if name = Text.ofString "components_dir" then
    value.asText?.map fun v => { s with componentsDir := v.getD s.componentsDir }
  else if name = Text.ofString "view_suffix" then
    value.asText?.map fun v => { s with viewSuffix := v.getD s.viewSuffix }
  else if name = Text.ofString "language_ids" then
    value.asTexts?.map fun v => { s with languageIds := v }
  else if name = Text.ofString "unclosed_window" then
    value.asInt?.map fun v => { s with unclosedWindow := v.getD s.unclosedWindow }
  else none

/-- The settings of some pairs. `taken` are the names that are not set again, because they are set
already; without them every name may be set once. -/
def setFields? (taken : List Text) : List (Node × Node) → Settings → Option (Settings × List Text)
  | [], s => some (s, taken)
  | (key, value) :: rest, s =>
    if key.isMerge then setFields? taken rest s
    else match key.asText? with
      | none => none
      | some none => setFields? taken rest s
      | some (some name) =>
        if taken.contains name then setFields? taken rest s
        else do setFields? (taken ++ [name]) rest (← setField? name value s)

/-- The value of the last merge key. -/
def mergeValue? (pairs : List (Node × Node)) : Option Node :=
  (pairs.reverse.find? (·.1.isMerge)).map (·.2)

/-- The mappings that a merge key takes in. -/
def merged? (value : Node) : Option (List (List (Node × Node))) :=
  let pairs? : Node → Option (List (Node × Node))
    | .mapping pairs => some pairs
    | .alias _ (some (.mapping pairs)) => some pairs
    | _ => none
  match value with
  | .sequence items => items.mapM pairs?
  | node => (pairs? node).map fun pairs => [pairs]

/-- The settings of a mapping and of what it merges in, down to a number of levels. -/
def ofPairs? : Nat → List Text → List (Node × Node) → Settings → Option (Settings × List Text)
  | 0, _, _, _ => none
  | fuel + 1, taken, pairs, s => do
    if !Node.distinctKeys pairs then none
    else
      let done ← setFields? taken pairs s
      match mergeValue? pairs with
      | none => return done
      | some value =>
        (← merged? value).foldlM (fun (s, taken) inner => ofPairs? fuel taken inner s) done

/-- The deepest nesting of merge keys. -/
def mergeDepth : Nat := 100

/-- Reads settings; `none` if there is a fault. -/
def settings? (data : Text) : Option Settings := do
  let root ← Node.ofTokens? (scan (← Settings.characters? data))
  match root.behindAlias? with
  | some (.mapping pairs) => return (← ofPairs? mergeDepth [] pairs {}).1
  | some (.scalar tag style content) =>
    if Value.ofScalar? tag style content = some .null then return {} else none
  | _ => none

end ViewLint.Yaml
