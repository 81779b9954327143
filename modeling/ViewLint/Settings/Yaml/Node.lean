import ViewLint.Settings.Yaml.Token

/-!
# The nodes of a YAML document

The first document of a stream as a tree of scalars, sequences and mappings. An alias keeps its name
and the node it stands for; inside the node that it names it stands for nothing.

The reader follows the grammar of tokens, one function for each collection. It needs fuel, of which
every step that does not consume a token uses one of a fixed number: `Node.ofTokens?` starts with
more than any stream can use.
-/

namespace ViewLint.Yaml

/-- A node of a document. -/
inductive Node where
  | scalar (tag : Option (List Char)) (style : Style) (content : List Char)
  | sequence (items : List Node)
  | mapping (pairs : List (Node × Node))
  | alias (name : List Char) (target : Option Node)

namespace Node

/-- The node of a place where nothing is written. -/
def empty : Node := .scalar none .plain []

/-- The rest of the tokens, and the anchors met so far, first to last. An anchor whose node is not
complete stands for nothing. -/
structure Reader where
  tokens : List Token
  anchors : List (List Char × Option Node) := []

namespace Reader

/-- The reader behind the next token. -/
def next (r : Reader) : Reader := { r with tokens := r.tokens.drop 1 }

/-- Is the next token one of these? -/
def meets (r : Reader) (tokens : List Token) : Bool := r.tokens.head?.any (tokens.contains ·)

/-- The properties of a node: its anchor and its tag, in either order. -/
def properties (r : Reader) : Option (List Char) × Option (List Char) × Reader :=
  match r.tokens with
  | .anchor a :: .tag t :: rest => (some a, some t, { r with tokens := rest })
  | .tag t :: .anchor a :: rest => (some a, some t, { r with tokens := rest })
  | .anchor a :: rest => (some a, none, { r with tokens := rest })
  | .tag t :: rest => (none, some t, { r with tokens := rest })
  | _ => (none, none, r)

/-- Announces an anchor. -/
def announce (r : Reader) : Option (List Char) → Reader
  | some name => { r with anchors := r.anchors ++ [(name, none)] }
  | none => r

/-- Completes the anchor that was announced when there were `count` of them. -/
def complete (r : Reader) (count : Nat) (node : Node) : Option (List Char) → Reader
  | some name => { r with anchors := r.anchors.set count (name, some node) }
  | none => r

end Reader

mutual

/-- Reads a node. `block` allows block collections, `indentless` a sequence that is not indented
deeper than the mapping it stands in. -/
def read? : Nat → Bool → Bool → Reader → Option (Node × Reader)
  | 0, _, _, _ => none
  | fuel + 1, block, indentless, r =>
    match r.tokens with
    | .alias name :: _ =>
      (r.anchors.reverse.lookup name).map fun target => (.alias name target, r.next)
    | _ =>
      let count := r.anchors.length
      let (anchor, tag, r) := r.properties
      let r := r.announce anchor
      let found : Option (Node × Reader) :=
        match r.tokens with
        | .scalar style content :: _ => some (.scalar tag style content, r.next)
        | .flowSequence :: _ => (flowItems? fuel true r.next).map fun (i, r) => (.sequence i, r)
        | .flowMapping :: _ => (flowPairs? fuel true r.next).map fun (p, r) => (.mapping p, r)
        | t :: _ =>
          if indentless && t = .entry then
            (indentlessItems? fuel r).map fun (i, r) => (.sequence i, r)
          else if block && t = .blockSequence then
            (blockItems? fuel r.next).map fun (i, r) => (.sequence i, r)
          else if block && t = .blockMapping then
            (blockPairs? fuel r.next).map fun (p, r) => (.mapping p, r)
          else if anchor.isSome || tag.isSome then some (.scalar tag .plain [], r)
          else none
        | [] => none
      found.map fun (node, r) => (node, r.complete count node anchor)

/-- Reads a node, or the empty node if one of the given tokens is next. -/
def readUnless? : Nat → Bool → Bool → List Token → Reader → Option (Node × Reader)
  | 0, _, _, _, _ => none
  | fuel + 1, block, indentless, stops, r =>
    if r.tokens.isEmpty then none
    else if r.meets stops then some (.empty, r)
    else read? fuel block indentless r

/-- The items of a block sequence. -/
def blockItems? : Nat → Reader → Option (List Node × Reader)
  | 0, _ => none
  | fuel + 1, r =>
    if r.meets [.entry] then do
      let (item, r) ← readUnless? fuel true false [.entry, .blockEnd] r.next
      let (items, r) ← blockItems? fuel r
      return (item :: items, r)
    else if r.meets [.blockEnd] then some ([], r.next)
    else none

/-- The items of a sequence that is not indented. -/
def indentlessItems? : Nat → Reader → Option (List Node × Reader)
  | 0, _ => none
  | fuel + 1, r =>
    if r.tokens.isEmpty then none
    else if r.meets [.entry] then do
      let (item, r) ← readUnless? fuel true false [.entry, .key, .value, .blockEnd] r.next
      let (items, r) ← indentlessItems? fuel r
      return (item :: items, r)
    else some ([], r)

/-- The pairs of a block mapping. -/
def blockPairs? : Nat → Reader → Option (List (Node × Node) × Reader)
  | 0, _ => none
  | fuel + 1, r =>
    if r.meets [.key] then do
      let stops : List Token := [.key, .value, .blockEnd]
      let (key, r) ← readUnless? fuel true true stops r.next
      let (value, r) ←
        if r.meets [.value] then readUnless? fuel true true stops r.next
        else if r.tokens.isEmpty then none
        else some (.empty, r)
      let (pairs, r) ← blockPairs? fuel r
      return ((key, value) :: pairs, r)
    else if r.meets [.blockEnd] then some ([], r.next)
    else none

/-- The items of a flow sequence; before all but the first stands a comma. -/
def flowItems? : Nat → Bool → Reader → Option (List Node × Reader)
  | 0, _, _ => none
  | fuel + 1, first, r =>
    if r.meets [.flowSequenceEnd] then some ([], r.next)
    else if !first && !r.meets [.comma] then none
    else
      let r := if first then r else r.next
      if r.meets [.flowSequenceEnd] then some ([], r.next)
      else do
        let (item, r) ← if r.meets [.key] then flowPair? fuel r.next else read? fuel false false r
        let (items, r) ← flowItems? fuel false r
        return (item :: items, r)

/-- A single pair that stands as an item of a flow sequence. -/
def flowPair? : Nat → Reader → Option (Node × Reader)
  | 0, _ => none
  | fuel + 1, r => do
    let (key, r) ←
      if r.meets [.value, .comma, .flowSequenceEnd] then some (.empty, r.next)
      else read? fuel false false r
    let (value, r) ←
      if r.meets [.value] then readUnless? fuel false false [.comma, .flowSequenceEnd] r.next
      else if r.tokens.isEmpty then none
      else some (.empty, r)
    return (.mapping [(key, value)], r)

/-- The pairs of a flow mapping; before all but the first stands a comma. -/
def flowPairs? : Nat → Bool → Reader → Option (List (Node × Node) × Reader)
  | 0, _, _ => none
  | fuel + 1, first, r =>
    if r.meets [.flowMappingEnd] then some ([], r.next)
    else if !first && !r.meets [.comma] then none
    else
      let r := if first then r else r.next
      if r.meets [.flowMappingEnd] then some ([], r.next)
      else do
        let (key, value, r) ←
          if r.meets [.key] then do
            let (key, r) ← readUnless? fuel false false [.value, .comma, .flowMappingEnd] r.next
            let (value, r) ←
              if r.meets [.value] then readUnless? fuel false false [.comma, .flowMappingEnd] r.next
              else if r.tokens.isEmpty then none
              else some (.empty, r)
            some (key, value, r)
          else (read? fuel false false r).map fun (key, r) => (key, .empty, r)
        let (pairs, r) ← flowPairs? fuel false r
        return ((key, value) :: pairs, r)

end

/-- The tokens of the first document, behind its directives and its start. -/
def content? : List Token → Option (List Token)
  | .directive :: rest =>
    match rest.dropWhile (· == .directive) with
    | .documentStart :: rest => some rest
    | _ => none
  | .documentStart :: rest => some rest
  | tokens => some tokens

/-- The root node of the first document; `none` if the document breaks the grammar or there is
none. -/
def ofTokens? (tokens : List Token) : Option Node := do
  let content ← content? tokens
  let explicit := tokens.head? = some .directive ∨ tokens.head? = some .documentStart
  let ends := [Token.directive, .documentStart, .documentEnd, .streamEnd]
  let (root, r) ←
    if explicit then readUnless? (4 * tokens.length + 4) true false ends ⟨content, []⟩
    else read? (4 * tokens.length + 4) true false ⟨content, []⟩
  if r.tokens.isEmpty then none else some root

end Node

end ViewLint.Yaml
