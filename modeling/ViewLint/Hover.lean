import ViewLint.Component
import ViewLint.Event

/-!
# The component under the cursor

A hover shows the file of the component tag under the cursor, and a jump to its definition opens it.
Both answer only for a tag whose file exists.
-/

namespace ViewLint

/-- The component tag under the cursor. -/
structure HoverTarget where
  tag : Text
  path : Text
  range : Range
  deriving DecidableEq

namespace Resolver

/-- A component name with its `c-`, wherever it stands. -/
def tagPattern : Text.Pattern := Text.afterHead tagHead Event.isNameByte

/-- The component tag at a place and its range. -/
def tagAt? (doc : Document) (place : Place) : Option (Text × Range) :=
  let line := doc.line place.line
  (Text.wordAt line place.character tagPattern).map fun word =>
    (word.text line, .onLine place.line word.start word.stop)

/-- The component tag at a place, if its file exists. -/
def target? (r : Resolver) (doc : Document) (place : Place) : Option HoverTarget := do
  let (tag, range) ← tagAt? doc place
  match r.lookup tag with
  | (path, true) => some ⟨tag, path, range⟩
  | (_, false) => none

/-- The text of a hover over a component at `path`. -/
def hoverText (path : Text) : Text :=
  Text.ofString "```plaintext\nComponent: " ++ path ++
    Text.ofString "\n```\n\n[Open definition](command:editor.action.revealDefinition)"

/-- The hover at a place: its text and the range of the tag. -/
def hover (r : Resolver) (doc : Document) (place : Place) : Option (Text × Range) :=
  (r.target? doc place).map fun t => (hoverText (r.rel t.path), t.range)

/-- The definition of the component at a place: the start of its file. -/
def definition (r : Resolver) (doc : Document) (place : Place) : Option (Text × Range) :=
  (r.target? doc place).map fun t => (t.path, .onLine 0 0 0)

end Resolver

end ViewLint
