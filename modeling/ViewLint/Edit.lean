import ViewLint.Place

/-!
# Editing a text

An editor sends its edits as changes: a range in UTF-16 columns and the text that replaces it, or a
new text for the whole document. `applyChanges` makes them one after the other. Ranges that do not
fit the text are moved into it, so every change can be made.
-/

namespace ViewLint

/-- A change of a text. Without a range it replaces the whole text. -/
structure Change where
  range : Option Range
  text : Text
  deriving DecidableEq

/-- The byte offset of a place in UTF-16 columns. -/
def Document.offsetUTF16 (doc : Document) (p : Place) : Nat := doc.offset (doc.fromUTF16Place p)

/-- The text after one change. A range that ends before it starts is empty. -/
def applyChange (text : Text) (c : Change) : Text :=
  match c.range with
  | none => c.text
  | some r =>
    let doc : Document := ⟨text⟩
    let start := doc.offsetUTF16 r.start
    let stop := max start (doc.offsetUTF16 r.stop)
    text.take start ++ c.text ++ text.drop stop

/-- The text after some changes. -/
def applyChanges (text : Text) (changes : List Change) : Text := changes.foldl applyChange text

end ViewLint
