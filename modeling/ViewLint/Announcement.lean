import ViewLint.Balance
import ViewLint.Selector
import ViewLint.Table

/-!
# Announcing diagnostics

Whoever checks a document announces the result: the whole set of its diagnostics, which replaces
what was announced for the document before, or that there is nothing to say about it any more. A
`Board` keeps the last announcement of every document. Announcements can also go elsewhere, and can
fail to arrive; a `Sink` is any place that takes them.
-/

namespace ViewLint

/-- A document as it is at one moment. -/
structure Snapshot where
  uri : Text
  path : Text
  languageId : Text
  version : Int
  text : Text
  deriving DecidableEq

/-- What is said about the diagnostics of a document. -/
inductive Announcement where
  | publish (uri : Text) (version : Int) (diagnostics : List Diagnostic)
  | clear (uri : Text)
  deriving DecidableEq

/-- The diagnostics that were announced for a document, and the version they are about. -/
structure Published where
  version : Int
  diagnostics : List Diagnostic
  deriving DecidableEq

/-- The last announcement of every document, by its URI. -/
abbrev Board := Table Published

namespace Announcement

/-- The document that an announcement is about. -/
def uri : Announcement → Text
  | publish uri .. => uri
  | clear uri => uri

/-- The board after an announcement. -/
def post (board : Board) : Announcement → Board
  | publish uri version diagnostics => board.put uri ⟨version, diagnostics⟩
  | clear uri => board.erase uri

/-- What an announcement leaves on the board for its own document. -/
def published? : Announcement → Option Published
  | publish _ version diagnostics => some ⟨version, diagnostics⟩
  | clear _ => none

@[simp] theorem get?_post (a : Announcement) (board : Board) (key : Text) :
    Table.get? (a.post board) key = if key = a.uri then a.published? else Table.get? board key := by
  cases a with
  | publish u _ _ => by_cases h : key = u <;> simp [post, uri, published?, h]
  | clear u => by_cases h : key = u <;> simp [post, uri, published?, h]

/-- The announcement of a checked document; a document that is no template is left alone. -/
def ofSnapshot? (selector : Selector) (window : Int) (doc : Snapshot) : Option Announcement :=
  if selector.selects doc.languageId doc.path then
    some (.publish doc.uri doc.version (check window doc.text))
  else none

/-- The wording of a failure to deliver an announcement. -/
def failure (fault : Text) : Announcement → Text
  | publish uri .. =>
    Text.ofString "publishing diagnostics for " ++ uri ++ Text.ofString ": " ++ fault
  | clear uri => Text.ofString "clearing diagnostics for " ++ uri ++ Text.ofString ": " ++ fault

end Announcement

/-- A place that takes announcements, with a state of its own; it fails with a reason. -/
structure Sink (σ : Type) where
  deliver : σ → Announcement → Except Text σ

namespace Sink

/-- Keeps the last announcement of every document. -/
def board : Sink Board := ⟨fun b a => .ok (a.post b)⟩

/-- Takes nothing, always for the same reason. -/
def broken {σ : Type} (reason : Text) : Sink σ := ⟨fun _ _ => .error reason⟩

end Sink

end ViewLint
