import ViewLint.Announcement
import ViewLint.Edit
import ViewLint.Uri

/-!
# Open documents

The documents that the editor has open, with the text as the editor sees it. A document keeps the
URI under which it was opened, the path that the URI names, and its text as a sequence of lines;
`OpenDocument.ofItem` is the one place where these are made. The store binds a document to the
normalized URI, so that every spelling of the URI leads to the same document.
-/

namespace ViewLint

/-- A document as the editor sends it. -/
structure DocumentItem where
  uri : Text
  languageId : Text
  version : Int
  text : Text
  deriving DecidableEq

/-- A document that is open in the editor. -/
structure OpenDocument where
  uri : Text
  /-- The path of the document; empty if its URI names no file. -/
  path : Text
  languageId : Text
  version : Int
  text : Text
  /-- The text as a sequence of lines. -/
  lines : Document
  deriving DecidableEq

namespace OpenDocument

/-- Opens a document. -/
def ofItem (cwd : Text) (item : DocumentItem) : OpenDocument where
  uri := item.uri
  path := (Uri.toPath? cwd item.uri).getD []
  languageId := item.languageId
  version := item.version
  text := item.text
  lines := ⟨item.text⟩

/-- The document with another text and version. -/
def withText (cwd : Text) (doc : OpenDocument) (version : Int) (text : Text) : OpenDocument :=
  ofItem cwd ⟨doc.uri, doc.languageId, version, text⟩

/-- The document as it is now. -/
def snapshot (doc : OpenDocument) : Snapshot where
  uri := doc.uri
  path := doc.path
  languageId := doc.languageId
  version := doc.version
  text := doc.text

end OpenDocument

/-- The open documents by their normalized URIs. -/
abbrev Store := Table OpenDocument

namespace Store

/-- The document of a URI. -/
def find? (cwd : Text) (store : Store) (uri : Text) : Option OpenDocument :=
  Table.get? store (Uri.normalize cwd uri)

/-- Keeps a document under its URI. -/
def keep (cwd : Text) (store : Store) (doc : OpenDocument) : Store :=
  Table.put store (Uri.normalize cwd doc.uri) doc

/-- Forgets the document of a URI. -/
def forget (cwd : Text) (store : Store) (uri : Text) : Store :=
  Table.erase store (Uri.normalize cwd uri)

theorem find?_forget (cwd : Text) (store : Store) (gone uri : Text) :
    find? cwd (forget cwd store gone) uri =
      if Uri.normalize cwd uri = Uri.normalize cwd gone then none else find? cwd store uri :=
  Table.get?_erase ..

end Store

end ViewLint
