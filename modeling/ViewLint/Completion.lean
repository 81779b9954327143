import ViewLint.Component
import ViewLint.Event

/-!
# Completion

What an editor offers while a template is being typed: the components that can follow a partly typed
tag, and the directive snippets. A snippet replaces the word under the cursor if that word is its
label, with or without the `@`.
-/

namespace ViewLint

namespace Completion

/-- The kinds of suggestions. -/
inductive Kind where
  | folder
  | file
  | snippet
  deriving DecidableEq

namespace Kind

/-- The name of a kind. -/
def name : Kind → String
  | folder => "folder"
  | file => "file"
  | snippet => "snippet"

/-- The number that editors use for a kind. -/
def number : Kind → Nat
  | snippet => 15
  | file => 17
  | folder => 19

end Kind

/-- A suggestion. The range is that of the text it replaces. -/
structure Item where
  label : Text
  kind : Kind
  detail : Text
  insertText : Text
  isSnippet : Bool
  range : Option Range
  deriving DecidableEq

/-- The characters that open a completion. -/
def triggerCharacters : List String := [".", "-", "<", "@", "\x7b"]

/-- A place to complete at: a line, its content, and the byte column of the cursor in it. -/
structure Context where
  line : Int
  text : Text
  character : Nat
  deriving DecidableEq

/-- The context of a place, with the cursor moved into its line. -/
def Context.ofPlace (doc : Document) (place : Place) : Context where
  line := place.line
  text := doc.line place.line
  character := min place.character.toNat (doc.line place.line).length

/-- The part of the line before the cursor. -/
def Context.typed (c : Context) : Text := c.text.take c.character

/-- The partly typed component name right before the cursor. -/
def Context.typedComponent (c : Context) : Option Text :=
  let reversed := c.typed.reverse
  let run := (reversed.takeWhile Event.isNameByte).reverse
  if (reversed.drop run.length).head? = some (Text.byte '<') ∧ Resolver.tagHead.isPrefixOf run then
    some (run.drop Resolver.tagHead.length)
  else none

/-- The suggestion of an entry of the components directory. -/
def Item.ofListing (l : Listing) : Item where
  label := l.label
  kind := match l.kind with
    | .folder => .folder
    | .file => .file
  detail := Text.ofString l.kind.detail
  insertText := match l.kind with
    | .folder => []
    | .file => l.label
  isSnippet := false
  range := none

/-- The components that can follow the partly typed tag before the cursor; `none` outside a tag or
without a project. -/
def components (r : Option Resolver) (c : Context) : Option (List Item) :=
  match c.typedComponent, r with
  | some typed, some r =>
    if r.root.isEmpty then none
    else some (((r.list typed).getD []).map Item.ofListing)
  | _, _ => none

/-- A snippet: its label, the text it inserts, and a description. -/
structure Snippet where
  label : Text
  body : Text
  detail : Text
  deriving DecidableEq

/-- The directive snippets. -/
def snippets : List Snippet :=
  [ ("if", "@if ($\x7b1:condition\x7d)\n\t$0\n@endif", "ViewPHP @if ... @endif"),
    ("foreach", "@foreach ($\x7b1:condition\x7d)\n\t$0\n@endforeach",
      "ViewPHP @foreach ... @endforeach"),
    ("section", "@section('$\x7b1:value\x7d')\n\t$0\n@endsection",
      "ViewPHP @section ... @endsection"),
    ("yield", "@yield('$\x7b1:value\x7d')", "ViewPHP @yield"),
    ("include", "@include('$\x7b1:value\x7d')", "ViewPHP @include"),
    ("extends", "@extends('$\x7b1:value\x7d')", "ViewPHP @extends"),
    ("c-", "<c-$\x7b1:component\x7d $\x7b2:attr\x7d=\"$\x7b3:value\x7d\">\n\t$0\n" ++
      "</c-$\x7b1:component\x7d>", "ViewPHP component tag"),
    ("\x7b\x7b", "\x7b\x7b $\x7b1:expr\x7d \x7d\x7d", "Interpolation") ].map
    fun (label, body, detail) =>
      ⟨Text.ofString label, Text.ofString body, Text.ofString detail⟩

/-- The suggestion of a snippet. -/
def Item.ofSnippet (c : Context) (s : Snippet) : Item where
  label := s.label
  kind := .snippet
  detail := s.detail
  insertText := s.body
  isSnippet := true
  range := (Text.wordAt c.text c.character (Text.atWord s.label)).map fun word =>
    .onLine c.line word.start word.stop

/-- All suggestions at a place: components first, then snippets. -/
def complete (r : Option Resolver) (c : Context) : List Item :=
  (components r c).getD [] ++ snippets.map (Item.ofSnippet c)

end Completion

end ViewLint
