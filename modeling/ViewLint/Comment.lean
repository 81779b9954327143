import ViewLint.Text.Basic

/-!
# Comments of a view template

A template mixes five kinds of comments. `spans` finds them from left to right, outside quoted
strings, and `strip` blanks them while every other byte, and every newline, stays where it was, so
that places found in the blanked text are places of the template.

The scan is one pass over the bytes. It carries what a byte needs to know about the ones before it:
the byte right before (a `#` starts a comment only at the start of the text or after white space),
the open quote if there is one, and whether an odd number of backslashes stands right before.
-/

namespace ViewLint.Comment

/-- The kinds of comments. -/
inductive Kind where
  | template
  | markup
  | block
  | line
  | hash
  deriving DecidableEq

namespace Kind

/-- The name of a kind. -/
def name : Kind → String
  | template => "template"
  | markup => "markup"
  | block => "block"
  | line => "line"
  | hash => "hash"

/-- The kinds in their numbering order. -/
def all : List Kind := [template, markup, block, line, hash]

/-- The name of the kind of a number. -/
def nameOf (n : Int) : String :=
  if n < 0 then "unknown" else ((all[n.toNat]?).map name).getD "unknown"

end Kind

/-- A comment, as the byte offsets of its first byte and of the byte after it. The end includes the
closing delimiter if there is one. -/
structure Span where
  kind : Kind
  start : Nat
  stop : Nat
  terminated : Bool
  deriving DecidableEq

/-- A pair of comment delimiters. -/
structure Delimiter where
  kind : Kind
  opener : Text
  closer : Text

/-- The delimited comments. The first opener that matches wins. -/
def delimiters : List Delimiter :=
  [ ⟨.template, Text.ofString "\x7b\x7b--", Text.ofString "--\x7d\x7d"⟩,
    ⟨.markup, Text.ofString "<!--", Text.ofString "-->"⟩,
    ⟨.block, Text.ofString "/*", Text.ofString "*/"⟩ ]

/-- A comment found at the start of a text: its kind, its length, and whether it is terminated. -/
structure Found where
  kind : Kind
  length : Nat
  terminated : Bool
  deriving DecidableEq

/-- The comment that a delimiter opens at the start of `text`: it ends right after the first closer
behind the opener, or at the end of the text. -/
def Delimiter.at? (d : Delimiter) (text : Text) : Option Found :=
  if d.opener.isPrefixOf text then
    match Text.find? d.closer (text.drop d.opener.length) with
    | some n => some ⟨d.kind, d.opener.length + n + d.closer.length, true⟩
    | none => some ⟨d.kind, text.length, false⟩
  else none

/-- The number of bytes before the next newline, or to the end. -/
def restOfLine (text : Text) : Nat := (text.takeWhile (· != Text.byte '\n')).length

/-- The comment that starts at the start of `text`, when the byte before it is `previous`. -/
def at? (previous : Option UInt8) (text : Text) : Option Found :=
  match delimiters.findSome? (·.at? text) with
  | some found => some found
  | none =>
    if (Text.ofString "//").isPrefixOf text then
      some ⟨.line, 2 + restOfLine (text.drop 2), true⟩
    else if (Text.ofString "#").isPrefixOf text && previous.all Text.isSpace then
      some ⟨.hash, 1 + restOfLine (text.drop 1), true⟩
    else none

/-- What the scan knows about the bytes before the current one. -/
inductive State where
  /-- In the template, after the byte `previous`. -/
  | code (previous : Option UInt8)
  /-- In a string opened by `quote`; `odd` says that an odd number of backslashes stands right
  before. -/
  | quoted (quote : UInt8) (odd : Bool)
  /-- In a comment of which `left` bytes are still to be passed over. -/
  | comment (left : Nat)
  deriving DecidableEq

/-- Is the byte a quote? -/
def isQuote (b : UInt8) : Bool := b == Text.byte '"' || b == Text.byte '\''

/-- The state after the byte `b` of a string. Only the quote that opened the string closes it, and
only after an even number of backslashes. -/
def afterQuoted (quote : UInt8) (odd : Bool) (b : UInt8) : State :=
  if b = quote ∧ odd = false then .code (some b)
  else .quoted quote (b == Text.byte '\\' && !odd)

/-- The state after a byte, `length` being the length of the comment that starts at it. -/
def afterOpener (b : UInt8) : Nat → State
  | 0 => .code (some b)
  | 1 => .code (some b)
  | left + 2 => .comment (left + 1)

/-- The comments in the rest of a text that starts at `offset`. -/
def spansFrom : State → Nat → Text → List Span
  | _, _, [] => []
  | .comment left, offset, b :: rest => spansFrom (afterOpener b left) (offset + 1) rest
  | .quoted quote odd, offset, b :: rest => spansFrom (afterQuoted quote odd b) (offset + 1) rest
  | .code previous, offset, b :: rest =>
    if isQuote b then spansFrom (.quoted b false) (offset + 1) rest
    else match at? previous (b :: rest) with
      | some found =>
        ⟨found.kind, offset, offset + found.length, found.terminated⟩ ::
          spansFrom (afterOpener b found.length) (offset + 1) rest
      | none => spansFrom (.code (some b)) (offset + 1) rest

/-- The comments of a text in source order. -/
def spans (text : Text) : List Span := spansFrom (.code none) 0 text

/-- Does the offset lie in the span? -/
def Span.covers (s : Span) (offset : Nat) : Bool := s.start ≤ offset && offset < s.stop

/-- Blanks the bytes of a text, which starts at `offset`, that lie in one of the spans. The spans
are in source order, so a span that ends is dropped. -/
def blankFrom : List Span → Nat → Text → Text
  | _, _, [] => []
  | [], _, text => text
  | s :: rest, offset, b :: text =>
    (if s.covers offset && b != Text.byte '\n' then Text.byte ' ' else b) ::
      blankFrom (if s.stop ≤ offset + 1 then rest else s :: rest) (offset + 1) text

/-- The text with the bytes of every comment, newlines apart, replaced by spaces. -/
def strip (text : Text) : Text := blankFrom (spans text) 0 text

end ViewLint.Comment
