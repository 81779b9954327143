import ViewLint.Place

/-!
# Structural events of a template

An event is one structural occurrence: a directive marker such as `@if`, a run of `@`, or a
component tag. `Event.ofText` reads the events off a text whose comments have been blanked.

The four kinds of occurrences are searched for separately, each with its own pattern, and then put
into one order: by line, on one line by construct (`Kind.rank`), and then by column. So on one line
directives come before tags, whatever their columns.
-/

namespace ViewLint

/-- The directive families. Each has openers and closers of its own. -/
inductive Family where
  | conditional
  | loop
  | sections
  deriving DecidableEq

namespace Event

/-- The kinds of events. -/
inductive Kind where
  | opener (family : Family)
  | elseBranch
  | closer (family : Family)
  | extendsMarker
  | doubleAt
  | openTag
  | closeTag
  | selfClosedTag
  deriving DecidableEq

namespace Kind

/-- The kinds in their numbering order, each with its name. -/
def names : List (Kind × String) :=
  [ (opener .conditional, "open-conditional"),
    (elseBranch, "else-conditional"),
    (closer .conditional, "close-conditional"),
    (opener .loop, "open-loop"),
    (closer .loop, "close-loop"),
    (opener .sections, "open-section"),
    (closer .sections, "close-section"),
    (extendsMarker, "extends"),
    (doubleAt, "double-at"),
    (openTag, "open-tag"),
    (closeTag, "close-tag"),
    (selfClosedTag, "self-closed-tag") ]

/-- The name of a kind. -/
def name (k : Kind) : String := (names.lookup k).getD "unknown"

/-- The kind of a number. -/
def ofNumber? (n : Int) : Option Kind := if n < 0 then none else (names[n.toNat]?).map (·.1)

/-- The name of the kind of a number. -/
def nameOf (n : Int) : String := ((ofNumber? n).map name).getD "unknown"

/-- Is the event a component tag? -/
def isTag : Kind → Bool
  | openTag | closeTag | selfClosedTag => true
  | _ => false

/-- Orders the events of one line: the extends marker, runs of `@`, conditionals, loops, sections,
and tags last. -/
def rank : Kind → Nat
  | extendsMarker => 0
  | doubleAt => 1
  | opener .conditional | elseBranch | closer .conditional => 2
  | opener .loop | closer .loop => 3
  | opener .sections | closer .sections => 4
  | openTag | closeTag | selfClosedTag => 5

end Kind

end Event

/-- A structural occurrence. The name is the directive with its `@`, the run of `@`, or the
component name without its `c-`. -/
structure Event where
  kind : Event.Kind
  name : Text
  range : Range
  deriving DecidableEq

namespace Event

/-- The line an event starts on. -/
def line (e : Event) : Int := e.range.start.line

/-- The order of events: by line, then by construct, then by column. -/
def le (a b : Event) : Bool :=
  if a.line = b.line then
    if a.kind.rank = b.kind.rank then
      decide (a.range.start.character ≤ b.range.start.character)
    else decide (a.kind.rank < b.kind.rank)
  else decide (a.line < b.line)

/-! ### The vocabulary -/

/-- The directives that carry structure. -/
def keywords : List (Text × Kind) :=
  [ (Text.ofString "if", .opener .conditional),
    (Text.ofString "elseif", .elseBranch),
    (Text.ofString "endif", .closer .conditional),
    (Text.ofString "foreach", .opener .loop),
    (Text.ofString "endforeach", .closer .loop),
    (Text.ofString "section", .opener .sections),
    (Text.ofString "endsection", .closer .sections),
    (Text.ofString "extends", .extendsMarker) ]

/-- All directives of the dialect, those without structure included. -/
def vocabulary : List String :=
  ["@if", "@elseif", "@endif", "@foreach", "@endforeach", "@section", "@endsection", "@extends",
    "@yield", "@include"]

/-- The bytes of a component name. -/
def isNameByte (b : UInt8) : Bool :=
  Text.isWordByte b || b == Text.byte '.' || b == Text.byte '-'

/-- The bytes of a component name, written as a character class. -/
def nameCharset : String := "[A-Za-z0-9_.\\-]"

/-! ### The patterns -/

/-- A run of two or more `@`. -/
def doubleAtPattern : Text.Pattern := fun text =>
  let run := text.takeWhile (· == Text.byte '@')
  if 2 ≤ run.length then some run.length else none

/-- An `@` followed by a word. -/
def directivePattern : Text.Pattern := Text.afterHead [Text.byte '@'] Text.isWordByte

/-- The length of the attributes of a tag up to and including its `>`. Quoted values may hold any
byte but their quote; outside them neither `<` nor a further `>` may stand. -/
def attributes : Option UInt8 → Text → Option Nat
  | _, [] => none
  | some quote, b :: rest =>
    (attributes (if b = quote then none else some quote) rest).map (· + 1)
  | none, b :: rest =>
    if b = Text.byte '>' then some 1
    else if b = Text.byte '<' then none
    else if b = Text.byte '"' ∨ b = Text.byte '\'' then (attributes (some b) rest).map (· + 1)
    else (attributes none rest).map (· + 1)

/-- The length of what follows the name of an opening tag: an optional blank with attributes, or an
optional slash, and the `>`. -/
def tagTail : Text → Option Nat
  | [] => none
  | b :: rest =>
    if b = Text.byte '>' then some 1
    else if b = Text.byte '/' then
      if rest.head? = some (Text.byte '>') then some 2 else none
    else if Text.isBlank b then (attributes none rest).map (· + 1)
    else none

/-- An opening or self-closed component tag. -/
def openTagPattern : Text.Pattern := fun text => do
  let stem ← Text.afterHead (Text.ofString "<c-") isNameByte text
  let tail ← tagTail (text.drop stem)
  return stem + tail

/-- A closing component tag. -/
def closeTagPattern : Text.Pattern := fun text => do
  let stem ← Text.afterHead (Text.ofString "</c-") isNameByte text
  let rest := text.drop stem
  let blanks := (rest.takeWhile Text.isBlank).length
  if (rest.drop blanks).head? = some (Text.byte '>') then return stem + blanks + 1 else none

/-! ### Reading the events -/

/-- The event of an occurrence in a document. -/
def ofOccurrence (doc : Document) (kind : Kind) (name : Text) (o : Text.Occurrence) : Event :=
  ⟨kind, name, ⟨doc.placeAt o.start, doc.placeAt o.stop⟩⟩

/-- The runs of `@`. -/
def doubleAts (text : Text) : List Event :=
  (Text.occurrences doubleAtPattern text).map fun o =>
    ofOccurrence ⟨text⟩ .doubleAt (o.text text) o

/-- The directives with structure. A directive whose `@` belongs to a run of several is none. -/
def directives (text : Text) : List Event :=
  (Text.occurrences directivePattern text).filterMap fun o =>
    if (text.take o.start).getLast? = some (Text.byte '@') then none
    else (keywords.lookup ((o.text text).drop 1)).map fun kind =>
      ofOccurrence ⟨text⟩ kind (o.text text) o

/-- A tag is self-closed if a slash is the last thing before its `>`, white space apart. -/
def isSelfClosed (tag : Text) : Bool :=
  (Text.trimSpaceEnd tag.dropLast).getLast? == some (Text.byte '/')

/-- The opening and self-closed tags. -/
def openTags (text : Text) : List Event :=
  (Text.occurrences openTagPattern text).map fun o =>
    let tag := o.text text
    ofOccurrence ⟨text⟩ (if isSelfClosed tag then .selfClosedTag else .openTag)
      ((tag.drop 3).takeWhile isNameByte) o

/-- The closing tags. -/
def closeTags (text : Text) : List Event :=
  (Text.occurrences closeTagPattern text).map fun o =>
    ofOccurrence ⟨text⟩ .closeTag (((o.text text).drop 4).takeWhile isNameByte) o

/-- The events of a text whose comments are blanked, in order. -/
def ofText (text : Text) : List Event :=
  (doubleAts text ++ directives text ++ openTags text ++ closeTags text).mergeSort le

end Event

end ViewLint
