import ViewLint.Path

/-!
# File URIs

Editors name documents by URIs. `Uri.toPath?` gives the path of a URI with the scheme `file`, or of
a text without a scheme, and `Uri.ofPath` the URI of a path. `Uri.normalize` spells every URI of one
file the same way, and leaves the URIs of other schemes alone.

A URI is cut the usual way: the fragment goes first, then the scheme, the query, and behind two
slashes the authority. What is left is the path, in which `%` escapes stand for bytes. A URI that
breaks the rules has no path.
-/

namespace ViewLint.Uri

/-! ### Escapes -/

/-- Are all escapes of a text complete? -/
def escapesComplete : Text → Bool
  | [] => true
  | [b] => b != Text.byte '%'
  | [b, c] => b != Text.byte '%' && c != Text.byte '%'
  | b :: c :: d :: rest =>
    if b = Text.byte '%' then Text.isHexDigit c && Text.isHexDigit d && escapesComplete rest
    else escapesComplete (c :: d :: rest)

/-- Replaces every escape by its byte; incomplete escapes are kept. -/
def decodeEscapes : Text → Text
  | b :: c :: d :: rest =>
    if b = Text.byte '%' ∧ Text.isHexDigit c ∧ Text.isHexDigit d then
      (Text.hexValue c * 16 + Text.hexValue d).toUInt8 :: decodeEscapes rest
    else b :: decodeEscapes (c :: d :: rest)
  | short => short

/-- Replaces every escape by its byte; `none` if one is incomplete. -/
def unescape? (text : Text) : Option Text :=
  if escapesComplete text then some (decodeEscapes text) else none

/-- The bytes that stand for themselves in a path. -/
def isPathByte (b : UInt8) : Bool :=
  Text.isLetter b || Text.isDigit b || "-_.~$&+,/:;=@".toList.any (Text.byte · == b)

/-- A byte as it is written in a path; escapes have capital digits. -/
def escapeByte (b : UInt8) : Text :=
  if isPathByte b then [b] else Text.byte '%' :: (Text.hex 2 b.toNat).map Text.upper

/-- Escapes a path. -/
def escapePath (path : Text) : Text := path.flatMap escapeByte

/-! ### The parts of a URI -/

/-- Control bytes, which no URI may hold before its fragment. -/
def isControl (b : UInt8) : Bool := b < 32 || b == 127

/-- The scheme and the rest, read behind the bytes `seen` (last first); an empty scheme means that
there is none. -/
def schemeFrom (all : Text) : Text → Text → Option (Text × Text)
  | _, [] => some ([], all)
  | seen, b :: rest =>
    if Text.isLetter b then schemeFrom all (b :: seen) rest
    else if Text.isDigit b || b == Text.byte '+' || b == Text.byte '-' || b == Text.byte '.' then
      if seen.isEmpty then some ([], all) else schemeFrom all (b :: seen) rest
    else if b = Text.byte ':' then
      if seen.isEmpty then none else some (seen.reverse.map Text.lower, rest)
    else some ([], all)

/-- The scheme in small letters, and the rest; `none` if a URI starts with a colon. -/
def scheme? (uri : Text) : Option (Text × Text) := schemeFrom uri [] uri

/-- The bytes that a host may hold besides letters and digits. -/
def isHostMark (b : UInt8) : Bool :=
  "!$&'()*+,;=:[]<>\"-_.~".toList.any (Text.byte · == b)

/-- The bytes that stand for themselves in a host. -/
def isHostByte (b : UInt8) : Bool :=
  128 ≤ b || Text.isLetter b || Text.isDigit b || isHostMark b

/-- Are the bytes of a part of a host allowed, and its escapes complete and allowed by `escape`? -/
def isHostPart (escape : UInt8 → UInt8 → Bool) : Text → Bool
  | [] => true
  | b :: rest =>
    if b = Text.byte '%' then
      match rest with
      | c :: d :: rest =>
        Text.isHexDigit c && Text.isHexDigit d && escape c d && isHostPart escape rest
      | _ => false
    else isHostByte b && isHostPart escape rest

/-- The escape of the percent sign. -/
def isPercentEscape (c d : UInt8) : Bool := c == Text.byte '2' && d == Text.byte '5'

/-- Is the text allowed as a host? Escapes stand for bytes beyond ASCII, or for a percent sign. -/
def isHostText : Text → Bool := isHostPart fun c d => 8 ≤ Text.hexValue c || isPercentEscape c d

/-- Is the text allowed as the zone of an address? Escapes stand for a percent sign, a blank, or
what may also stand unescaped in a host. -/
def isZoneText : Text → Bool :=
  isHostPart fun c d =>
    let b := (Text.hexValue c * 16 + Text.hexValue d).toUInt8
    isPercentEscape c d || b == Text.byte ' ' || (b < 128 && isHostByte b)

/-- Is the text empty, or a colon and digits? -/
def isOptionalPort : Text → Bool
  | [] => true
  | b :: rest => b == Text.byte ':' && rest.all Text.isDigit

/-- What follows the last occurrence of a byte, that byte included. -/
def fromLast? (b : UInt8) (text : Text) : Option Text :=
  let tail := (text.reverse.takeWhile (· != b)).reverse
  if tail.length < text.length then some (b :: tail) else none

/-- Is the text, which starts with a bracket, allowed as an address in brackets with an optional
port? Behind an escaped percent sign the address has a zone. -/
def isBracketedHost (host : Text) : Bool :=
  match fromLast? (Text.byte ']') host with
  | none => false
  | some tail =>
    let address := host.take (host.length - tail.length)
    let zone := Text.find? (Text.ofString "%25") address
    isOptionalPort (tail.drop 1) && isHostText tail &&
      match zone with
      | none => isHostText address
      | some n => isHostText (address.take n) && isZoneText (address.drop n)

/-- Is the text allowed as a host with an optional port? -/
def isHost (host : Text) : Bool :=
  if host.head? = some (Text.byte '[') then isBracketedHost host
  else isOptionalPort ((fromLast? (Text.byte ':') host).getD []) && isHostText host

/-- The bytes that user information may hold besides letters and digits. -/
def isUserMark (b : UInt8) : Bool :=
  "-._:~!$&'()*+,;=%@".toList.any (Text.byte · == b)

/-- Is the text allowed as an authority: optional user information, an at sign, and a host? -/
def isAuthority (authority : Text) : Bool :=
  match fromLast? (Text.byte '@') authority with
  | none => isHost authority
  | some tail =>
    let user := authority.take (authority.length - tail.length)
    isHost (tail.drop 1) &&
      user.all (fun b => Text.isLetter b || Text.isDigit b || isUserMark b) && escapesComplete user

/-- The text before the first occurrence of a byte. -/
def before (b : UInt8) (text : Text) : Text := text.takeWhile (· != b)

/-- The scheme and the decoded path of a URI; `none` if it breaks the rules. The path of a URI whose
path does not start with a slash is not looked at. -/
def parse? (uri : Text) : Option (Text × Text) := do
  let main := before (Text.byte '#') uri
  let fragment := uri.drop (main.length + 1)
  if main.any isControl || !escapesComplete fragment then none
  else if main = Text.ofString "*" then some ([], main)
  else
    let (scheme, rest) ← scheme? main
    let rest := before (Text.byte '?') rest
    let rooted := rest.head? == some Path.slash
    if !rooted && !scheme.isEmpty then some (scheme, [])
    else if !rooted && (before Path.slash rest).any (· == Text.byte ':') then none
    else if (Text.ofString "//").isPrefixOf rest &&
        (!scheme.isEmpty || !(Text.ofString "///").isPrefixOf rest) then
      let authority := before Path.slash (rest.drop 2)
      if isAuthority authority then
        (unescape? (rest.drop (2 + authority.length))).map fun path => (scheme, path)
      else none
    else (unescape? rest).map fun path => (scheme, path)

/-! ### Paths and URIs -/

/-- The scheme of files. -/
def fileScheme : Text := Text.ofString "file"

/-- Drops the slash before a drive letter. -/
def dropDriveSlash (path : Text) : Text :=
  if path.head? = some Path.slash ∧ (path.drop 2).head? = some (Text.byte ':') then path.drop 1
  else path

/-- The path that a URI names, seen from the working directory. A text without a scheme is taken as
a path. Escapes that are left after the URI is read are replaced too, if all of them are complete.
-/
def toPath? (cwd uri : Text) : Option Text :=
  if uri.isEmpty then none
  else match parse? uri with
    | none => none
    | some (scheme, path) =>
      if !scheme.isEmpty && scheme != fileScheme then none
      else
        let path := if scheme.isEmpty then uri else path
        some (Path.absolute cwd (dropDriveSlash ((unescape? path).getD path)))

/-- The URI of a path, seen from the working directory. The empty path has none. -/
def ofPath (cwd path : Text) : Text :=
  if path.isEmpty then [] else Text.ofString "file://" ++ escapePath (Path.absolute cwd path)

/-- One spelling for all URIs of a file. -/
def normalize (cwd uri : Text) : Text :=
  match toPath? cwd uri with
  | some path => ofPath cwd path
  | none => uri

end ViewLint.Uri
