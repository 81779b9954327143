import ViewLint.Text.Basic

/-!
# Slash-separated paths

Paths are cleaned lexically: empty segments and `.` vanish, and `..` cancels the segment before it.
A cleaned path is a flag (does it start with a slash?) and a list of segments, and every operation
goes through that view: `clean` prints it, `join` cleans what it joins, and `relative` drops the
segments that two paths share and climbs out of the rest.
-/

namespace ViewLint.Path

/-- The separator. -/
abbrev slash : UInt8 := Text.byte '/'

/-- The segment that stands for the directory itself. -/
def here : Text := Text.ofString "."

/-- The segment that stands for the directory above. -/
def up : Text := Text.ofString ".."

/-- Does the path start with a slash? -/
def isAbsolute (path : Text) : Bool := path.head? == some slash

/-- One cleaning step. `stack` holds the cleaned segments so far, the last one first. -/
def push (rooted : Bool) (stack : List Text) (segment : Text) : List Text :=
  if segment.isEmpty ∨ segment = here then stack
  else if segment = up then
    match stack with
    | [] => if rooted then [] else [up]
    | top :: below => if top = up then up :: top :: below else below
  else segment :: stack

/-- The segments of a cleaned path. -/
def segments (path : Text) : List Text :=
  ((Text.split slash path).foldl (push (isAbsolute path)) []).reverse

/-- Writes cleaned segments as a path. -/
def ofSegments (rooted : Bool) (segments : List Text) : Text :=
  if rooted then slash :: Text.join [slash] segments
  else if segments.isEmpty then here
  else Text.join [slash] segments

/-- The shortest path that names the same file lexically. -/
def clean (path : Text) : Text := ofSegments (isAbsolute path) (segments path)

/-- Joins the non-empty parts with slashes and cleans the result. Nothing joins to nothing. -/
def join (parts : List Text) : Text :=
  match parts.filter (!·.isEmpty) with
  | [] => []
  | kept => clean (Text.join [slash] kept)

/-- The path seen from the working directory. -/
def absolute (cwd path : Text) : Text :=
  if isAbsolute path then clean path else join [cwd, path]

/-- Drops the segments that two lists share at their start. -/
def dropShared : List Text → List Text → List Text × List Text
  | a :: as, b :: bs => if a = b then dropShared as bs else (a :: as, b :: bs)
  | as, bs => (as, bs)

/-- The segments of a target path. Unlike for a base, the directory itself is the segment `.`. -/
def targetSegments (path : Text) : List Text :=
  if !isAbsolute path && (segments path).isEmpty then [here] else segments path

/-- The path from `base` to `target`; there is none if only one of them is absolute, or if the way
out of `base` is not known. -/
def relative (base target : Text) : Option Text :=
  if clean base = clean target then some here
  else if isAbsolute base != isAbsolute target then none
  else
    let (out, into) := dropShared (segments base) (targetSegments target)
    if out.head? = some up ∧ into ≠ [] then none
    else some (Text.join [slash] (out.map (fun _ => up) ++ into))

/-- The last segment of a path that holds no trailing slash. -/
def name (path : Text) : Text := ((Text.split slash path).getLast?).getD []

end ViewLint.Path
