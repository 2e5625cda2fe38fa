import LiveFeed.Url.Percent
import LiveFeed.Text.Blank

/-!
# Paths

A path is a list of segments.  Reading one splits it at the slashes, encodes what has to be encoded,
and resolves the segments `.` and `..` in all their spellings.

* `PathStyle`: what the scheme decides about paths;
* `segmentsOf`: the segments of a text; `writeSegments` writes a slash before each.
-/

namespace LiveFeed.Url

/-- What a scheme decides about paths: a special scheme takes the backslash for a slash and has no
empty path; files know the drives of old. -/
inductive PathStyle where
  | plain
  | special
  | file
  deriving DecidableEq, Repr

namespace PathStyle

/-- Whether a character separates segments. -/
def isSlash (style : PathStyle) (c : Char) : Bool :=
  c == '/' || (style != plain && c == '\\')

end PathStyle

/-- A character of an encoded dot, read with the dot itself. -/
def isDot (cs : List Char) : Bool :=
  cs = ['.'] || cs = ['%', '2', 'e'] || cs = ['%', '2', 'E']

/-- Whether a segment stands for two dots. -/
def isDoubleDot (cs : List Char) : Bool :=
  cs ∈ [['.', '.'], ['.', '%', '2', 'e'], ['.', '%', '2', 'E'], ['%', '2', 'e', '.'],
    ['%', '2', 'E', '.'], ['%', '2', 'e', '%', '2', 'e'], ['%', '2', 'e', '%', '2', 'E'],
    ['%', '2', 'E', '%', '2', 'e'], ['%', '2', 'E', '%', '2', 'E']]

/-- Whether a segment names a drive, with either mark behind the letter. -/
def isDrive : List Char → Bool
  | [c, m] => c.isAlpha && (m == ':' || m == '|')
  | _ => false

/-- Whether a segment names a drive in its usual spelling. -/
def isUsualDrive : List Char → Bool
  | [c, m] => c.isAlpha && m == ':'
  | _ => false

/-- Removes the last segment; the drive of a file stays. -/
def dropSegment (style : PathStyle) (done : List (List Char)) : List (List Char) :=
  match done with
  | [] => []
  | d :: rest => if style == .file && rest.isEmpty && isUsualDrive d then [d] else rest

/-- Adds a segment; a drive at the start of a file's path is spelled the usual way. -/
def addSegment (style : PathStyle) (s : List Char) (done : List (List Char)) : List (List Char) :=
  if style == .file && done.isEmpty && isDrive s then (s.take 1 ++ [':']) :: done else s :: done

/-- Resolves segments; those done are kept in reverse.  A path that ends in dots ends in a slash. -/
def resolve (style : PathStyle) : List (List Char) → List (List Char) → List (List Char)
  | done, [] => done.reverse
  | done, [s] =>
    if isDoubleDot s then ([] :: dropSegment style done).reverse
    else if isDot s then ([] :: done).reverse
    else (addSegment style s done).reverse
  | done, s :: rest =>
    if isDoubleDot s then resolve style (dropSegment style done) rest
    else if isDot s then resolve style done rest
    else resolve style (addSegment style s done) rest

/-- Drops empty segments before others. -/
def dropEmptyFront : List (List Char) → List (List Char)
  | [] => []
  | [s] => [s]
  | s :: t :: rest => if s.isEmpty then dropEmptyFront (t :: rest) else s :: t :: rest

/-- The segments of a text.  One leading slash is not a segment's end. -/
def segmentsOf (style : PathStyle) (cs : List Char) : List (List Char) :=
  match style, cs with
  | .plain, [] => []
  | style, cs =>
    let body := if (cs.head?.map style.isSlash).getD false then cs.drop 1 else cs
    let parts := (Text.splitBy style.isSlash body).map (percentEncode .path)
    let segments := resolve style [] parts
    if style = .file then dropEmptyFront segments else segments

/-- The text of segments. -/
def writeSegments (segments : List (List Char)) : List Char :=
  segments.flatMap ('/' :: ·)

end LiveFeed.Url
