import LiveFeed.Url.Host
import LiveFeed.Url.Path

/-!
# Web addresses

An address is kept in its parts, each in the spelling that `Url.write` gives it.  An address without
authority may have a path that is no list of segments, as in `mailto:`; such a path is kept as text.

* `Url.write`: the text of an address;
* `Url.origin`: what decides whether two addresses share their secrets;
* `withPath`, `withQuery`, `withoutFragment`, `withScheme?`: an address with one part replaced.
-/

namespace LiveFeed

namespace Url

/-- Who is asked at which host. -/
structure Authority where
  username : String
  /-- A password is never empty. -/
  password : Option String
  /-- Schemes that are not special may leave the host out. -/
  host : Option Host
  /-- The port, if it is not the scheme's own. -/
  port : Option Nat
  deriving DecidableEq, Repr

/-- What follows the authority. -/
inductive Path where
  | segments (list : List (List Char))
  /-- Text in which slashes mean nothing. -/
  | text (chars : List Char)
  deriving DecidableEq, Repr

/-- The port that a scheme implies. -/
def impliedPort (scheme : String) : Option Nat :=
  if scheme = "http" ∨ scheme = "ws" then some 80
  else if scheme = "https" ∨ scheme = "wss" then some 443
  else if scheme = "ftp" then some 21
  else none

/-- Whether a scheme is special. -/
def isSpecial (scheme : String) : Bool :=
  (impliedPort scheme).isSome || scheme = "file"

/-- What a scheme decides about paths. -/
def pathStyle (scheme : String) : PathStyle :=
  if scheme = "file" then .file else if isSpecial scheme then .special else .plain

end Url

/-- A web address. -/
structure Url where
  scheme : String
  authority : Option Url.Authority
  path : Url.Path
  query : Option String
  fragment : Option String
  deriving DecidableEq, Repr

namespace Url

/-! ## Text -/

/-- The text of a path. -/
def Path.write : Path → List Char
  | segments list => writeSegments list
  | text chars => chars

/-- The user information with the sign behind it, if there is any. -/
def Authority.writeUser (a : Authority) : String :=
  match a.password with
  | none => if a.username.isEmpty then "" else a.username ++ "@"
  | some p => a.username ++ ":" ++ p ++ "@"

/-- The text of an authority. -/
def Authority.write (a : Authority) : String :=
  a.writeUser ++ ((a.host.map Host.write).getD "") ++
    (match a.port with
      | none => ""
      | some p => ":" ++ toString p)

/-- The path as text. -/
def pathText (u : Url) : String :=
  String.ofList u.path.write

/-- Sets a path that starts with two slashes off from the scheme, so that no authority is seen in
it. -/
def pathGuard (u : Url) : String :=
  if u.authority.isNone && ['/', '/'].isPrefixOf u.path.write then "/." else ""

/-- The text of an address. -/
def write (u : Url) : String :=
  u.scheme ++ ":" ++
    (match u.authority with
      | none => ""
      | some a => "//" ++ a.write) ++
    u.pathGuard ++ u.pathText ++
    (match u.query with
      | none => ""
      | some q => "?" ++ q) ++
    (match u.fragment with
      | none => ""
      | some f => "#" ++ f)

/-! ## Parts -/

/-- The host, if there is one. -/
def host? (u : Url) : Option Host :=
  u.authority.bind Authority.host

/-- The port that is used: the one written or the one the scheme implies. -/
def effectivePort (u : Url) : Option Nat :=
  match u.authority.bind Authority.port with
  | some p => some p
  | none => impliedPort u.scheme

/-- Whether a character is left out of addresses wherever it stands. -/
def isSkipped (c : Char) : Bool :=
  c == '\t' || c == '\n' || c == '\r'

/-- The path of an address with its text replaced. -/
def replacePath (u : Url) (cs : List Char) : Path :=
  let cs := cs.filter (!isSkipped ·)
  match u.path with
  | .segments _ => .segments (segmentsOf (pathStyle u.scheme) cs)
  | .text _ =>
    match cs with
    | '/' :: r => .text ("%2F".toList ++ percentEncode .controls r)
    | cs => .text (percentEncode .controls cs)

/-- The address with another path. -/
def withPath (u : Url) (cs : List Char) : Url :=
  { u with path := u.replacePath cs }

/-- The address with another query, or none. -/
def withQuery (u : Url) (q : Option String) : Url :=
  { u with query := q }

/-- The address without fragment. -/
def withoutFragment (u : Url) : Url :=
  { u with fragment := none }

/-- The address with another scheme, if that may take the place of its own: both are special or neither
is, a file's address is not made of one with an authority, and a special scheme needs a host.  A port
that the new scheme implies is left out. -/
def withScheme? (u : Url) (scheme : String) : Option Url :=
  if isSpecial scheme ≠ isSpecial u.scheme then none
  else if scheme = "file" ∧ u.authority.isSome then none
  else if isSpecial scheme ∧ u.host?.isNone then none
  else
    some { u with
      scheme := scheme
      authority := u.authority.map fun a =>
        { a with port := if a.port = impliedPort scheme then none else a.port } }

/-- The path's text without the slashes at its end. -/
def trimmedPath (u : Url) : List Char :=
  Text.trimEnd '/' u.path.write

end Url

end LiveFeed
