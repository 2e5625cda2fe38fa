import LiveFeed.Url.Reader

/-!
# Origins

Two addresses belong together when they have the same origin: scheme, host and port.  Only the schemes
of the network have one; an address whose path is itself an address has the origin of the inner one.
Every other origin is opaque and written `null`.
-/

namespace LiveFeed.Url

/-- The origin of an address. -/
inductive Origin where
  | tuple (scheme : String) (host : Host) (port : Nat)
  | hidden
  deriving DecidableEq, Repr

/-- The spelling of an origin; the port that the scheme implies is left out. -/
def Origin.write : Origin → String
  | hidden => "null"
  | tuple scheme host port =>
    scheme ++ "://" ++ host.write ++
      (if impliedPort scheme = some port then "" else ":" ++ toString port)

/-- The origin of an address that wraps no other. -/
def plainOrigin (u : Url) : Origin :=
  match impliedPort u.scheme, u.host?, u.effectivePort with
  | some _, some host, some port => .tuple u.scheme host port
  | _, _, _ => .hidden

/-- The origin of an address, through at most `layers` wrappings. -/
def originWithin : (layers : Nat) → Url → Origin
  | 0, _ => .hidden
  | layers + 1, u =>
    if u.scheme = "blob" then
      match read u.pathText with
      | .ok inner => originWithin layers inner
      | .error _ => .hidden
    else plainOrigin u

/-- The origin of an address; each wrapping takes some of the text. -/
def origin (u : Url) : Origin :=
  originWithin (u.pathText.length + 1) u

end LiveFeed.Url
