import LiveFeed.SocketError
import LiveFeed.Url.Origin

/-!
# Addresses of the service

Everything the client asks for is derived from one base address: the update socket, the endpoints of
requests, and the origin that credentials are filed under.

* `updatePath`, `updateAddress`: the socket below the base's path, with the token in the query;
* `redacted`: an address as it may be logged;
* `endpoint`: a request's path below the base's path;
* `originKey`: the name credentials are filed under.
-/

namespace LiveFeed

/-- Path of the update socket below the base. -/
def updatePath : String := "/ws/updater"

/-- The scheme of the socket for a base's scheme. -/
def socketScheme? (scheme : String) : Option String :=
  if scheme = "http" ∨ scheme = "ws" then some "ws"
  else if scheme = "https" ∨ scheme = "wss" then some "wss"
  else none

/-- Whether a socket can be opened at an address with this scheme. -/
def isSocketScheme (scheme : String) : Bool :=
  scheme == "ws" || scheme == "wss"

/-- The base under the socket's scheme, with the socket's path below its own and nothing behind that. -/
def socketBase? (base : Url) (scheme : String) : Option Url :=
  (base.withScheme? scheme).map fun u =>
    ((u.withPath (base.trimmedPath ++ updatePath.toList)).withQuery none).withoutFragment

/-- The address of the update socket. -/
def updateAddress (base : Url) (token : Option String) : Except SocketError Url :=
  match (socketScheme? base.scheme).bind (socketBase? base) with
  | none => .error (.unsupportedScheme base.scheme)
  | some u => .ok (u.withQuery (token.map (Url.formPair "token")))

/-- An address without its query, which may hold a token. -/
def redacted (u : Url) : String :=
  (u.withQuery none).write

/-- The address of a request's path. -/
def endpoint (base : Url) (path : String) : Url :=
  base.withPath (base.trimmedPath ++ '/' :: path.toList.dropWhile (· == '/'))

/-- The name under which credentials for a service are filed. -/
def originKey (u : Url) : String :=
  u.origin.write

end LiveFeed
