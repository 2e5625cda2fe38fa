import LiveFeed.Address
import LiveFeed.Text.Blank

/-!
# Requests and replies

The network as the client meets it: either there is no way to the service, or a backend answers each
path from a script.  Redirections are followed the usual way, at most ten of them.

* `Network.ask`: one request, with what came of it after redirections;
* `Backend.answer`: one reply of the script, which it also writes down.
-/

namespace LiveFeed

/-- How something is asked for. -/
inductive Method where
  | get
  | post
  deriving DecidableEq, Repr

/-- The name of a method. -/
def Method.name : Method → String
  | get => "GET"
  | post => "POST"

/-- A request.  A body is JSON text. -/
structure Request where
  method : Method
  url : Url
  body : Option String
  cookie : Option String
  deriving DecidableEq, Repr

/-- A request as the backend saw it. -/
structure SeenRequest where
  method : Method
  /-- Path and query as they were sent. -/
  target : String
  body : String
  cookie : Option String
  contentType : Option String
  deriving DecidableEq, Repr

/-- A scripted reply. -/
structure Reply where
  status : Nat
  /-- The octets of the body. -/
  body : List Nat
  /-- Whether the body ends before its announced length. -/
  cutShort : Bool
  /-- Whether the connection is closed without an answer. -/
  dropped : Bool
  location : Option String
  deriving DecidableEq, Repr

/-- The reply to what no script knows. -/
def Reply.unknown : Reply := ⟨404, [], false, false, none⟩

/-- A final answer. -/
structure Response where
  status : Nat
  /-- The octets of the body, if all of it arrived. -/
  body : Option (List Nat)
  deriving DecidableEq, Repr

/-- A service that answers each path from a script; the last reply to a path stays. -/
structure Backend where
  origin : Url
  routes : List (String × List Reply)
  seen : List SeenRequest
  deriving DecidableEq, Repr

namespace Backend

/-- What a list of replies has first, and the list from then on. -/
def nextReply : List Reply → Reply × List Reply
  | [] => (.unknown, [])
  | [r] => (r, [r])
  | r :: rs => (r, rs)

/-- Takes the reply to a path off the script. -/
def takeReply (path : String) : List (String × List Reply) → Reply × List (String × List Reply)
  | [] => (.unknown, [])
  | (p, rs) :: more =>
    if p = path then
      let (r, rs) := nextReply rs
      (r, (p, rs) :: more)
    else
      let (r, more) := takeReply path more
      (r, (p, rs) :: more)

/-- How a request looks to the backend. -/
def see (r : Request) : SeenRequest where
  method := r.method
  target := r.url.pathText ++ (match r.url.query with
    | none => ""
    | some q => "?" ++ q)
  body := r.body.getD ""
  cookie := r.cookie
  contentType := r.body.map fun _ => "application/json"

/-- Answers a request. -/
def answer (b : Backend) (r : Request) : Reply × Backend :=
  let (reply, routes) := takeReply r.url.pathText b.routes
  (reply, { b with routes := routes, seen := b.seen ++ [see r] })

end Backend

/-- The network. -/
inductive Network where
  /-- No route leads to the service. -/
  | down
  | serving (backend : Backend)

namespace Network

/-- The address that a redirection leads to from another. -/
def redirectTarget (u : Url) (location : String) : Except UrlError Url :=
  match Url.read location with
  | .ok v => .ok v
  | .error .relative =>
    match location.toList with
    | '/' :: '/' :: _ => Url.read (u.scheme ++ ":" ++ location)
    | '/' :: _ =>
      Url.read ({ u with path := .segments [], query := none, fragment := none }.write ++ location)
    | cs =>
      let folder := (u.path.write.reverse.dropWhile (· != '/')).reverse
      Url.read ({ u with path := .segments [], query := none, fragment := none }.write ++
        String.ofList (folder ++ cs))
  | .error e => .error e

/-- Whether a status asks to look elsewhere. -/
def isRedirect (status : Nat) : Bool :=
  status ∈ [301, 302, 303, 307, 308]

/-- The request that follows a redirection: some turn it into a plain one, and another host does not
get the cookie. -/
def redirected (r : Request) (status : Nat) (target : Url) : Request :=
  let same := target.host? == r.url.host? && target.effectivePort == r.url.effectivePort
  let r := if same then r else { r with cookie := none }
  if status = 307 ∨ status = 308 then { r with url := target }
  else { r with url := target, method := .get, body := none }

/-- Sends a request and follows up to `hops` redirections. -/
def follow : (hops : Nat) → Backend → Request → Option Response × Backend
  | hops, b, r =>
    if r.url.origin ≠ b.origin.origin then (none, b)
    else
      let (reply, b) := b.answer r
      if reply.dropped then (none, b)
      else
        let response : Response := ⟨reply.status, if reply.cutShort then none else some reply.body⟩
        match isRedirect reply.status, reply.location with
        | true, some location =>
          match redirectTarget r.url location with
          | .error _ => (some response, b)
          | .ok target =>
            match hops with
            | 0 => (none, b)
            | hops + 1 => follow hops b (redirected r reply.status target)
        | _, _ => (some response, b)

/-- The most redirections that are followed. -/
def redirectLimit : Nat := 10

/-- Sends a request; none comes back if the answer does not. -/
def ask (n : Network) (r : Request) : Option Response × Network :=
  match n with
  | down => (none, down)
  | serving b =>
    let (response, b) := follow redirectLimit b r
    (response, serving b)

/-- What the backend saw so far. -/
def seen : Network → List SeenRequest
  | down => []
  | serving b => b.seen

end Network

end LiveFeed
