import LiveFeed.Client
import LiveFeed.Proofs.SocketAddresses

/-!
# The addresses of requests

A request's path is put below the base's as the socket's is, and scheme and authority are the base's.
What stands behind the base's path stays, though, which the socket's address drops.

* `PlainPath`, `endpoint_eq`: the address of a request in its parts;
* `Client.fixedPaths`: the paths that requests name as they are;
* `RequestAddress`, `request_address`: what a request's address has of the base;
* `query_kept`: a base whose query and fragment end up in the address of a request.
-/

namespace LiveFeed

namespace Client

/-- The paths of requests that no argument has a part in. -/
def fixedPaths : List String :=
  Resource.all.map Resource.path ++ [uuidPath, settingsPath, pictureInfoPath, ratingPath]

end Client

namespace Url

/-- A path that is put below another as it is: one slash, and plain segments. -/
def PlainPath (path : String) (segments : List (List Char)) : Prop :=
  segments ≠ [] ∧ (∀ s ∈ segments, PlainSegment s) ∧ path.toList = writeSegments segments ∧
    '/' :: path.toList.dropWhile (· == '/') = writeSegments segments

instance (path : String) (segments : List (List Char)) : Decidable (PlainPath path segments) :=
  inferInstanceAs (Decidable (_ ∧ _ ∧ _ ∧ _))

/-- The segments of a path that starts with a slash. -/
def segmentsBelow (path : String) : List (List Char) :=
  Text.splitBy PathStyle.special.isSlash (path.toList.drop 1)

theorem plainPath_fixed : ∀ p ∈ Client.fixedPaths, PlainPath p (segmentsBelow p) := by
  decide +kernel

/-- Below an address on the network a plain path is put as it is, and nothing else changes. -/
theorem endpoint_eq {base : Url} (h : NetworkForm base) {p : String} {segments : List (List Char)}
    (hp : PlainPath p segments) :
    endpoint base p = { base with path := .segments (base.kept ++ segments) } := by
  obtain ⟨hne, hplain, -, hbelow⟩ := hp
  rw [endpoint, hbelow, h.withPath_below hne hplain]

/-- What the address of a request has of the base. -/
structure RequestAddress (base : Url) (p : String) : Prop where
  scheme : (endpoint base p).scheme = base.scheme
  /-- User information, host and the port that is written are the base's. -/
  authority : (endpoint base p).authority = base.authority
  port : (endpoint base p).effectivePort = base.effectivePort
  path : (endpoint base p).pathText = String.ofList base.trimmedPath ++ p
  /-- Nothing stands behind the path if and only if nothing stands behind the base's. -/
  bare_iff : (endpoint base p).query = none ∧ (endpoint base p).fragment = none ↔
    base.query = none ∧ base.fragment = none
  /-- The address of the socket is derived alike, but for what stands behind the path. -/
  socket : ∀ token, ∃ u, updateAddress base token = .ok u ∧ u.authority = base.authority ∧
    u.effectivePort = base.effectivePort ∧
    u.pathText = String.ofList base.trimmedPath ++ updatePath ∧
    u.query = token.map (formPair "token") ∧ u.fragment = none

/-- Below an address of the web that was read, every request with a fixed path has the base's scheme,
authority and port, and the path below the base's; it has a query or a fragment only if the base
has. -/
theorem request_address {base : Url} (hread : base.WasRead)
    (hscheme : base.scheme = "http" ∨ base.scheme = "https") {p : String}
    (hp : p ∈ Client.fixedPaths) : RequestAddress base p := by
  have hsocket : ∃ scheme, socketScheme? base.scheme = some scheme := by
    rcases hscheme with h | h <;> rw [h] <;> exact ⟨_, rfl⟩
  obtain ⟨scheme, hsocket⟩ := hsocket
  obtain ⟨s, hs⟩ := hread
  have hform := networkForm_of_read hs (Watch.impliedPort_socketScheme hsocket).2
  have hplain := plainPath_fixed p hp
  have hendpoint := endpoint_eq hform hplain
  have hpath : (endpoint base p).pathText = String.ofList base.trimmedPath ++ p := by
    rw [hendpoint, pathText, hform.pathText_below, ← hplain.2.2.1, String.ofList_toList]
  refine ⟨rfl, rfl, rfl, hpath, Iff.rfl, fun token => ?_⟩
  have hparts := isSocketOf_updateAddress hform hsocket token
  exact ⟨_, updateAddress_eq hform hsocket token, hparts.authority, hparts.port, hparts.path,
    hparts.query, hparts.fragment⟩

theorem request_address_adorned :
    adorned.WasRead ∧ "/auth/passkey/list" ∈ Client.fixedPaths ∧
      (endpoint adorned "/auth/passkey/list").pathText = "/c%2Fd/auth/passkey/list" ∧
      (endpoint adorned "/auth/passkey/list").authority = adorned.authority := by
  have hp : "/auth/passkey/list" ∈ Client.fixedPaths := by decide
  have haddress := request_address wasRead_adorned (.inr rfl) hp
  exact ⟨wasRead_adorned, hp, haddress.path, haddress.authority⟩

/-- A base with a query and a fragment, which every request carries and the socket does not. -/
def queried : Url where
  scheme := "http"
  authority := some ⟨"", none, some (.domain "localhost"), some 8000⟩
  path := .segments ["api".toList, []]
  query := some "a=1"
  fragment := some "f"

theorem query_kept :
    read "http://localhost:8000/api/?a=1#f" = .ok queried ∧
      "/management/user/list" ∈ Client.fixedPaths ∧
      (endpoint queried "/management/user/list").write =
        "http://localhost:8000/api/management/user/list?a=1#f" ∧
      (updateAddress queried none).map write = .ok "ws://localhost:8000/api/ws/updater" :=
  ⟨rfl, by decide, rfl, rfl⟩

end Url

end LiveFeed
