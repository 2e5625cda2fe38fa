import LiveFeed.Banner
import LiveFeed.Config
import LiveFeed.Stores
import LiveFeed.Vault

/-!
# Watching

To watch is to observe the chosen resources, to print what is fetched for them and to keep the link
connected until it gives up.

* `Watch.choose`: the resources that are watched, each once and in the order of their labels;
* `Watch.setUp`: everything that can fail before the first request;
* `Watch.attend`: the link's attempts up to some time.
-/

namespace LiveFeed.Watch

/-- The resources watched when none is named. -/
def standard : List Resource :=
  Resource.all.filter fun r => r ≠ .apodImage

/-- The order of labels. -/
def labelLe (a b : Resource) : Bool :=
  decide (a.label ≤ b.label)

/-- The resources to watch: those named, or else all lists.  The picture needs a date. -/
def choose (named : List Resource) (dated : Bool) : Except Failure (List Resource) :=
  -- An empty list of names stands for all lists, which never include the picture.
  let chosen := if named.isEmpty then standard else named
  if .apodImage ∈ chosen ∧ !dated then .error .pictureWithoutDate
  else .ok (chosen.mergeSort labelLe).eraseReps

/-- What it takes to watch. -/
structure Setup where
  settings : ClientSettings
  client : Client
  /-- The address of the update socket. -/
  address : Url
  resources : List Resource

/-- Whether there is a token, as the banner tells it. -/
def authStatus (token : Option String) : String :=
  if token.isSome then "token ✓" else "no token (cookie-less requests will be rejected)"

/-- Prepares to watch. -/
def setUp (settings : ClientSettings) (place : Vault.Location) (env : Option String)
    (named : List Resource) (date : Option String) : Except Failure Setup := do
  let resources ← choose named date.isSome
  let token ← Vault.resolve place settings.backend env
  let client ← Client.create settings.backend token
  match updateAddress settings.backend token with
  | .error e => .error (.socket e)
  | .ok address => .ok ⟨settings, client, address, resources⟩

/-- The banner of a watch. -/
def Setup.banner (s : Setup) (database : String) : Banner where
  backend := s.settings.backend.write
  authStatus := authStatus s.client.token
  database := database
  resources := s.resources.map Resource.label

/-! ## What is printed -/

/-- A value as it is printed. -/
def shown (v : Resource.Value) : String :=
  match v with
  | ⟨.apods, entries⟩ => "\n".intercalate (entries.map fun a => a.date ++ "  " ++ a.title)
  | ⟨.apodImage, picture⟩ => toString picture.image.utf8ByteSize ++ " bytes of base64 image data"
  | v => v.json.indented

/-- A value under the label of its resource. -/
def printed (v : Resource.Value) : String :=
  "── " ++ v.resource.label ++ " ──\n" ++ shown v ++ "\n\n"

/-- Fetches the resources, and the picture of a date after them, and prints what was fetched. -/
def fetchAll (s : Setup) (date : Option String) (n : Network) : String × Network :=
  let observed := (s.resources.foldl Stores.observe (.create s.client n)).settle
  let first := String.join ((s.resources.filterMap observed.value?).map printed)
  match date with
  | none => (first, observed.network)
  | some d =>
    let dated := (observed.setDate d).settle
    let picture := if .apodImage ∈ s.resources then dated.value? .apodImage else none
    (first ++ (picture.map printed).getD "", dated.network)

/-! ## The link -/

/-- Where the link stands after some time. -/
inductive Ending where
  /-- It gave up. -/
  | stopped (reason : String)
  /-- It is still trying, or connected. -/
  | goingOn
  deriving DecidableEq, Repr

/-- What the log says of an attempt. -/
inductive Note where
  | connected
  /-- It failed and another one will follow. -/
  | failed
  /-- It failed and was the last one allowed. -/
  | exhausted
  /-- It was refused for good. -/
  | refused
  deriving DecidableEq, Repr

namespace Note

/-- The wording of a note. -/
def text : Note → String
  | connected => "updater connected"
  | failed => "updater connection failed"
  | exhausted => "updater unreachable, giving up"
  | refused => "updater connection refused, giving up"

/-- How much must be logged for a note to be written; warnings always are. -/
def verbosity : Note → Nat
  | connected => 1
  | _ => 0

end Note

/-- What came of the link's attempts. -/
structure Attendance where
  ending : Ending
  notes : List Note
  network : Network

/-- The first run loop of a link makes its attempts, a number of them at most, up to a time. -/
def attempt :
    Nat → System Wanted Resource.Value → Url → Nat → Network → List Note → Attendance
  | 0, _, _, _, n, notes => ⟨.goingOn, notes, n⟩
  | k + 1, s, address, horizon, n, notes =>
    let (answer, n) := n.handshake address
    match answer with
    | .ok () => ⟨.goingOn, notes ++ [.connected], n⟩
    | .error e =>
      let s := s.step (.deny 0 e)
      match s.link.status, (s.link.stageOf 0).due? with
      | .failed reason, _ =>
        ⟨.stopped reason, notes ++ [if e.isPermanent then .refused else .exhausted], n⟩
      | _, some due =>
        if horizon < due then ⟨.goingOn, notes ++ [.failed], n⟩
        else
          attempt k ((s.step (.pass due)).step (.resume 0)) address horizon n (notes ++ [.failed])
      | _, none => ⟨.goingOn, notes, n⟩

/-- The link tries to connect, up to a time. -/
def attend (s : Setup) (horizon : Nat) (n : Network) : Attendance :=
  let system : System Wanted Resource.Value := .create s.settings.link s.address.scheme
  attempt (horizon + 1) ((system.step .connect).step (.start 0)) s.address horizon n []

end LiveFeed.Watch
