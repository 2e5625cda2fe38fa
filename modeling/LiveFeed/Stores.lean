import LiveFeed.Client
import LiveFeed.System

/-!
# Stores

A live cell for every resource, bound to the topic that announces its changes.  A fetch is a request
to the service; whatever goes wrong with it leaves the value as it was.  The picture's cell asks for
the date that is chosen when a fetch is issued, and choosing another date gives up the fetch before.

* `Stores.Event`, `Stores.step`: all that can happen to the stores, one small step at a time;
* `Stores.ask`, `Stores.take`: a fetch becomes a request, and later its reply a value;
* `Stores.notify`, `Stores.notifyAll`, `Stores.settle`: a whole fan-out, and every fetch to its end.
-/

namespace LiveFeed

/-- What a fetch of a store asks for: the date of the picture, and nothing else. -/
abbrev Wanted := Option String

/-- What came back to the request of a fetch. -/
structure Arrival where
  resource : Resource
  generation : Nat
  landing : Landing Resource.Value

/-- Whether something came back to a fetch of a resource. -/
def Arrival.isOf (a : Arrival) (r : Resource) (generation : Nat) : Bool :=
  a.resource = r && a.generation = generation

/-- The cells of all resources with the client they fetch through. -/
structure Stores where
  system : System Wanted Resource.Value
  client : Client
  network : Network
  /-- The date chosen for the picture. -/
  date : Option String
  /-- What came back to fetches and was not taken yet. -/
  arrivals : List Arrival

namespace Stores

/-- The cell of a resource. -/
def index (r : Resource) : Nat :=
  Resource.all.idxOf r

/-- The resource of a cell. -/
def resourceAt? (i : Nat) : Option Resource :=
  Resource.all[i]?

/-- The stores before anything is fetched. -/
def create (client : Client) (network : Network) : Stores where
  system :=
    { (System.create .default "ws" : System Wanted Resource.Value) with
      hub := Resource.all.foldl (fun h r => h.create r.topic (r = .apodImage)) .empty }
  client := client
  network := network
  date := none
  arrivals := []

/-- The hub of the stores. -/
def hub (s : Stores) : Hub Wanted Resource.Value := s.system.hub

/-- The cell of a resource. -/
def cell? (s : Stores) (r : Resource) : Option (Cell Wanted Resource.Value) :=
  s.hub.cells[index r]?

/-- What is kept for a resource. -/
def value? (s : Stores) (r : Resource) : Option Resource.Value :=
  (s.cell? r).bind (·.value)

/-- How many observers a resource has. -/
def observers (s : Stores) (r : Resource) : Nat :=
  ((s.cell? r).map (·.observers)).getD 0

/-- A step of the hub. -/
def hubStep (s : Stores) (e : Hub.Event Wanted Resource.Value) : Stores :=
  { s with system := s.system.step (.hub e) }

/-- What a fetch of a resource asks for when it is issued. -/
def wanted (s : Stores) (r : Resource) : Wanted :=
  if r = .apodImage then s.date else none

/-- What the fetch of a callee asks for when it is issued. -/
def wantedBy (s : Stores) : Callee → Wanted
  | .cell i => ((resourceAt? i).map s.wanted).getD none
  | .plain _ => none

/-! ## Fan-outs -/

/-- Calls the next callback of the innermost fan-out. -/
def callNext (s : Stores) : Stores :=
  match s.hub.next? with
  | some callee => s.hubStep (.call (s.wantedBy callee))
  | none => s

/-- Calls one callback after the other. -/
def callEach : List (Registration Callee) → Stores → Stores
  | [], s => s
  | _ :: rs, s => callEach rs s.callNext

/-- Runs the fan-out that has just begun, if one has, and tells how many callbacks ran. -/
def runFanOut (s : Stores) : Stores × Nat :=
  match s.hub.fanOuts with
  | [] => (s, 0)
  | f :: _ =>
    let s := callEach f.pending s
    (s.hubStep .finish, ((s.hub.fanOuts.head?).map (·.ran)).getD 0)

/-- Announces a topic. -/
def notify (s : Stores) (t : Topic) : Stores × Nat :=
  (s.hubStep (.notify t)).runFanOut

/-- Announces everything. -/
def notifyAll (s : Stores) : Stores × Nat :=
  (s.hubStep .notifyAll).runFanOut

/-! ## Fetches -/

/-- Begins to observe a resource. -/
def observe (s : Stores) (r : Resource) : Stores :=
  s.hubStep (.observe (index r) (s.wanted r))

/-- Fetches a resource once. -/
def update (s : Stores) (r : Resource) : Stores :=
  s.hubStep (.update (index r) (s.wanted r))

/-- Chooses the date of the picture and fetches it. -/
def setDate (s : Stores) (date : String) : Stores :=
  { s with date := some date }.update .apodImage

/-- What a reply is to a cell: a value, or nothing. -/
def landing (r : Resource) : Option (Outcome r.Carrier) → Landing Resource.Value
  | some (.ok v) => .value ⟨r, v⟩
  | _ => .nothing

/-- The fetch of a generation, if it is on its way. -/
def flight? (s : Stores) (r : Resource) (generation : Nat) : Option (Flight Wanted) :=
  (s.cell? r).bind fun c => c.flights.find? fun f => f.generation = generation

/-- A fetch becomes a request, once; what comes back waits to be taken. -/
def ask (s : Stores) (r : Resource) (generation : Nat) : Stores :=
  match s.flight? r generation with
  | none => s
  | some f =>
    if s.arrivals.any (·.isOf r generation) then s
    else
      let (outcome, network) := s.client.load r f.request s.network
      { s with
        network := network
        arrivals := s.arrivals ++ [⟨r, generation, landing r outcome⟩] }

/-- What came back to a fetch is taken, and the fetch comes to its end. -/
def take (s : Stores) (r : Resource) (generation : Nat) : Stores :=
  match s.arrivals.find? (·.isOf r generation) with
  | none => s
  | some a =>
    { s with arrivals := s.arrivals.filter (!·.isOf r generation) }.hubStep
      (.land (index r) generation a.landing)

/-- An update returns, its fetch having ended or been given up. -/
def join (s : Stores) (r : Resource) (generation : Nat) : Stores :=
  s.hubStep (.join (index r) generation)

/-- A fetch from its request to its end, and the update that waits for it. -/
def complete (s : Stores) (r : Resource) (generation : Nat) : Stores :=
  ((s.ask r generation).take r generation).join r generation

/-- Completes every fetch of a resource, oldest first. -/
def settleOne (s : Stores) (r : Resource) : Stores :=
  (((s.cell? r).map (·.flights)).getD []).foldl (fun s f => s.complete r f.generation) s

/-- Completes every fetch. -/
def settle (s : Stores) : Stores :=
  Resource.all.foldl settleOne s

/-! ## Events -/

/-- What can happen to the stores. -/
inductive Event where
  | observe (resource : Resource)
  | release (observer : Nat)
  | poll (observer : Nat)
  | update (resource : Resource)
  | setDate (date : String)
  | register (topic : Topic) (label : Nat)
  | unregister (id : Nat) (topic : Topic)
  /-- Topics are announced, and the fan-out begins. -/
  | announce (topic : Topic)
  | announceAll
  | call
  | leave (crashed : Bool)
  | finish
  | ask (resource : Resource) (generation : Nat)
  | take (resource : Resource) (generation : Nat)
  | join (resource : Resource) (generation : Nat)

/-- One step of the stores.  What cannot happen changes nothing. -/
def step (s : Stores) : Event → Stores
  | .observe r => s.observe r
  | .release observer => s.hubStep (.unobserve observer)
  | .poll observer => s.hubStep (.poll observer)
  | .update r => s.update r
  | .setDate date => s.setDate date
  | .register t label => s.hubStep (.register t label)
  | .unregister id t => s.hubStep (.unregister id t)
  | .announce t => s.hubStep (.notify t)
  | .announceAll => s.hubStep .notifyAll
  | .call => s.callNext
  | .leave crashed => s.hubStep (.leave crashed)
  | .finish => s.hubStep .finish
  | .ask r generation => s.ask r generation
  | .take r generation => s.take r generation
  | .join r generation => s.join r generation

/-- A run of the stores. -/
def run (s : Stores) (events : List Event) : Stores :=
  events.foldl step s

/-! ## The link -/

/-- Connects the link, which is granted a session at once. -/
def connect (s : Stores) : Stores :=
  let loop := s.system.link.loops.length
  let system := ((s.system.step .connect).step (.start loop)).step (.grant loop)
  let s := ({ s with system := system }.runFanOut).1
  { s with system := s.system.step (.follow loop) }

/-- A frame arrives, unless no session is open. -/
def receive (s : Stores) (frame : String) : Stores :=
  let system := s.system.step (.deliver s.system.newest (.text frame))
  let system := system.step (.read (s.system.link.loops.length - 1))
  ({ s with system := system }.runFanOut).1

end Stores

end LiveFeed
