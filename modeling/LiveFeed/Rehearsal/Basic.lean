import LiveFeed.System
import LiveFeed.Rehearsal.Script

/-!
# The state of a rehearsal

A system, the names its parts go by, what the service will do, and what is to run next.  Everything
that is ready runs in the order in which it became ready; timers that are due at one time fire in the
order in which they were set.

* `Rehearsal.play`: runs the fan-outs in progress with the acts of their callbacks;
* `Rehearsal.budget`: a bound on how many steps that takes;
* `Rehearsal.perform`: an act.
-/

namespace LiveFeed

namespace Rehearsal

/-- A callback by name. -/
structure Part where
  name : String
  topic : Topic
  /-- The number of its registration. -/
  id : Nat
  acts : List Act
  /-- In how many more calls it performs its acts. -/
  left : Nat

/-- A cell by name. -/
structure Role where
  name : String
  script : List Plan
  /-- How many fetches ran to their end. -/
  finished : Nat
  /-- How many updates returned. -/
  returned : Nat

/-- Something that can run. -/
inductive Task where
  /-- A fetch begins, or takes notice of having been given up. -/
  | depart (cell generation : Nat)
  /-- A fetch ends. -/
  | arrive (cell generation : Nat)
  /-- An update returns. -/
  | join (cell generation : Nat)
  | loop (index : Nat)
  deriving DecidableEq, Repr

/-- A task that will be ready at some time. -/
structure Timer where
  due : Nat
  task : Task
  deriving DecidableEq, Repr

end Rehearsal

/-- A scripted run of a whole system. -/
structure Rehearsal where
  system : System Rehearsal.Plan String
  /-- The callbacks, by their labels. -/
  parts : List Rehearsal.Part
  /-- What the running callbacks still have to perform, innermost first. -/
  bodies : List (List Rehearsal.Act)
  /-- The cells, by their indices. -/
  roles : List Rehearsal.Role
  /-- The names of the observers. -/
  views : List (String × Nat)
  /-- The errors of the next attempts. -/
  refusals : List SocketError
  /-- How long an attempt takes from now on. -/
  delay : Nat
  /-- When the attempt under way comes before the service. -/
  askAt : Nat
  ready : List Rehearsal.Task
  timers : List Rehearsal.Timer
  /-- The callbacks called in this step, with their topics. -/
  called : List (Topic × String)
  /-- The count of the fan-out that ended last. -/
  counted : Nat

namespace Rehearsal

/-- Before the first step. -/
def create (config : LinkConfig) (scheme : String) : Rehearsal where
  system := .create config scheme
  parts := []
  bodies := []
  roles := []
  views := []
  refusals := []
  delay := 0
  askAt := 0
  ready := []
  timers := []
  called := []
  counted := 0

/-- The hub of the system. -/
def hub (r : Rehearsal) : Hub Plan String := r.system.hub

/-- The link of the system. -/
def link (r : Rehearsal) : Link := r.system.link

/-- The time of the clock. -/
def now (r : Rehearsal) : Nat := r.system.now

/-! ## Tasks -/

/-- Makes a task ready, unless it is. -/
def wake (r : Rehearsal) (task : Task) : Rehearsal :=
  if task ∈ r.ready then r else { r with ready := r.ready ++ [task] }

/-- Makes every run loop ready that is not at its end. -/
def wakeLoops (r : Rehearsal) : Rehearsal :=
  (List.range r.link.loops.length).foldl
    (fun r n => if (r.link.stageOf n).isDone then r else r.wake (.loop n)) r

/-- Sets a timer in place of the task's other one; a timer that is set already keeps its place. -/
def arm (r : Rehearsal) (due : Nat) (task : Task) : Rehearsal :=
  if ⟨due, task⟩ ∈ r.timers then r
  else { r with timers := r.timers.filter (fun t => t.task ≠ task) ++ [⟨due, task⟩] }

/-- The tasks that a step of the hub makes ready: the fetches it issued, and those it gave up. -/
def departures (before after : Hub Plan String) : List Task :=
  (after.cells.zipIdx).flatMap fun (c, i) =>
    match before.cells[i]? with
    | none => []
    | some b =>
      -- A fetch that was given up is run once more, to let its update go.
      if b.generation < c.generation then
        .depart i c.generation ::
          (b.flights.filter fun f => !c.isFlying f.generation).map fun f => .depart i f.generation
      else []

/-- A step of the system. -/
def step (r : Rehearsal) (e : System.Event Plan String) : Rehearsal :=
  let system := r.system.step e
  (departures r.hub system.hub).foldl wake { r with system := system }

/-- A step of the hub. -/
def hubStep (r : Rehearsal) (e : Hub.Event Plan String) : Rehearsal :=
  r.step (.hub e)

/-! ## Names -/

/-- The index of the newest cell of a name, as long as its owner holds it. -/
def cellNamed? (r : Rehearsal) (name : String) : Option Nat :=
  match (r.roles.zipIdx).reverse.find? fun (role, _) => role.name = name with
  | none => none
  | some (_, i) => if (r.hub.cells[i]?).any (·.owned) then some i else none

/-- The newest callback of a name. -/
def partNamed? (r : Rehearsal) (name : String) : Option Part :=
  r.parts.reverse.find? fun p => p.name = name

/-- What the next fetch of a cell will do. -/
def planFor (r : Rehearsal) (i : Nat) : Plan :=
  match r.roles[i]?, r.hub.cells[i]? with
  | some role, some c => Plan.pick role.script c.generation
  | _, _ => .nothing

/-! ## Acts -/

/-- Ends the observation of a name. -/
def unobserve (r : Rehearsal) (observer : String) : Rehearsal × Report :=
  match r.views.lookup observer with
  | none => (r, .flag false)
  | some id =>
    ({ r with views := r.views.filter fun v => v.1 ≠ observer }.hubStep (.unobserve id), .flag true)

/-- Observes a cell; an observation that had the name ends after the new one began. -/
def observe (r : Rehearsal) (cell observer : String) : Rehearsal × Report :=
  match r.cellNamed? cell with
  | none => (r, .nothing)
  | some i =>
    let id := r.hub.nextObserver
    let r := r.hubStep (.observe i (r.planFor i))
    let (r, _) := r.unobserve observer
    let topic := ((r.hub.cells[i]?).map (·.topic)).getD .user
    ({ r with views := (observer, id) :: r.views }, .observed (r.hub.observedValue id) topic)

/-- Performs an act.  A fan-out only begins: `play` runs it. -/
def perform (r : Rehearsal) : Act → Rehearsal × Report
  | .register topic name acts limit =>
    let label := r.parts.length
    let id := r.hub.registry.nextId
    let r := r.hubStep (.register topic label)
    ({ r with parts := r.parts ++ [⟨name, topic, id, acts, limit⟩] }, .nothing)
  | .unregister name topic =>
    match r.partNamed? name with
    | none => (r, .nothing)
    | some p => (r.hubStep (.unregister p.id (topic.getD p.topic)), .nothing)
  | .notify topic => (r.hubStep (.notify topic), .nothing)
  | .notifyAll => (r.hubStep .notifyAll, .nothing)
  | .count topic => (r, .count (r.hub.registry.count topic))
  | .cell name topic script aborting =>
    let r := match r.cellNamed? name with
      | none => r
      | some i => r.hubStep (.disown i)
    let r := r.hubStep (.create topic aborting)
    ({ r with roles := r.roles ++ [⟨name, script, 0, 0⟩] }, .nothing)
  | .disown cell =>
    match r.cellNamed? cell with
    | none => (r, .nothing)
    | some i => (r.hubStep (.disown i), .nothing)
  | .observe cell observer => r.observe cell observer
  | .unobserve observer => r.unobserve observer
  | .look observer => (r, .value ((r.views.lookup observer).bind r.hub.observedValue))
  | .poll observer =>
    match r.views.lookup observer with
    | none => (r, .nothing)
    | some id =>
      if r.hub.hasChanged id then
        (r.hubStep (.poll id), .changed (r.hub.observedValue id))
      else (r, .pending)
  | .update cell =>
    match r.cellNamed? cell with
    | none => (r, .nothing)
    | some i => (r.hubStep (.update i (r.planFor i)), .nothing)
  | .panic => (r, .nothing)

/-! ## Fan-outs -/

/-- The acts that a call of a callback performs, and the callbacks after it. -/
def cue (parts : List Part) (label : Nat) : List Act × List Part :=
  match parts[label]? with
  | none => ([], parts)
  | some p =>
    if p.left = 0 then ([], parts)
    else (p.acts, parts.modify label fun p => { p with left := p.left - 1 })

/-- Calls the next callback of the innermost fan-out. -/
def callNext (r : Rehearsal) (callee : Callee) : Rehearsal :=
  match callee with
  | .cell i => r.hubStep (.call (r.planFor i))
  | .plain label =>
    let (acts, parts) := cue r.parts label
    let called := match r.parts[label]? with
      | none => r.called
      | some p => r.called ++ [(p.topic, p.name)]
    let r := r.hubStep (.call .nothing)
    { r with bodies := acts :: r.bodies, parts := parts, called := called }

/-- The running callback performs its next act or comes to its end. -/
def carryOn (r : Rehearsal) : Rehearsal :=
  match r.bodies with
  | (.panic :: _) :: outer => { r with bodies := outer }.hubStep (.leave true)
  | (a :: acts) :: outer => ({ r with bodies := acts :: outer }.perform a).1
  | _ => { r with bodies := r.bodies.drop 1 }.hubStep (.leave false)

/-- Runs the fan-outs in progress to their end, or for a number of steps. -/
def play : Nat → Rehearsal → Rehearsal
  | 0, r => r
  | n + 1, r =>
    match r.hub.fanOuts with
    | [] => r
    -- A fan-out that a callback began stands on top and ends before the callback goes on.
    | ⟨_, true, _⟩ :: _ => play n r.carryOn
    | ⟨[], false, ran⟩ :: _ => play n { r.hubStep .finish with counted := ran }
    | ⟨next :: _, false, _⟩ :: _ => play n (r.callNext next.callback)

/-- How many acts callbacks can still perform. -/
def potential (r : Rehearsal) : Nat :=
  r.parts.foldl (fun n p => n + p.left * (weights p.acts + 1)) 0 +
    r.bodies.foldl (fun n body => n + weights body) 0

/-- A bound on the steps of the fan-outs in progress: each act begins at most one more, and each
calls at most what is registered by then. -/
def budget (r : Rehearsal) : Nat :=
  let acts := r.potential
  (acts + 2) * (2 * (r.hub.registry.all.length + acts) + 4)

/-- Runs the fan-outs in progress to their end. -/
def playOut (r : Rehearsal) : Rehearsal :=
  r.play r.budget

end Rehearsal

end LiveFeed
