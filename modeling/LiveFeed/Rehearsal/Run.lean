import LiveFeed.Rehearsal.Basic

/-!
# Running a rehearsal

Between steps everything that can run at the current time does, until all waits.  Only `advance` moves
the clock, and the clock stops at every timer.

* `Rehearsal.follow`: a turn of a run loop, as far as it gets;
* `Rehearsal.settle`: all that is ready; `Rehearsal.advance`: time passes;
* `Rehearsal.stepOf`: a step with its reply.
-/

namespace LiveFeed.Rehearsal

/-! ## Fetches -/

/-- A fetch comes to its end. -/
def land (r : Rehearsal) (i generation : Nat) (plan : Plan) : Rehearsal :=
  let landing : Landing String :=
    if plan.crash then .crash
    else match plan.value with
      | some v => .value v
      | none => .nothing
  let r := (r.hubStep (.land i generation landing)).wake (.join i generation)
  if plan.crash then r
  else { r with roles := r.roles.modify i fun role => { role with finished := role.finished + 1 } }

/-- The plan of a fetch that is on its way. -/
def flying? (r : Rehearsal) (i generation : Nat) : Option Plan :=
  (r.hub.cells[i]?).bind fun c =>
    (c.flights.find? fun f => f.generation = generation).map (·.request)

/-- A fetch begins: it ends at once or sets a timer.  One that was given up lets its update go. -/
def depart (r : Rehearsal) (i generation : Nat) : Rehearsal :=
  match r.flying? i generation with
  | none => r.wake (.join i generation)
  | some plan =>
    if plan.delay = 0 then r.land i generation plan
    else r.arm (r.now + plan.delay) (.arrive i generation)

/-- A fetch ends, if it was not given up. -/
def arrive (r : Rehearsal) (i generation : Nat) : Rehearsal :=
  match r.flying? i generation with
  | none => r
  | some plan => r.land i generation plan

/-- An update returns, if one waits. -/
def join (r : Rehearsal) (i generation : Nat) : Rehearsal :=
  match r.hub.cells[i]? with
  | none => r
  | some c =>
    if generation ∈ c.awaited then
      let r := r.hubStep (.join i generation)
      { r with roles := r.roles.modify i fun role => { role with returned := role.returned + 1 } }
    else r

/-! ## Run loops -/

/-- An attempt begins. -/
def ask (r : Rehearsal) : Rehearsal :=
  { r with askAt := r.now + r.delay }

/-- The attempt comes before the service, which denies it as long as errors are scripted. -/
def answer (r : Rehearsal) (n : Nat) : Rehearsal :=
  match r.refusals with
  | e :: rest => { r with refusals := rest }.step (.deny n e)
  | [] => (r.step (.grant n)).playOut

/-- A run loop does what it can at the current time, in a number of turns. -/
def follow : Nat → Rehearsal → Nat → Rehearsal
  | 0, r, _ => r
  | k + 1, r, n =>
    -- A loop that has not run yet says that it is connecting before it looks whether to stop, and
    -- one that announces everything finishes that.
    if r.link.isStopping n ∧ (r.link.stageOf n).isWaiting then r.step (.stop n)
    else
      match r.link.stageOf n with
      | .starting => follow k (r.step (.start n)).ask n
      | .attempting _ =>
        if r.now < r.askAt then r.arm r.askAt (.loop n) else follow k (r.answer n) n
      | .opening _ _ => follow k (r.step (.follow n)) n
      | .live _ due =>
        -- What the service sent comes before the sign of life.
        if (r.system.followed? n).any (·.hasNews) then follow k (r.step (.read n)).playOut n
        else if due ≤ r.now then follow k (r.step (.beat n)) n
        else r.arm due (.loop n)
      | .pausing due =>
        if r.now < due then r.arm due (.loop n) else follow k (r.step (.resume n)).ask n
      | .ended => r
      | .crashed => r

/-- A bound on the turns a run loop can take at one time: each error and each thing to read takes
four of them. -/
def patience (r : Rehearsal) : Nat :=
  5 * (r.refusals.length + r.system.sessions.foldl (fun n s => n + s.inbound.length) 0 + 4)

/-! ## Time -/

/-- Runs a task. -/
def runTask (r : Rehearsal) : Task → Rehearsal
  | .depart i generation => r.depart i generation
  | .arrive i generation => r.arrive i generation
  | .join i generation => r.join i generation
  | .loop n => r.follow r.patience n

/-- Runs everything that is ready, in order. -/
def round (r : Rehearsal) : Rehearsal :=
  r.ready.foldl runTask { r with ready := [] }

/-- Runs until everything waits.  A run loop makes fetches ready, a fetch makes an update ready, and
an update nothing, so that four rounds are enough. -/
def settle (r : Rehearsal) : Rehearsal :=
  r.round.round.round.round

/-- The time of the earliest timer. -/
def nextDue (timers : List Timer) : Option Nat :=
  timers.foldl (fun least t => some (least.elim t.due (min t.due))) none

/-- The clock moves on and the timers that are due fire. -/
def moveTo (r : Rehearsal) (time : Nat) : Rehearsal :=
  let due := r.timers.filter fun t => t.due ≤ time
  due.foldl (fun r t => r.wake t.task)
    { r.step (.pass time) with timers := r.timers.filter fun t => time < t.due }

/-- Time passes up to an end, with a stop at every timer. -/
def advanceTo : Nat → Rehearsal → Nat → Rehearsal
  | 0, r, _ => r
  | k + 1, r, stop =>
    match nextDue r.timers with
    | none => r.moveTo stop
    | some due =>
      if due ≤ stop then advanceTo k (r.moveTo due).settle stop else r.moveTo stop

/-- Time passes.  Timers lie ahead, so there are no more stops than units of time. -/
def advance (r : Rehearsal) (span : Nat) : Rehearsal :=
  advanceTo (span + 1) r (r.now + span)

/-! ## Steps -/

/-- Performs an act to its end. -/
def actOf (r : Rehearsal) (a : Act) : Rehearsal × Report :=
  let (r, reply) := r.perform a
  let r := r.playOut
  match a with
  | .notify _ => (r, .count r.counted)
  | .notifyAll => (r, .count r.counted)
  | _ => (r, reply)

/-- Disposes of the link and waits until its run loop has stopped. -/
def dispose (r : Rehearsal) : Rehearsal :=
  let awaited := r.link.running
  let r := (r.step .dispose).wakeLoops.settle
  match awaited with
  | none => r
  | some n => r.step (.disposed n)

/-- The link is connected. -/
def connect (r : Rehearsal) : Rehearsal :=
  (r.step .connect).wakeLoops

mutual

/-- A step with its reply; what it makes ready still waits. -/
def stepOf (r : Rehearsal) : Step → Rehearsal × Report
  | .act a => r.actOf a
  | .connect => (r.connect, .nothing)
  | .dispose => (r.dispose, .nothing)
  | .drop => ((r.step .drop).wakeLoops, .nothing)
  | .advance span => (r.settle.advance span, .nothing)
  | .push frame =>
    ((r.step (.deliver r.system.newest (.text frame))).wakeLoops, .flag r.system.isOpen)
  | .close => ((r.step (.close r.system.newest)).wakeLoops, .nothing)
  | .failNext errors times =>
    ({ r with refusals := r.refusals ++ (List.replicate times errors).flatten }, .nothing)
  | .sent session =>
    (r, .frames (((r.system.sessions[session]?).map fun s => (s.sent.map (·.2)).reverse).getD []))
  | .connectDelay span => ({ r with delay := span }, .nothing)
  | .breakOff e =>
    let n := r.system.newest
    ((r.step (.breakOff n e)).wakeLoops, .flag (r.system.isReachable n))
  | .jam e => (r.step (.jam r.system.newest e), .nothing)
  | .batch steps =>
    let (r, replies) := stepsOf r steps
    (r, .batch replies)

/-- Steps with their replies, and nothing running in between. -/
def stepsOf (r : Rehearsal) : List Step → Rehearsal × List Report
  | [] => (r, [])
  | s :: steps =>
    let (r, reply) := stepOf r s
    let (r, replies) := stepsOf r steps
    (r, reply :: replies)

end

/-- A step of the rehearsal, after which everything waits again. -/
def next (r : Rehearsal) (s : Step) : Rehearsal × Report :=
  let (r, reply) := stepOf { r with called := [] } s
  (r.settle, reply)

end LiveFeed.Rehearsal
