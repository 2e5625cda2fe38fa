import LiveFeed.Address
import LiveFeed.Config

/-!
# The link

The link keeps one update socket open.  `connect` starts a run loop, which attempts to open a
session, follows it until it ends, waits, and attempts again; it gives up on a permanent error or
after too many failures in a row.  `dispose` asks the loop to stop and waits for it, so other calls
may come between its two halves.

* `Link.Event`, `Link.step`: all that can happen to a link, with what each step causes;
* `Link.refusal`: what follows from a failed attempt.

Times are in milliseconds of one clock.
-/

namespace LiveFeed

/-- What the link tells of itself. -/
inductive LinkStatus where
  | idle
  | connecting
  | connected
  | reconnecting
  | failed (reason : String)
  | disposed
  deriving DecidableEq, Repr

/-- The name of a status, with the reason of a failure. -/
def LinkStatus.text : LinkStatus → String
  | idle => "Idle"
  | connecting => "Connecting"
  | connected => "Connected"
  | reconnecting => "Reconnecting"
  | failed reason => "Failed: " ++ reason
  | disposed => "Disposed"

/-- Whether no connection will come any more. -/
def LinkStatus.isFinal : LinkStatus → Bool
  | failed _ => true
  | disposed => true
  | _ => false

/-- Where a run loop stands. -/
inductive Stage where
  /-- Started, and not yet run. -/
  | starting
  | attempting (since : Nat)
  /-- A session was opened at `since` and everything is being announced; no sign of life is planned
  yet. -/
  | opening (session since : Nat)
  /-- Following a session; the next sign of life is due at `beat`. -/
  | live (session beat : Nat)
  /-- Waiting for the time of the next attempt. -/
  | pausing (due : Nat)
  | ended
  /-- Broken off by arithmetic that has no result. -/
  | crashed
  deriving DecidableEq, Repr

namespace Stage

/-- Whether a run loop will do nothing more. -/
def isDone : Stage → Bool
  | ended => true
  | crashed => true
  | _ => false

/-- Whether a run loop waits for something, and would notice being asked to stop. -/
def isWaiting : Stage → Bool
  | attempting _ => true
  | live _ _ => true
  | pausing _ => true
  | _ => false

/-- The session a run loop holds. -/
def session? : Stage → Option Nat
  | opening session _ => some session
  | live session _ => some session
  | _ => none

/-- The time a run loop waits for; while it announces everything, the clock stands still. -/
def due? : Stage → Option Nat
  | opening _ since => some since
  | live _ beat => some beat
  | pausing due => some due
  | _ => none

end Stage

/-- A run loop. -/
structure RunLoop where
  stage : Stage
  /-- How many attempts failed in a row. -/
  failures : UInt32
  /-- Whether it was asked to stop. -/
  stopping : Bool
  deriving DecidableEq, Repr

/-- A run loop that has just been started. -/
def RunLoop.fresh : RunLoop := ⟨.starting, 0, false⟩

/-- The owner of the update socket. -/
structure Link where
  config : LinkConfig
  /-- The scheme of the socket's address. -/
  scheme : String
  status : LinkStatus
  /-- Every run loop ever started. -/
  loops : List RunLoop
  /-- The loop that `connect` found running or started. -/
  running : Option Nat
  /-- The loops that calls of `dispose` wait for. -/
  disposing : List Nat
  /-- Whether nobody holds the link any more. -/
  dropped : Bool
  deriving DecidableEq, Repr

namespace Link

/-- A link that was never connected; no time at all between signs of life means the default. -/
def create (config : LinkConfig) (scheme : String) : Link where
  config := { config with
    heartbeat := if config.heartbeat = 0 then LinkConfig.default.heartbeat else config.heartbeat }
  scheme := scheme
  status := .idle
  loops := []
  running := none
  disposing := []
  dropped := false

/-- What a step of the link causes outside of it. -/
inductive Effect where
  /-- A status is published. -/
  | publish (status : LinkStatus)
  /-- Everything registered is called. -/
  | announceAll
  /-- What is registered under a topic is called. -/
  | announce (topic : Topic)
  /-- The client closes its side of a session. -/
  | close (session : Nat)
  /-- The client lets go of a session. -/
  | release (session : Nat)
  deriving DecidableEq, Repr

/-- What can happen to a link: calls of its owner, and turns of a run loop. -/
inductive Event where
  | connect
  | dispose
  /-- A call of `dispose` returns that waited for a loop. -/
  | disposed (loop : Nat)
  | drop
  /-- A loop runs for the first time. -/
  | start (loop : Nat)
  | opened (loop session : Nat)
  /-- Everything was announced and a loop begins to follow its session. -/
  | follow (loop : Nat)
  | refused (loop : Nat) (error : SocketError)
  | received (loop : Nat) (frame : String)
  /-- The session yields an error or comes to its end. -/
  | lost (loop : Nat)
  /-- A sign of life was due and was sent, or could not be. -/
  | beat (loop : Nat) (sent : Bool)
  /-- The pause is over. -/
  | resume (loop : Nat)
  /-- A loop does as it was asked. -/
  | stop (loop : Nat)

/-- The frame that is a sign of life. -/
def heartbeatFrame : String := "heartbeat"

/-- The first time, in milliseconds, that the clock cannot name: its seconds are signed and have 64
bits. -/
def clockLimit : Nat := 9223372036854775808 * 1000

/-- The link with another status. -/
def publish (l : Link) (status : LinkStatus) : Link × List Effect :=
  ({ l with status := status }, [.publish status])

/-- Changes a run loop. -/
def modifyLoop (l : Link) (n : Nat) (f : RunLoop → RunLoop) : Link :=
  { l with loops := l.loops.modify n f }

/-- Moves a run loop to another stage. -/
def moveTo (l : Link) (n : Nat) (stage : Stage) : Link :=
  l.modifyLoop n fun r => { r with stage := stage }

/-- Where a run loop stands; a loop that was never started stands at its end. -/
def stageOf (l : Link) (n : Nat) : Stage :=
  ((l.loops[n]?).map (·.stage)).getD .ended

/-- Whether a run loop was asked to stop. -/
def isStopping (l : Link) (n : Nat) : Bool :=
  (l.loops[n]?).any (·.stopping)

/-! ## Calls of the owner -/

/-- Starts a run loop, unless one is running or the status is final.  An address that no socket can
be opened at is a failure for good. -/
def connect (l : Link) : Link × List Effect :=
  if l.dropped ∨ l.running.isSome ∨ l.status.isFinal then (l, [])
  else if !isSocketScheme l.scheme then
    l.publish (.failed (SocketError.unsupportedScheme l.scheme).message)
  else ({ l with loops := l.loops ++ [.fresh], running := some l.loops.length }, [])

/-- Asks the running loop to stop and begins to wait for it; without one, disposes at once. -/
def dispose (l : Link) : Link × List Effect :=
  if l.dropped then (l, [])
  else
    match l.running with
    | none => l.publish .disposed
    | some n =>
      -- From here on a call of `connect` finds no loop running.
      ({ l.modifyLoop n (fun r => { r with stopping := true }) with
          running := none
          disposing := l.disposing ++ [n] }, [])

/-- Returns from waiting for a loop that has come to its end. -/
def disposed (l : Link) (n : Nat) : Link × List Effect :=
  if n ∈ l.disposing ∧ (l.stageOf n).isDone then
    { l with disposing := l.disposing.erase n }.publish .disposed
  else (l, [])

/-- Lets go of the link, which asks the running loop to stop. -/
def drop (l : Link) : Link × List Effect :=
  let dropped := { l with dropped := true, running := none }
  match l.running with
  | none => (dropped, [])
  | some n => (dropped.modifyLoop n fun r => { r with stopping := true }, [])

/-! ## Turns of a run loop -/

/-- What follows from an attempt that failed. -/
inductive Refusal where
  | giveUp (reason : String)
  /-- Another attempt follows; this many have failed in a row. -/
  | retry (failures : UInt32)
  /-- The failures can no longer be counted. -/
  | crash
  deriving DecidableEq, Repr

/-- The reason to give up after a number of failures. -/
def exhausted (failures : Nat) (e : SocketError) : String :=
  "gave up after " ++ toString failures ++ " attempts: " ++ e.message

/-- What follows from a failed attempt after others: a permanent error ends it, and so does the
failure that reaches the limit. -/
def refusal (limit : Option Nat) (failures : UInt32) (e : SocketError) : Refusal :=
  if e.isPermanent then .giveUp e.message
  else if failures.toNat + 1 = UInt32.size then .crash
  else
    match limit with
    | none => .retry (failures + 1)
    | some n =>
      if n ≤ failures.toNat + 1 then .giveUp (exhausted (failures.toNat + 1) e)
      else .retry (failures + 1)

/-- A loop begins its first attempt. -/
def start (l : Link) (now n : Nat) : Link × List Effect :=
  match l.stageOf n with
  | .starting => (l.moveTo n (.attempting now)).publish .connecting
  | _ => (l, [])

/-- An attempt opened a session.  Whatever changed in the meantime is announced at once. -/
def opened (l : Link) (now n session : Nat) : Link × List Effect :=
  match l.stageOf n with
  | .attempting _ =>
    ({ l.modifyLoop n (fun r => { r with stage := .opening session now, failures := 0 }) with
        status := .connected }, [.publish .connected, .announceAll])
  | _ => (l, [])

/-- Everything was announced, and the first sign of life is planned.  A time beyond the clock breaks
off the loop with the status left as it is. -/
def follow (l : Link) (now n : Nat) : Link × List Effect :=
  match l.stageOf n with
  | .opening session _ =>
    let beat := now + l.config.heartbeat
    if beat < clockLimit then (l.moveTo n (.live session beat), [])
    else (l.moveTo n .crashed, [.release session])
  | _ => (l, [])

/-- An attempt failed. -/
def refused (l : Link) (now n : Nat) (e : SocketError) : Link × List Effect :=
  match l.stageOf n, l.loops[n]? with
  | .attempting _, some r =>
    match refusal l.config.limit r.failures e with
    | .giveUp reason => (l.moveTo n .ended).publish (.failed reason)
    | .crash => (l.moveTo n .crashed, [])
    | .retry failures =>
      (l.modifyLoop n fun r => { r with
        stage := .pausing (now + l.config.pause), failures := failures }).publish .reconnecting
  | _, _ => (l, [])

/-- A frame of the session arrived; one that announces no topic is passed over. -/
def received (l : Link) (n : Nat) (frame : String) : Link × List Effect :=
  match l.stageOf n with
  | .live _ _ =>
    match Topic.ofFrame frame with
    | .ok t => (l, [.announce t])
    | .error _ => (l, [])
  | _ => (l, [])

/-- A session ended and another attempt will follow after the pause. -/
def lose (l : Link) (now n session : Nat) : Link × List Effect :=
  ({ l.moveTo n (.pausing (now + l.config.pause)) with status := .reconnecting },
    [.release session, .publish .reconnecting])

/-- The session came to its end. -/
def lost (l : Link) (now n : Nat) : Link × List Effect :=
  match l.stageOf n with
  | .live session _ => l.lose now n session
  | _ => (l, [])

/-- A sign of life was due. -/
def beat (l : Link) (now n : Nat) (sent : Bool) : Link × List Effect :=
  match l.stageOf n with
  | .live session due =>
    if now < due then (l, [])
    -- A beat that comes late moves the following ones.
    else if sent then (l.moveTo n (.live session (now + l.config.heartbeat)), [])
    else l.lose now n session
  | _ => (l, [])

/-- The pause is over and another attempt begins. -/
def resume (l : Link) (now n : Nat) : Link × List Effect :=
  match l.stageOf n with
  | .pausing due =>
    if now < due then (l, []) else (l.moveTo n (.attempting now)).publish .connecting
  | _ => (l, [])

/-- A loop stops because it was asked to. -/
def stop (l : Link) (n : Nat) : Link × List Effect :=
  if !l.isStopping n then (l, [])
  else
    match l.stageOf n with
    | .attempting _ => (l.moveTo n .ended).publish .disposed
    | .pausing _ => (l.moveTo n .ended).publish .disposed
    | .live session _ =>
      ({ l.moveTo n .ended with status := .disposed },
        [.close session, .release session, .publish .disposed])
    | _ => (l, [])

/-- One step of a link at a time of the clock.  What cannot happen changes nothing. -/
def step (now : Nat) (l : Link) : Event → Link × List Effect
  | .connect => l.connect
  | .dispose => l.dispose
  | .disposed n => l.disposed n
  | .drop => l.drop
  | .start n => l.start now n
  | .opened n session => l.opened now n session
  | .follow n => l.follow now n
  | .refused n e => l.refused now n e
  | .received n frame => l.received n frame
  | .lost n => l.lost now n
  | .beat n sent => l.beat now n sent
  | .resume n => l.resume now n
  | .stop n => l.stop n

end Link

end LiveFeed
