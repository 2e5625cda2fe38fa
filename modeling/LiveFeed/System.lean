import LiveFeed.Hub.Basic
import LiveFeed.Link
import LiveFeed.Socket

/-!
# The whole system

A hub, the link that calls it, the sessions the link opened, and a clock.  What the link causes is
done at once: a frame that announces a topic begins a fan-out, and no run loop takes another turn
before that fan-out has come to its end.

* `System.Event`, `System.step`: all that can happen, one small step at a time;
* `System.turn`: a step of the link with what it causes.

The clock stops at every time that a run loop waits for: `System.pass` refuses to go beyond one.
-/

namespace LiveFeed

/-- A session between the link and the service. -/
structure Session where
  /-- The time it was opened. -/
  opened : Nat
  /-- What the service sent and the link has not read; an error is the end. -/
  inbound : List (Except SocketError String)
  /-- Whether the service will send nothing more. -/
  closed : Bool
  /-- Whether the link still holds it. -/
  held : Bool
  /-- The error that the next frame sent will meet. -/
  fault : Option SocketError
  /-- The frames the link sent with their times, newest first. -/
  sent : List (Nat × String)
  /-- Whether the link closed it. -/
  left : Bool

namespace Session

/-- A session opened at some time. -/
def fresh (now : Nat) : Session := ⟨now, [], false, true, none, [], false⟩

/-- Whether a frame can be sent. -/
def takes (s : Session) : Bool :=
  !s.closed && s.fault.isNone

/-- Sends a frame; the error it meets, if any, is met only once. -/
def send (s : Session) (now : Nat) (frame : String) : Session :=
  if s.takes then { s with sent := (now, frame) :: s.sent } else { s with fault := none }

/-- Whether the link has anything to read: a frame, an error or the end. -/
def hasNews (s : Session) : Bool :=
  !s.inbound.isEmpty || s.closed

end Session

/-- A hub and a link on one clock. -/
structure System (ρ ν : Type) where
  now : Nat
  hub : Hub ρ ν
  link : Link
  /-- Every session ever opened, oldest first. -/
  sessions : List Session
  /-- How often the service was asked for a session. -/
  attempts : Nat
  /-- The statuses the link published, newest first. -/
  published : List LinkStatus

namespace System

variable {ρ ν : Type}

/-- A system at rest. -/
def create (config : LinkConfig) (scheme : String) : System ρ ν :=
  ⟨0, .empty, .create config scheme, [], 0, []⟩

/-- Changes a session. -/
def modifySession (s : System ρ ν) (n : Nat) (f : Session → Session) : System ρ ν :=
  { s with sessions := s.sessions.modify n f }

/-- The session opened last. -/
def newest (s : System ρ ν) : Nat := s.sessions.length - 1

/-- The session a run loop follows. -/
def followed? (s : System ρ ν) (loop : Nat) : Option Session :=
  ((s.link.stageOf loop).session?).bind fun n => s.sessions[n]?

/-- Does what a step of the link causes. -/
def cause (s : System ρ ν) : Link.Effect → System ρ ν
  | .publish status => { s with published := status :: s.published }
  | .announceAll => { s with hub := s.hub.step .notifyAll }
  | .announce t => { s with hub := s.hub.step (.notify t) }
  | .close n => s.modifySession n fun x => { x with left := true }
  | .release n => s.modifySession n fun x => { x with held := false }

/-- A step of the link with all it causes. -/
def turn (s : System ρ ν) (e : Link.Event) : System ρ ν :=
  let (link, effects) := s.link.step s.now e
  effects.foldl cause { s with link := link }

/-- Whether a run loop is attempting to open a session. -/
def isAttempting (s : System ρ ν) (loop : Nat) : Bool :=
  match s.link.stageOf loop with
  | .attempting _ => true
  | _ => false

/-- The service grants an attempt a session. -/
def grant (s : System ρ ν) (loop : Nat) : System ρ ν :=
  if s.isAttempting loop then
    { s with attempts := s.attempts + 1, sessions := s.sessions ++ [Session.fresh s.now] }.turn
      (.opened loop s.sessions.length)
  else s

/-- The service, or the way to it, denies an attempt. -/
def deny (s : System ρ ν) (loop : Nat) (e : SocketError) : System ρ ν :=
  if s.isAttempting loop then
    { s with attempts := s.attempts + 1 }.turn (.refused loop e)
  else s

/-- A run loop reads what its session has next. -/
def read (s : System ρ ν) (loop : Nat) : System ρ ν :=
  match s.link.stageOf loop with
  | .live n _ =>
    match s.sessions[n]? with
    | none => s
    | some x =>
      match x.inbound with
      | .ok frame :: rest =>
        (s.modifySession n fun x => { x with inbound := rest }).turn (.received loop frame)
      -- Which error it is does not matter: none ends more than the session.
      | .error _ :: _ => s.turn (.lost loop)
      | [] => if x.closed then s.turn (.lost loop) else s
  | _ => s

/-- A run loop gives the sign of life that is due. -/
def beat (s : System ρ ν) (loop : Nat) : System ρ ν :=
  match s.link.stageOf loop with
  | .live n due =>
    match s.sessions[n]? with
    | none => s
    | some x =>
      if s.now < due then s
      else
        -- Whether the frame gets through is a matter of the session as it was.
        (s.modifySession n fun x => x.send s.now Link.heartbeatFrame).turn (.beat loop x.takes)
  | _ => s

/-- Lets time pass up to a later time, but not beyond one that a run loop waits for. -/
def pass (s : System ρ ν) (time : Nat) : System ρ ν :=
  if s.now ≤ time ∧ s.link.loops.all (fun r => r.stage.due?.all fun due => time ≤ due) then
    { s with now := time }
  else s

/-- What can happen to a system. -/
inductive Event (ρ ν : Type) where
  | hub (e : Hub.Event ρ ν)
  | connect
  | dispose
  | disposed (loop : Nat)
  | drop
  | start (loop : Nat)
  | grant (loop : Nat)
  | follow (loop : Nat)
  | deny (loop : Nat) (error : SocketError)
  | read (loop : Nat)
  | beat (loop : Nat)
  | resume (loop : Nat)
  | stop (loop : Nat)
  /-- The service sends something on a session. -/
  | deliver (session : Nat) (message : Message)
  /-- A session breaks off, before what was sent on it is read. -/
  | breakOff (session : Nat) (error : SocketError)
  /-- The service closes a session. -/
  | close (session : Nat)
  /-- The next frame sent on a session will meet an error. -/
  | jam (session : Nat) (error : SocketError)
  | pass (time : Nat)

/-- Whether a session can still bring something to the link. -/
def isReachable (s : System ρ ν) (n : Nat) : Bool :=
  match s.sessions[n]? with
  | none => false
  | some x => x.held

/-- Whether the service can send on a session. -/
def serves (s : System ρ ν) (n : Nat) : Bool :=
  match s.sessions[n]? with
  | none => false
  | some x => x.held && !x.closed

/-- Whether the service can send on the session opened last. -/
def isOpen (s : System ρ ν) : Bool :=
  s.serves s.newest

/-- A turn of a run loop; none takes one while a fan-out is in progress. -/
def whenIdle (s : System ρ ν) (next : System ρ ν) : System ρ ν :=
  if s.hub.fanOuts.isEmpty then next else s

/-- One step of a system.  What cannot happen changes nothing. -/
def step (s : System ρ ν) : Event ρ ν → System ρ ν
  | .hub e => { s with hub := s.hub.step e }
  | .connect => s.turn .connect
  | .dispose => s.turn .dispose
  | .disposed loop => s.turn (.disposed loop)
  | .drop => s.turn .drop
  | .start loop => s.whenIdle (s.turn (.start loop))
  | .grant loop => s.whenIdle (s.grant loop)
  | .follow loop => s.whenIdle (s.turn (.follow loop))
  | .deny loop e => s.whenIdle (s.deny loop e)
  | .read loop => s.whenIdle (s.read loop)
  | .beat loop => s.whenIdle (s.beat loop)
  | .resume loop => s.whenIdle (s.turn (.resume loop))
  | .stop loop => s.whenIdle (s.turn (.stop loop))
  | .deliver n m =>
    if s.serves n then s.modifySession n fun x => { x with inbound := x.inbound ++ m.reading.toList }
    else s
  | .breakOff n e =>
    if s.isReachable n then s.modifySession n fun x => { x with inbound := .error e :: x.inbound }
    else s
  | .close n => s.modifySession n fun x => { x with closed := true }
  | .jam n e => s.modifySession n fun x => { x with fault := some e }
  | .pass time => s.pass time

/-- A run of a system. -/
def run (s : System ρ ν) (events : List (Event ρ ν)) : System ρ ν :=
  events.foldl step s

end System

end LiveFeed
