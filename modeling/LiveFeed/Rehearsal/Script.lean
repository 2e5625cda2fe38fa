import LiveFeed.SocketError

/-!
# Scripts

A rehearsal is a list of steps for a whole system whose service and fetches are scripted.  Acts are
the steps that callbacks can perform too.

* `Act`, `Step`: what is done; `Plan`: what a fetch will bring;
* `Act.weight`: a bound on how many acts an act can set off.
-/

namespace LiveFeed.Rehearsal

/-- What a fetch will do: after a delay it brings a value, or nothing, or breaks off. -/
structure Plan where
  value : Option String
  delay : Nat
  crash : Bool
  deriving DecidableEq, Repr

/-- The fetch that brings nothing. -/
def Plan.nothing : Plan := ⟨none, 0, false⟩

/-- The plan of a fetch after some others: its own, or the last one. -/
def Plan.pick (script : List Plan) (before : Nat) : Plan :=
  match script[before]? with
  | some p => p
  | none => script.getLast?.getD .nothing

/-- Something done to a registry, to cells or to observers.  Things go by names. -/
inductive Act where
  /-- Registers a callback that performs some acts in its first calls. -/
  | register (topic : Topic) (name : String) (acts : List Act) (limit : Nat)
  /-- Removes a callback, from its own topic or from another. -/
  | unregister (name : String) (topic : Option Topic)
  | notify (topic : Topic)
  | notifyAll
  | count (topic : Topic)
  | cell (name : String) (topic : Topic) (script : List Plan) (aborting : Bool)
  | disown (cell : String)
  | observe (cell observer : String)
  | unobserve (observer : String)
  | look (observer : String)
  | poll (observer : String)
  | update (cell : String)
  /-- Breaks off the callback. -/
  | panic

mutual

/-- A bound on how many acts an act can set off, itself included. -/
def Act.weight : Act → Nat
  | .register _ _ acts limit => 1 + limit * (weights acts + 1)
  | .unregister _ _ => 1
  | .notify _ => 1
  | .notifyAll => 1
  | .count _ => 1
  | .cell _ _ _ _ => 1
  | .disown _ => 1
  | .observe _ _ => 1
  | .unobserve _ => 1
  | .look _ => 1
  | .poll _ => 1
  | .update _ => 1
  | .panic => 1

/-- A bound on how many acts a list of acts can set off. -/
def weights : List Act → Nat
  | [] => 0
  | a :: as => a.weight + weights as

end

/-- A step of a rehearsal. -/
inductive Step where
  | act (a : Act)
  | connect
  | dispose
  | drop
  /-- Lets some time pass. -/
  | advance (span : Nat)
  | push (frame : String)
  | close
  /-- The next attempts fail; the list of errors is taken some times over. -/
  | failNext (errors : List SocketError) (times : Nat)
  | sent (session : Nat)
  /-- From now on an attempt takes some time. -/
  | connectDelay (span : Nat)
  | breakOff (error : SocketError)
  | jam (error : SocketError)
  /-- Several steps with nothing running in between. -/
  | batch (steps : List Step)

/-- What a step answers. -/
inductive Report where
  | nothing
  | count (n : Nat)
  | flag (b : Bool)
  | value (v : Option String)
  | observed (value : Option String) (topic : Topic)
  /-- No value was stored since the last one that was asked for. -/
  | pending
  | changed (value : Option String)
  | frames (frames : List String)
  | batch (replies : List Report)

end LiveFeed.Rehearsal
