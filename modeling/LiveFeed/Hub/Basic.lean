import LiveFeed.Registry
import LiveFeed.Hub.Cell

/-!
# The hub

One registry, the cells registered in it, their observers, and the fan-outs in progress.  A fan-out
calls what was registered when it began, one callback after the other; a cell that is called issues a
fetch.  While a plain callback runs, everything else may happen, fan-outs of its own included: they
stand on top of the one that called it.

* `Hub.Event`, `Hub.step`: all that can happen to a hub, one small step at a time.
-/

namespace LiveFeed

/-- Whom a registration calls. -/
inductive Callee where
  | cell (index : Nat)
  /-- A callback of somebody else, by a number of theirs. -/
  | plain (label : Nat)
  deriving DecidableEq, Repr

/-- A live view of a cell. -/
structure Observer where
  id : Nat
  cell : Nat
  /-- The version of the cell that was seen last. -/
  seen : Nat
  deriving DecidableEq, Repr

/-- A fan-out in progress. -/
structure FanOut where
  /-- What is still to be called. -/
  pending : List (Registration Callee)
  /-- Whether a plain callback is running. -/
  busy : Bool
  /-- How many callbacks came to their end. -/
  ran : Nat
  deriving DecidableEq, Repr

/-- A registry with its cells, observers and fan-outs. -/
structure Hub (ρ ν : Type) where
  registry : Registry Callee
  /-- The numbers of the callbacks that others registered.  Nobody else's number is known to them. -/
  handed : List Nat
  cells : List (Cell ρ ν)
  observers : List Observer
  /-- The number of the next observer. -/
  nextObserver : Nat
  /-- The fan-outs in progress, innermost first. -/
  fanOuts : List FanOut
  deriving DecidableEq, Repr

namespace Hub

variable {ρ ν : Type}

/-- The hub without cells. -/
def empty : Hub ρ ν := ⟨.empty, [], [], [], 0, []⟩

/-- Changes a cell. -/
def modifyCell (h : Hub ρ ν) (i : Nat) (f : Cell ρ ν → Cell ρ ν) : Hub ρ ν :=
  { h with cells := h.cells.modify i f }

/-- The observer of a number. -/
def observer? (h : Hub ρ ν) (id : Nat) : Option Observer :=
  h.observers.find? fun o => o.id = id

/-- What an observer sees. -/
def observedValue (h : Hub ρ ν) (id : Nat) : Option ν :=
  ((h.observer? id).bind fun o => h.cells[o.cell]?).bind (·.value)

/-- Whether a value was stored that an observer has not asked for. -/
def hasChanged (h : Hub ρ ν) (id : Nat) : Bool :=
  match h.observer? id with
  | none => false
  | some o => (h.cells[o.cell]?).any fun c => c.version != o.seen

/-! ## Cells -/

/-- A new cell; its index is the number of cells before it. -/
def create (h : Hub ρ ν) (topic : Topic) (aborting : Bool) : Hub ρ ν :=
  { h with cells := h.cells ++ [.create topic aborting] }

/-- The owner lets go of a cell. -/
def disown (h : Hub ρ ν) (i : Nat) : Hub ρ ν :=
  h.modifyCell i fun c => { c with owned := false }

/-- Registers a cell and issues its first fetch. -/
def awaken (h : Hub ρ ν) (i : Nat) (topic : Topic) (request : ρ) : Hub ρ ν :=
  { h with registry := h.registry.register topic (.cell i) }.modifyCell i fun c =>
    { c with registration := some h.registry.nextId }.issue request

/-- Begins to observe a cell.  The first observer registers the cell and issues a fetch. -/
def observe (h : Hub ρ ν) (i : Nat) (request : ρ) : Hub ρ ν :=
  match h.cells[i]? with
  | none => h
  | some c =>
    if !c.owned then h
    else
      -- The version is the one before the first fetch: whatever is stored from now on is news.
      let h' := if c.observers = 0 then h.awaken i c.topic request else h
      { h'.modifyCell i (fun c => { c with observers := c.observers + 1 }) with
        observers := h'.observers ++ [⟨h'.nextObserver, i, c.version⟩]
        nextObserver := h'.nextObserver + 1 }

/-- Takes a cell off the registry. -/
def retire (h : Hub ρ ν) (i : Nat) (c : Cell ρ ν) : Hub ρ ν :=
  match c.registration with
  | none => h
  | some id =>
    { h with registry := h.registry.unregister id c.topic }.modifyCell i fun c =>
      { c with registration := none }

/-- Ends an observation.  The last observer takes the cell off the registry. -/
def unobserve (h : Hub ρ ν) (id : Nat) : Hub ρ ν :=
  match h.observer? id with
  | none => h
  | some o =>
    let h := { h with observers := h.observers.filter fun p => p.id ≠ id }
    match h.cells[o.cell]? with
    | none => h
    | some c =>
      let h := h.modifyCell o.cell fun c => { c with observers := c.observers - 1 }
      -- `c` still counts the observer that leaves.
      if c.observers ≤ 1 then h.retire o.cell c else h

/-- An observer asks for the newest value and gets it, if it has not had it. -/
def poll (h : Hub ρ ν) (id : Nat) : Hub ρ ν :=
  { h with observers := h.observers.map fun o =>
      if o.id = id then
        match h.cells[o.cell]? with
        | some c => { o with seen := c.version }
        | none => o
      else o }

/-- Issues a fetch and waits for it. -/
def update (h : Hub ρ ν) (i : Nat) (request : ρ) : Hub ρ ν :=
  h.modifyCell i fun c =>
    if c.owned then { c.issue request with awaited := c.awaited ++ [c.generation + 1] } else c

/-- A fetch comes to its end. -/
def land (h : Hub ρ ν) (i generation : Nat) (landing : Landing ν) : Hub ρ ν :=
  h.modifyCell i fun c => c.land generation landing

/-- An update returns, its fetch having ended or been given up. -/
def join (h : Hub ρ ν) (i generation : Nat) : Hub ρ ν :=
  h.modifyCell i fun c =>
    if c.isFlying generation then c else { c with awaited := c.awaited.erase generation }

/-! ## Callbacks of others -/

/-- Somebody registers a callback and is told its number. -/
def register (h : Hub ρ ν) (t : Topic) (label : Nat) : Hub ρ ν :=
  { h with
    registry := h.registry.register t (.plain label)
    handed := h.handed ++ [h.registry.nextId] }

/-- Somebody removes a callback by a number that was told, under any topic. -/
def unregister (h : Hub ρ ν) (id : Nat) (t : Topic) : Hub ρ ν :=
  if id ∈ h.handed then { h with registry := h.registry.unregister id t } else h

/-! ## Fan-outs -/

/-- Begins to call some registrations. -/
def fanOut (h : Hub ρ ν) (snapshot : List (Registration Callee)) : Hub ρ ν :=
  { h with fanOuts := ⟨snapshot, false, 0⟩ :: h.fanOuts }

/-- Whom the innermost fan-out calls next. -/
def next? (h : Hub ρ ν) : Option Callee :=
  match h.fanOuts with
  | ⟨r :: _, _, _⟩ :: _ => some r.callback
  | _ => none

/-- Calls the next callback of the innermost fan-out; a cell that nobody holds any more issues
nothing. -/
def call (h : Hub ρ ν) (request : ρ) : Hub ρ ν :=
  match h.fanOuts with
  | ⟨r :: pending, false, ran⟩ :: outer =>
    match r.callback with
    | .cell i =>
      -- The call counts even if the cell is gone.
      { h.modifyCell i (fun c => if c.isAlive then c.issue request else c) with
        fanOuts := ⟨pending, false, ran + 1⟩ :: outer }
    | .plain _ => { h with fanOuts := ⟨pending, true, ran⟩ :: outer }
  | _ => h

/-- The running callback comes to its end, or breaks off and is not counted. -/
def leave (h : Hub ρ ν) (crashed : Bool) : Hub ρ ν :=
  match h.fanOuts with
  | ⟨pending, true, ran⟩ :: outer =>
    { h with fanOuts := ⟨pending, false, if crashed then ran else ran + 1⟩ :: outer }
  | _ => h

/-- The innermost fan-out has called everything. -/
def finish (h : Hub ρ ν) : Hub ρ ν :=
  match h.fanOuts with
  | ⟨[], false, _⟩ :: outer => { h with fanOuts := outer }
  | _ => h

/-! ## Events -/

/-- What can happen to a hub.  Whoever makes a cell fetch says what it asks for. -/
inductive Event (ρ ν : Type) where
  | create (topic : Topic) (aborting : Bool)
  | disown (cell : Nat)
  | observe (cell : Nat) (request : ρ)
  | unobserve (observer : Nat)
  | poll (observer : Nat)
  | update (cell : Nat) (request : ρ)
  | land (cell generation : Nat) (landing : Landing ν)
  | join (cell generation : Nat)
  | register (topic : Topic) (label : Nat)
  | unregister (id : Nat) (topic : Topic)
  | notify (topic : Topic)
  | notifyAll
  | call (request : ρ)
  | leave (crashed : Bool)
  | finish

/-- One step of a hub.  What cannot happen changes nothing. -/
def step (h : Hub ρ ν) : Event ρ ν → Hub ρ ν
  | .create topic aborting => h.create topic aborting
  | .disown cell => h.disown cell
  | .observe cell request => h.observe cell request
  | .unobserve observer => h.unobserve observer
  | .poll observer => h.poll observer
  | .update cell request => h.update cell request
  | .land cell generation landing => h.land cell generation landing
  | .join cell generation => h.join cell generation
  | .register topic label => h.register topic label
  | .unregister id topic => h.unregister id topic
  | .notify topic => h.fanOut (h.registry.under topic)
  | .notifyAll => h.fanOut h.registry.all
  | .call request => h.call request
  | .leave crashed => h.leave crashed
  | .finish => h.finish

/-- A run of a hub. -/
def run (h : Hub ρ ν) (events : List (Event ρ ν)) : Hub ρ ν :=
  events.foldl step h

end Hub

end LiveFeed
