import LiveFeed.Topic

/-!
# Cells

A cell keeps the last value that was fetched for it.  Every fetch has a generation; what it brings is
kept only if no newer fetch was issued in the meantime.  An aborting cell gives up the fetch before
the one it issues.

* `Cell.issue`: a new fetch; `Cell.land`: a fetch comes to its end;
* `Cell.value_land`: when a value is stored.

The requests that fetches carry and the values that cells keep are parameters.
-/

namespace LiveFeed

/-- A fetch on its way. -/
structure Flight (ρ : Type) where
  generation : Nat
  /-- What was asked for when it was issued. -/
  request : ρ
  deriving DecidableEq, Repr

/-- How a fetch ended. -/
inductive Landing (ν : Type) where
  | value (v : ν)
  /-- It brought nothing. -/
  | nothing
  /-- It broke off. -/
  | crash
  deriving DecidableEq, Repr

/-- A value that is fetched anew whenever its topic changes, as long as somebody observes it. -/
structure Cell (ρ ν : Type) where
  topic : Topic
  /-- Whether a new fetch gives up the one before. -/
  aborting : Bool
  /-- Whether the owner still holds the cell. -/
  owned : Bool
  /-- The number of fetches issued, which is the newest one's generation. -/
  generation : Nat
  /-- The fetches that have neither ended nor been given up. -/
  flights : List (Flight ρ)
  value : Option ν
  /-- How often a value was stored. -/
  version : Nat
  /-- How many observers hold the cell. -/
  observers : Nat
  /-- The number of the cell's registration. -/
  registration : Option Nat
  /-- The generations that calls of `update` still wait for. -/
  awaited : List Nat
  deriving DecidableEq, Repr

namespace Cell

variable {ρ ν : Type}

/-- A cell that nobody observes and nothing was fetched for. -/
def create (topic : Topic) (aborting : Bool) : Cell ρ ν where
  topic := topic
  aborting := aborting
  owned := true
  generation := 0
  flights := []
  value := none
  version := 0
  observers := 0
  registration := none
  awaited := []

/-- Whether the fetch of a generation is on its way. -/
def isFlying (c : Cell ρ ν) (generation : Nat) : Bool :=
  c.flights.any fun f => f.generation == generation

/-- Whether anything holds the cell: its owner, an observer, a fetch or a waiting update. -/
def isAlive (c : Cell ρ ν) : Bool :=
  c.owned || c.observers != 0 || !c.flights.isEmpty || !c.awaited.isEmpty

/-- Takes off a fetch. -/
def without (c : Cell ρ ν) (generation : Nat) : Cell ρ ν :=
  { c with flights := c.flights.filter fun f => f.generation != generation }

/-- Issues a fetch. -/
def issue (c : Cell ρ ν) (request : ρ) : Cell ρ ν :=
  -- Only the newest fetch is given up; any older one was given up before it.
  let kept := if c.aborting then c.without c.generation else c
  { kept with
    generation := c.generation + 1
    flights := kept.flights ++ [⟨c.generation + 1, request⟩] }

/-- Keeps a value. -/
def store (c : Cell ρ ν) (v : ν) : Cell ρ ν :=
  { c with value := some v, version := c.version + 1 }

/-- Ends a fetch; one that is not on its way changes nothing. -/
def land (c : Cell ρ ν) (generation : Nat) (landing : Landing ν) : Cell ρ ν :=
  if c.isFlying generation then
    match landing with
    | .value v =>
      -- What an overtaken fetch brings is dropped.
      if generation = c.generation then (c.without generation).store v else c.without generation
    | .nothing => c.without generation
    | .crash => c.without generation
  else c

theorem generation_land (c : Cell ρ ν) (generation : Nat) (landing : Landing ν) :
    (c.land generation landing).generation = c.generation := by
  unfold land without store
  split
  · cases landing with
    | value v =>
      dsimp only
      split <;> rfl
    | nothing => rfl
    | crash => rfl
  · rfl

theorem value_issue (c : Cell ρ ν) (request : ρ) : (c.issue request).value = c.value := by
  unfold issue without
  split <;> rfl

theorem value_land (c : Cell ρ ν) (generation : Nat) (landing : Landing ν) :
    (c.land generation landing).value =
      match landing with
      | .value v => if c.isFlying generation ∧ generation = c.generation then some v else c.value
      | .nothing => c.value
      | .crash => c.value := by
  unfold land without store
  cases landing with
  | value v =>
    by_cases e : generation = c.generation
    · subst e
      by_cases h : c.isFlying c.generation <;> simp [h]
    · by_cases h : c.isFlying generation <;> simp [h, e]
  | nothing => by_cases h : c.isFlying generation <;> simp [h]
  | crash => by_cases h : c.isFlying generation <;> simp [h]

end Cell

end LiveFeed
