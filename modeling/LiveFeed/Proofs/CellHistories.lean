import LiveFeed.Proofs.CellSteps
import LiveFeed.Proofs.Subscriptions

/-!
# What happens to one cell

Where cells are called and fetches end, and nothing else happens, each cell is by itself: a call changes
the cell that is called, the end of a fetch changes the one it was for, and what becomes of a cell can
be told from its own history.

* `Hub.Happening`, `Hub.history`: what happens to a cell in a run;
* `Hub.getElem?_run_of_replays`: what becomes of it;
* `Hub.requests`, `Hub.landingsOf`: the calls and the ends of fetches in a history;
* `Hub.generation_foldl_change`: each call of an observed cell issues a fetch.
-/

namespace LiveFeed

variable {ρ ν : Type}

namespace Hub

/-! ## Histories -/

/-- What happens to a cell in a replay: it is called, or one of its fetches ends. -/
inductive Happening (ρ ν : Type) where
  | call (request : ρ)
  | land (generation : Nat) (landing : Landing ν)
  deriving DecidableEq

/-- What an event is to cell `i`. -/
def happening? (i : Nat) (h : Hub ρ ν) : Event ρ ν → Option (Happening ρ ν)
  | .call request =>
    match h.fanOuts with
    | ⟨⟨_, .cell j⟩ :: _, false, _⟩ :: _ => if j = i then some (.call request) else none
    | _ => none
  | .land j generation landing => if j = i then some (.land generation landing) else none
  | _ => none

/-- What happens to cell `i` in a run. -/
def history (i : Nat) (h : Hub ρ ν) (events : List (Event ρ ν)) : List (Happening ρ ν) :=
  seen step (fun h e => (happening? i h e).toList) h events

/-- What becomes of a cell with what happens to it. -/
def Happening.change (c : Cell ρ ν) : Happening ρ ν → Cell ρ ν
  | .call request => if c.isAlive then c.issue request else c
  | .land generation landing => c.land generation landing

/-- The events of a replay: everything is called, and fetches end. -/
inductive Event.Replays : Event ρ ν → Prop where
  | notifyAll : Replays .notifyAll
  | call (request : ρ) : Replays (.call request)
  | land (i generation : Nat) (landing : Landing ν) : Replays (.land i generation landing)
  | finish : Replays .finish

theorem getElem?_step_of_replays {e : Event ρ ν} (he : e.Replays) (h : Hub ρ ν) (i : Nat) :
    (h.step e).cells[i]? =
      (h.cells[i]?).map fun c => (happening? i h e).toList.foldl Happening.change c := by
  cases he with
  | notifyAll => simp [step, fanOut, happening?]
  | call request =>
      rcases hf : h.fanOuts with _ | ⟨⟨_ | ⟨⟨id, _ | _⟩, pending⟩, _ | _, ran⟩, outer⟩
      · simp [step, call, happening?, hf]
      · simp [step, call, happening?, hf]
      · simp [step, call, happening?, hf]
      · next j =>
          rw [step, call, happening?]
          simp only [hf]
          refine (getElem?_modifyCell h i j _).trans ?_
          split
          · simp [Happening.change]
          · simp
      · simp [step, call, happening?, hf]
      · simp [step, call, happening?, hf]
      · simp [step, call, happening?, hf]
  | land j generation landing =>
      rw [step, land, getElem?_modifyCell, happening?]
      split
      · simp [Happening.change]
      · simp
  | finish =>
      rcases hf : h.fanOuts with _ | ⟨⟨_ | ⟨r, pending⟩, _ | _, ran⟩, outer⟩ <;>
        simp [step, finish, happening?, hf]

theorem history_cons (i : Nat) (h : Hub ρ ν) (e : Event ρ ν) (events : List (Event ρ ν)) :
    history i h (e :: events) = (happening? i h e).toList ++ history i (h.step e) events := rfl

/-- What a replay makes of a cell depends on what happens to that cell, and on no other. -/
theorem getElem?_run_of_replays {events : List (Event ρ ν)} (hevents : ∀ e ∈ events, e.Replays)
    (h : Hub ρ ν) (i : Nat) : (h.run events).cells[i]? =
      (h.cells[i]?).map fun c => (history i h events).foldl Happening.change c := by
  induction events generalizing h with
  | nil => simp [run, history, seen]
  | cons e events ih =>
      rw [List.forall_mem_cons] at hevents
      have hrun := ih hevents.2 (h.step e)
      rw [getElem?_step_of_replays hevents.1, Option.map_map] at hrun
      rw [run, List.foldl_cons, ← run, hrun, history_cons]
      simp only [Function.comp_def, List.foldl_append]

/-- A replay changes nothing but cells and fan-outs. -/
theorem run_of_replays {events : List (Event ρ ν)} (hevents : ∀ e ∈ events, e.Replays)
    (h : Hub ρ ν) :
    h.run events = { h with cells := (h.run events).cells, fanOuts := (h.run events).fanOuts } := by
  -- One event keeps the other parts, and the run keeps what each of its events keeps.
  have hstep : ∀ (h : Hub ρ ν) (e : Event ρ ν), e.Replays →
      h.step e = { h with cells := (h.step e).cells, fanOuts := (h.step e).fanOuts } := by
    intro h e he
    cases he with
    | notifyAll => rfl
    | call request =>
        rcases call_cases h request with heq | ⟨_, _, _, _, -, ⟨_, -, heq⟩ | ⟨_, -, heq⟩⟩
        · rw [step, heq]
        · rw [step, heq]
          rfl
        · rw [step, heq]
    | land i generation landing => rfl
    | finish =>
        rw [step, finish]
        split <;> rfl
  induction events generalizing h with
  | nil => rfl
  | cons e events ih =>
      rw [List.forall_mem_cons] at hevents
      have hrun := ih hevents.2 (h.step e)
      rw [hstep h e hevents.1] at hrun
      rw [run, List.foldl_cons, ← run, hstep h e hevents.1]
      exact hrun

/-! ## Calls and ends of fetches -/

/-- The request with which a cell is called. -/
def Happening.request? : Happening ρ ν → Option ρ
  | .call request => some request
  | .land _ _ => none

/-- The requests with which cell `i` is called in a run. -/
def requests (i : Nat) (h : Hub ρ ν) (events : List (Event ρ ν)) : List ρ :=
  (history i h events).filterMap Happening.request?

/-- No cell is called where fetches only end. -/
theorem requests_of_lands {events : List (Event ρ ν)}
    (hlands : ∀ e ∈ events, ∃ i generation landing, e = .land i generation landing) (i : Nat)
    (h : Hub ρ ν) : requests i h events = [] := by
  induction events generalizing h with
  | nil => rfl
  | cons e events ih =>
      rw [List.forall_mem_cons] at hlands
      obtain ⟨⟨j, generation, landing, rfl⟩, hrest⟩ := hlands
      rw [requests, history_cons, List.filterMap_append, ← requests, ih hrest]
      by_cases hj : j = i <;> simp [happening?, hj, Happening.request?]

/-- How the fetches of cell `i` end. -/
def landingsOf (i : Nat) : List (Event ρ ν) → List (Nat × Landing ν)
  | [] => []
  | .land j generation landing :: events =>
    if j = i then (generation, landing) :: landingsOf i events else landingsOf i events
  | _ :: events => landingsOf i events

theorem history_of_lands {events : List (Event ρ ν)}
    (hlands : ∀ e ∈ events, ∃ i generation landing, e = .land i generation landing) (i : Nat)
    (h : Hub ρ ν) :
    history i h events = (landingsOf i events).map fun l => .land l.1 l.2 := by
  induction events generalizing h with
  | nil => rfl
  | cons e events ih =>
      rw [List.forall_mem_cons] at hlands
      obtain ⟨⟨j, generation, landing, rfl⟩, hrest⟩ := hlands
      rw [history_cons, ih hrest, landingsOf]
      by_cases hj : j = i <;> simp [happening?, hj]

theorem history_of_calls {events : List (Event ρ ν)}
    (hcalls : ∀ e ∈ events, ∃ request, e = .call request) (i : Nat) (h : Hub ρ ν) :
    history i h events = (requests i h events).map .call := by
  have hone : ∀ (h : Hub ρ ν) (request : ρ), (happening? i h (.call request)).toList =
      ((happening? i h (.call request)).toList.filterMap Happening.request?).map .call := by
    intro h request
    rw [happening?]
    split
    · split <;> rfl
    · rfl
  induction events generalizing h with
  | nil => rfl
  | cons e events ih =>
      rw [List.forall_mem_cons] at hcalls
      obtain ⟨⟨request, rfl⟩, hrest⟩ := hcalls
      rw [requests, history_cons, List.filterMap_append, List.map_append, ← requests,
        ← ih hrest, ← hone]

/-! ## Observers and generations -/

/-- What happens to a cell leaves it with its observers and its registration. -/
theorem holders_foldl_change (c : Cell ρ ν) (happenings : List (Happening ρ ν)) :
    holders (happenings.foldl Happening.change c) = holders c := by
  have hone : ∀ (c : Cell ρ ν) (p : Happening ρ ν), holders (p.change c) = holders c := by
    intro c p
    cases p with
    | call request =>
        rw [Happening.change]
        split
        · exact holders_issue c request
        · rfl
    | land generation landing => exact holders_land c generation landing
  induction happenings generalizing c with
  | nil => rfl
  | cons p happenings ih => rw [List.foldl_cons, ih, hone]

/-- Each call of a cell that is observed issues a fetch. -/
theorem generation_foldl_change {c : Cell ρ ν} {happenings : List (Happening ρ ν)}
    (hcalled : happenings.filterMap Happening.request? ≠ [] → 0 < c.observers) :
    (happenings.foldl Happening.change c).generation =
      c.generation + (happenings.filterMap Happening.request?).length := by
  induction happenings generalizing c with
  | nil => rfl
  | cons p happenings ih =>
      have hobservers : (p.change c).observers = c.observers :=
        congrArg (·.2.1) (holders_foldl_change c [p])
      cases p with
      | call request =>
          -- An observed cell is alive, so the call is not in vain.
          have hpos : 0 < c.observers := hcalled (List.cons_ne_nil _ _)
          have halive : c.isAlive = true := by simp [Cell.isAlive, Nat.pos_iff_ne_zero.1 hpos]
          have hgeneration : (Happening.change c (.call request)).generation = c.generation + 1 := by
            rw [Happening.change, if_pos halive]
            rfl
          rw [List.foldl_cons, ih fun _ => hobservers ▸ hpos, hgeneration]
          simp only [List.filterMap_cons, Happening.request?, List.length_cons]
          omega
      | land generation landing =>
          have hgeneration : (Happening.change c (.land generation landing)).generation =
              c.generation := Cell.generation_land c generation landing
          rw [List.foldl_cons, ih fun h => hobservers ▸ hcalled h, hgeneration]
          rfl

end Hub

end LiveFeed
