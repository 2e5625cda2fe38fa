import Mathlib.Data.List.Forall2
import LiveFeed.Proofs.Turns
import LiveFeed.Proofs.Reentrancy
import LiveFeed.Proofs.ReturnedUpdates

/-!
# What breaks off does no harm

A fetch that breaks off leaves a system as one that brings nothing does.  A registered callback that
breaks off leaves it as one that returns does, except that the fan-out does not count it.

* `Hub.uncounted`, `Hub.uncounted_step`: no step depends on what fan-outs have counted;
* `System.MendsFetch`, `System.MendsCallback`: one event for another that breaks off;
* `System.Unharmed`, `System.crashes_contained`: what two runs have in common that differ in that.
-/

namespace LiveFeed

variable {ρ ν : Type}

/-! ## Fan-outs without their counts -/

/-- A fan-out without the count of its callbacks. -/
def FanOut.uncounted (f : FanOut) : FanOut :=
  { f with ran := 0 }

namespace Hub

/-- A hub without what its fan-outs have counted. -/
def uncounted (h : Hub ρ ν) : Hub ρ ν :=
  { h with fanOuts := h.fanOuts.map FanOut.uncounted }

@[simp] theorem uncounted_uncounted (h : Hub ρ ν) : h.uncounted.uncounted = h.uncounted := by
  simp [uncounted, FanOut.uncounted, Function.comp_def]

theorem uncounted_observe (h : Hub ρ ν) (i : Nat) (request : ρ) :
    (h.observe i request).uncounted = h.uncounted.observe i request := by
  unfold observe
  cases hc : h.cells[i]? with
  | none => simp [uncounted, hc]
  | some c =>
      cases ho : c.owned with
      | false => simp [uncounted, hc, ho]
      | true => by_cases h0 : c.observers = 0 <;> simp [uncounted, hc, ho, h0, awaken, modifyCell]

theorem uncounted_unobserve (h : Hub ρ ν) (id : Nat) :
    (h.unobserve id).uncounted = h.uncounted.unobserve id := by
  have hsame : h.uncounted.observer? id = h.observer? id := rfl
  unfold unobserve
  rw [hsame]
  cases h.observer? id with
  | none => rfl
  | some o =>
      cases hc : h.cells[o.cell]? with
      | none => simp [uncounted, hc]
      | some c =>
          by_cases h1 : c.observers ≤ 1
          · cases hr : c.registration <;> simp [uncounted, hc, h1, hr, retire, modifyCell]
          · simp [uncounted, hc, h1, modifyCell]

theorem uncounted_call (h : Hub ρ ν) (request : ρ) :
    (h.call request).uncounted = (h.uncounted.call request).uncounted := by
  rcases hf : h.fanOuts with _ | ⟨⟨_ | ⟨r, pending⟩, busy, ran⟩, outer⟩
  · simp [call, uncounted, hf]
  · simp [call, uncounted, hf, FanOut.uncounted]
  · cases busy with
    | true => simp [call, uncounted, hf, FanOut.uncounted]
    | false => cases hr : r.callback <;> simp [call, uncounted, hf, hr, FanOut.uncounted, modifyCell]

/-- Whether a callback breaks off is nothing to anybody but the fan-out that counts it. -/
theorem uncounted_leave (h : Hub ρ ν) (crashed crashed' : Bool) :
    (h.leave crashed).uncounted = (h.uncounted.leave crashed').uncounted := by
  rcases hf : h.fanOuts with _ | ⟨⟨pending, _ | _, ran⟩, outer⟩ <;>
    simp [leave, uncounted, hf, FanOut.uncounted]

theorem uncounted_finish (h : Hub ρ ν) : h.finish.uncounted = h.uncounted.finish := by
  rcases hf : h.fanOuts with _ | ⟨⟨_ | ⟨r, pending⟩, _ | _, ran⟩, outer⟩ <;>
    simp [finish, uncounted, hf, FanOut.uncounted]

/-- What a step does depends on nothing that fan-outs have counted, apart from their counts. -/
theorem uncounted_step (h : Hub ρ ν) (e : Event ρ ν) :
    (h.step e).uncounted = (h.uncounted.step e).uncounted := by
  -- All but the two events that count are the same step with or without the counts.
  have hexact : ∀ {k : Hub ρ ν}, (h.step e).uncounted = k → (h.step e).uncounted = k.uncounted := by
    rintro _ rfl
    rw [uncounted_uncounted]
  cases e with
  | observe i request => exact hexact (uncounted_observe h i request)
  | unobserve id => exact hexact (uncounted_unobserve h id)
  | unregister id topic =>
      have hsame : h.uncounted.handed = h.handed := rfl
      refine hexact ?_
      rw [step, step, unregister, unregister, hsame]
      split <;> rfl
  | call request => exact uncounted_call h request
  | leave crashed => exact uncounted_leave h crashed crashed
  | finish => exact hexact (uncounted_finish h)
  | _ => exact hexact rfl

end Hub

namespace System

/-- A system without what the fan-outs of its hub have counted. -/
def uncounted (s : System ρ ν) : System ρ ν :=
  { s with hub := s.hub.uncounted }

theorem uncounted_cause (effects : List Link.Effect) (s : System ρ ν) :
    (effects.foldl cause s).uncounted = effects.foldl cause s.uncounted := by
  induction effects generalizing s with
  | nil => rfl
  | cons effect effects ih =>
      -- A fan-out that begins has counted nothing yet.
      have hcause : (s.cause effect).uncounted = s.uncounted.cause effect := by
        cases effect <;> rfl
      rw [List.foldl_cons, List.foldl_cons, ih, hcause]

theorem uncounted_turn (s : System ρ ν) (c : Link.Event) :
    (s.turn c).uncounted = s.uncounted.turn c :=
  uncounted_cause _ _

theorem uncounted_whenIdle {s next next' : System ρ ν} (h : next.uncounted = next') :
    (s.whenIdle next).uncounted = s.uncounted.whenIdle next' := by
  have hidle : s.uncounted.hub.fanOuts.isEmpty = s.hub.fanOuts.isEmpty := by
    simp [uncounted, Hub.uncounted]
  unfold whenIdle
  rw [hidle]
  split
  · exact h
  · rfl

theorem uncounted_grant (s : System ρ ν) (loop : Nat) :
    (s.grant loop).uncounted = s.uncounted.grant loop := by
  have hsame : s.uncounted.isAttempting loop = s.isAttempting loop := rfl
  unfold grant
  rw [hsame]
  split
  · exact uncounted_turn _ _
  · rfl

theorem uncounted_deny (s : System ρ ν) (loop : Nat) (e : SocketError) :
    (s.deny loop e).uncounted = s.uncounted.deny loop e := by
  have hsame : s.uncounted.isAttempting loop = s.isAttempting loop := rfl
  unfold deny
  rw [hsame]
  split
  · exact uncounted_turn _ _
  · rfl

theorem uncounted_read (s : System ρ ν) (loop : Nat) :
    (s.read loop).uncounted = s.uncounted.read loop := by
  have hreads : s.uncounted.reads? loop = s.reads? loop := rfl
  cases hr : s.reads? loop with
  | none => rw [read_of_none hr, read_of_none (hreads.trans hr)]
  | some p =>
      obtain ⟨k, frame⟩ := p
      cases frame with
      | none => rw [read_of_end hr, read_of_end (hreads.trans hr), uncounted_turn]
      | some frame =>
          obtain ⟨x, rest, hx, hin, hread⟩ := read_of_frame hr
          obtain ⟨y, rest', hy, hin', hread'⟩ := read_of_frame (hreads.trans hr)
          -- The session that is read is the same in both.
          obtain rfl : y = x := Option.some.inj (hy.symm.trans hx)
          obtain rfl : rest' = rest := (List.cons.inj (hin'.symm.trans hin)).2
          rw [hread, hread', uncounted_turn]
          rfl

theorem uncounted_beat (s : System ρ ν) (loop : Nat) :
    (s.beat loop).uncounted = s.uncounted.beat loop := by
  have hbeats : s.uncounted.beats? loop = s.beats? loop := rfl
  cases hb : s.beats? loop with
  | none => rw [beat_of_none hb, beat_of_none (hbeats.trans hb)]
  | some p =>
      rw [beat_of_beats? hb, beat_of_beats? (hbeats.trans hb), uncounted_turn]
      rfl

theorem uncounted_pass (s : System ρ ν) (time : Nat) :
    (s.pass time).uncounted = s.uncounted.pass time := by
  have hnow : s.uncounted.now = s.now := rfl
  have hlink : s.uncounted.link = s.link := rfl
  unfold pass
  rw [hnow, hlink]
  split <;> rfl

/-- Nothing that a system does depends on what fan-outs have counted, apart from their counts. -/
theorem uncounted_step (s : System ρ ν) (e : Event ρ ν) :
    (s.step e).uncounted = (s.uncounted.step e).uncounted := by
  have hexact : ∀ {k : System ρ ν}, (s.step e).uncounted = k →
      (s.step e).uncounted = k.uncounted := by
    rintro _ rfl
    simp [uncounted]
  cases e with
  | hub e => exact congrArg (fun hub => { s with hub := hub }) (s.hub.uncounted_step e)
  | connect | dispose | disposed | drop => exact hexact (uncounted_turn s _)
  | start loop | follow loop | resume loop | stop loop =>
      exact hexact (uncounted_whenIdle (uncounted_turn s _))
  | grant loop => exact hexact (uncounted_whenIdle (uncounted_grant s loop))
  | deny loop e => exact hexact (uncounted_whenIdle (uncounted_deny s loop e))
  | read loop => exact hexact (uncounted_whenIdle (uncounted_read s loop))
  | beat loop => exact hexact (uncounted_whenIdle (uncounted_beat s loop))
  | deliver n m =>
      have hserves : s.uncounted.serves n = s.serves n := rfl
      refine hexact ?_
      rw [step, step, hserves]
      split <;> rfl
  | breakOff n e =>
      have hreachable : s.uncounted.isReachable n = s.isReachable n := rfl
      refine hexact ?_
      rw [step, step, hreachable]
      split <;> rfl
  | close n | jam n e => exact hexact rfl
  | pass time => exact hexact (uncounted_pass s time)

/-! ## Runs in which less breaks off -/

/-- One event for another: a fetch that brings nothing, for one that breaks off. -/
inductive MendsFetch : Event ρ ν → Event ρ ν → Prop where
  | same (e : Event ρ ν) : MendsFetch e e
  | fetch (i g : Nat) : MendsFetch (.hub (.land i g .crash)) (.hub (.land i g .nothing))

/-- One event for another: a registered callback that returns, for one that breaks off. -/
inductive MendsCallback : Event ρ ν → Event ρ ν → Prop where
  | same (e : Event ρ ν) : MendsCallback e e
  | callback : MendsCallback (.hub (.leave true)) (.hub (.leave false))

/-- Either of the two. -/
inductive Mends (e e' : Event ρ ν) : Prop where
  | fetch (mends : MendsFetch e e')
  | callback (mends : MendsCallback e e')

theorem MendsFetch.step_eq {e e' : Event ρ ν} (h : MendsFetch e e') (s : System ρ ν) :
    s.step e' = s.step e := by
  cases h with
  | same e => rfl
  | fetch i g => rfl

theorem MendsCallback.uncounted_step_eq {e e' : Event ρ ν} (h : MendsCallback e e')
    (s : System ρ ν) : (s.step e').uncounted = (s.step e).uncounted := by
  cases h with
  | same e => rfl
  | callback =>
      have hleave : (s.hub.leave false).uncounted = (s.hub.leave true).uncounted := by
        rw [s.hub.uncounted_leave false true, ← s.hub.uncounted_leave true true]
      exact congrArg (fun hub : Hub ρ ν => { s with hub := hub }) hleave

theorem Mends.uncounted_step_eq {e e' : Event ρ ν} (h : Mends e e') (s : System ρ ν) :
    (s.step e').uncounted = (s.step e).uncounted := by
  cases h with
  | fetch mends => rw [mends.step_eq]
  | callback mends => exact mends.uncounted_step_eq s

/-- Neither puts another event for the return of an update or of a fan-out, or the other way
round. -/
theorem Mends.eq_iff {e e' : Event ρ ν} (h : Mends e e') {a : Hub.Event ρ ν}
    (hland : ∀ i g landing, a ≠ .land i g landing) (hleave : ∀ crashed, a ≠ .leave crashed) :
    e' = .hub a ↔ e = .hub a := by
  rcases h with mends | mends
  · cases mends with
    | same e => rfl
    | fetch i g =>
        simp only [Event.hub.injEq]
        exact iff_of_false (hland i g .nothing).symm (hland i g .crash).symm
  · cases mends with
    | same e => rfl
    | callback =>
        simp only [Event.hub.injEq]
        exact iff_of_false (hleave false).symm (hleave true).symm

theorem run_of_mendsFetch {events events' : List (Event ρ ν)}
    (h : List.Forall₂ MendsFetch events events') (s : System ρ ν) : s.run events' = s.run events := by
  induction h generalizing s with
  | nil => rfl
  | cons hmends _ ih =>
      rw [run, List.foldl_cons, hmends.step_eq]
      exact ih _

/-- From systems that are the same but for some counts, runs in which less breaks off lead to systems
that are. -/
theorem uncounted_run {events events' : List (Event ρ ν)} (h : List.Forall₂ Mends events events')
    {s s' : System ρ ν} (hs : s'.uncounted = s.uncounted) :
    (s'.run events').uncounted = (s.run events).uncounted := by
  induction h generalizing s s' with
  | nil => exact hs
  | @cons e e' _ _ hmends _ ih =>
      refine ih ?_
      calc (s'.step e').uncounted = (s'.uncounted.step e').uncounted := uncounted_step s' e'
        _ = (s.uncounted.step e').uncounted := by rw [hs]
        _ = (s.step e').uncounted := (uncounted_step s e').symm
        _ = (s.step e).uncounted := hmends.uncounted_step_eq s

/-- With event `n` of a run the call of `update` returns that waits for the fetch `g` of cell `i` of the
hub. -/
def UpdateReturns (s : System ρ ν) (events : List (Event ρ ν)) (i g n : Nat) : Prop :=
  events[n]? = some (.hub (.join i g)) ∧
    Hub.Joins (s.after events n).hub (s.after events (n + 1)).hub i

/-- With event `n` of a run the fan-out with `depth` others below it returns a count. -/
def FanOutReturns (s : System ρ ν) (events : List (Event ρ ν)) (depth count n : Nat) : Prop :=
  events[n]? = some (.hub .finish) ∧
    Hub.returned? depth (s.after events n).hub .finish = some count

/-- Two runs are the same at every point in all but what fan-outs count. -/
structure Unharmed (s : System ρ ν) (events events' : List (Event ρ ν)) : Prop where
  /-- All that is known of cells: their values and fetches, how many observe them and what waits. -/
  cells : ∀ n, (s.after events' n).hub.cells = (s.after events n).hub.cells
  observers : ∀ n, (s.after events' n).hub.observers = (s.after events n).hub.observers
  registry : ∀ n, (s.after events' n).hub.registry = (s.after events n).hub.registry
  handed : ∀ n, (s.after events' n).hub.handed = (s.after events n).hub.handed
  nextObserver : ∀ n, (s.after events' n).hub.nextObserver = (s.after events n).hub.nextObserver
  updates : ∀ i g n, UpdateReturns s events' i g n ↔ UpdateReturns s events i g n
  link : ∀ n, (s.after events' n).link = (s.after events n).link
  published : ∀ n, (s.after events' n).published = (s.after events n).published
  attempts : ∀ n, (s.after events' n).attempts = (s.after events n).attempts
  sessions : ∀ n, (s.after events' n).sessions = (s.after events n).sessions
  now : ∀ n, (s.after events' n).now = (s.after events n).now
  /-- What every fan-out is still to call, and whether a callback of it is running. -/
  fanOuts : ∀ n, (s.after events' n).hub.fanOuts.map FanOut.uncounted =
    (s.after events n).hub.fanOuts.map FanOut.uncounted
  returns : ∀ depth n, (∃ count, FanOutReturns s events' depth count n) ↔
    ∃ count, FanOutReturns s events depth count n

theorem getElem?_of_mends {events events' : List (Event ρ ν)}
    (h : List.Forall₂ Mends events events') {a : Hub.Event ρ ν}
    (hland : ∀ i g landing, a ≠ .land i g landing) (hleave : ∀ crashed, a ≠ .leave crashed) (n : Nat) :
    events'[n]? = some (.hub a) ↔ events[n]? = some (.hub a) := by
  induction h generalizing n with
  | nil => rfl
  | cons hmends _ ih =>
      cases n with
      | zero => simpa using hmends.eq_iff hland hleave
      | succ n => simpa using ih n

/-- Whether a fan-out returns does not depend on what it has counted. -/
theorem exists_returned?_iff {depth : Nat} {h : Hub ρ ν} :
    (∃ count, Hub.returned? depth h .finish = some count) ↔
      ∃ outer, h.fanOuts.map FanOut.uncounted = ⟨[], false, 0⟩ :: outer ∧ outer.length = depth := by
  simp only [Hub.returned?_finish]
  constructor
  · rintro ⟨count, outer, hf, hlength⟩
    exact ⟨outer.map FanOut.uncounted, by rw [hf]; rfl, by rw [List.length_map, hlength]⟩
  · rintro ⟨outer, hf, hlength⟩
    obtain ⟨⟨pending, busy, ran⟩, outer', hf', hf₀, rfl⟩ := List.map_eq_cons_iff.1 hf
    cases hf₀
    exact ⟨ran, outer', hf', by rw [← hlength, List.length_map]⟩

theorem unharmed_of_mends {events events' : List (Event ρ ν)}
    (h : List.Forall₂ Mends events events') (s : System ρ ν) : Unharmed s events events' := by
  have hsame : ∀ n, (s.after events' n).uncounted = (s.after events n).uncounted := fun n =>
    uncounted_run (List.forall₂_take n h) rfl
  have hhub : ∀ n, (s.after events' n).hub.uncounted = (s.after events n).hub.uncounted := fun n =>
    (congrArg System.hub (hsame n) :)
  have hcells : ∀ n, (s.after events' n).hub.cells = (s.after events n).hub.cells := fun n =>
    (congrArg Hub.cells (hhub n) :)
  have hfanOuts : ∀ n, (s.after events' n).hub.fanOuts.map FanOut.uncounted =
      (s.after events n).hub.fanOuts.map FanOut.uncounted := fun n =>
    (congrArg Hub.fanOuts (hhub n) :)
  exact
    { cells := hcells
      observers := fun n => (congrArg Hub.observers (hhub n) :)
      registry := fun n => (congrArg Hub.registry (hhub n) :)
      handed := fun n => (congrArg Hub.handed (hhub n) :)
      nextObserver := fun n => (congrArg Hub.nextObserver (hhub n) :)
      updates := fun i g n => by
        have hjoin := getElem?_of_mends h (a := .join i g) (by simp) (by simp) n
        simp only [UpdateReturns, Hub.Joins, hcells, hjoin]
      link := fun n => (congrArg System.link (hsame n) :)
      published := fun n => (congrArg System.published (hsame n) :)
      attempts := fun n => (congrArg System.attempts (hsame n) :)
      sessions := fun n => (congrArg System.sessions (hsame n) :)
      now := fun n => (congrArg System.now (hsame n) :)
      fanOuts := hfanOuts
      returns := fun depth n => by
        have hfinish := getElem?_of_mends h (a := .finish) (by simp) (by simp) n
        simp only [FanOutReturns, exists_and_left, exists_returned?_iff, hfanOuts, hfinish] }

/-- What breaks off does no harm.  When some fetches that break off bring nothing instead, nothing at
all is different at any point of a run.  When some registered callbacks that break off return instead,
having done the same, nothing is different but what fan-outs count. -/
theorem crashes_contained (s : System ρ ν) (events events' : List (Event ρ ν)) :
    (List.Forall₂ MendsFetch events events' →
      Unharmed s events events' ∧ ∀ n, s.after events' n = s.after events n) ∧
    (List.Forall₂ MendsCallback events events' → Unharmed s events events') := by
  refine ⟨fun h => ⟨?_, fun n => ?_⟩, fun h => ?_⟩
  · exact unharmed_of_mends (h.imp fun _ _ => .fetch) s
  · exact run_of_mendsFetch (List.forall₂_take n h) s
  · exact unharmed_of_mends (h.imp fun _ _ => .callback) s

/-- An update waits for a fetch, and a fan-out calls a cell and a callback of somebody else. -/
def interrupted (landing : Landing Nat) (crashed : Bool) : List (Event Unit Nat) :=
  [.hub (.create .user false), .hub (.observe 0 ()), .hub (.register .user 0), .hub (.update 0 ()),
    .hub (.land 0 2 landing), .hub (.join 0 2), .hub (.notify .user), .hub (.call ()),
    .hub (.call ()), .hub (.leave crashed), .hub .finish]

theorem crashes_contained_interrupted :
    let s : System Unit Nat := .create LinkConfig.default "ws"
    Unharmed s (interrupted .crash true) (interrupted .nothing true) ∧
      (∀ n, s.after (interrupted .nothing true) n = s.after (interrupted .crash true) n) ∧
      Unharmed s (interrupted .crash true) (interrupted .crash false) ∧
      FanOutReturns s (interrupted .crash true) 0 1 10 ∧
      FanOutReturns s (interrupted .crash false) 0 2 10 := by
  intro s
  have hfetch : List.Forall₂ MendsFetch (interrupted .crash true) (interrupted .nothing true) := by
    repeat' constructor
  have hcallback : List.Forall₂ MendsCallback (interrupted .crash true) (interrupted .crash false) := by
    repeat' constructor
  have hcontained := (crashes_contained s (interrupted .crash true) (interrupted .nothing true)).1 hfetch
  exact ⟨hcontained.1, hcontained.2,
    (crashes_contained s (interrupted .crash true) (interrupted .crash false)).2 hcallback,
    ⟨rfl, rfl⟩, ⟨rfl, rfl⟩⟩

end System

end LiveFeed
