import LiveFeed.Proofs.CellHistories
import LiveFeed.Proofs.FlatRegistry
import LiveFeed.Proofs.Reentrancy

/-!
# The order of a replay

A fan-out over everything goes from topic to topic in an order that the registry does not promise.  If
only cells are registered, that order is nobody's concern: each cell is called once, a call changes
nothing but its own cell, and so does the end of a fetch.

* `Registry.yielding`, `Hub.yielding`: the same registrations with the topics in another order;
* `Hub.Replay`, `Hub.Replay.requests_eq`: a fan-out over everything calls each registered cell once;
* `Hub.Course`, `Hub.OrderFree`: the courses a replay may take, and what they have in common;
* `Hub.replay_in_any_order`: all of them lead to the same state.
-/

namespace LiveFeed

variable {ρ ν : Type}

/-! ## Topics in another order -/

namespace Registry

variable {κ : Type}

/-- The topics under which something is registered. -/
def topics (g : Registry κ) : List Topic :=
  g.groups.map (·.1)

/-- The same registrations, with the topics in some order. -/
def yielding (g : Registry κ) (order : List Topic) : Registry κ :=
  { g with groups := order.map fun t => (t, g.under t) }

theorem under_of_not_mem {g : Registry κ} {t : Topic} (h : t ∉ g.topics) : g.under t = [] := by
  have hnone : g.groups.lookup t = none := by
    rw [List.lookup_eq_none_iff]
    intro p hp
    have hne : t ≠ p.1 := by
      rintro rfl
      exact h (List.mem_map.2 ⟨p, hp, rfl⟩)
    simpa using hne
  rw [under, hnone]
  rfl

/-- In whatever order the topics stand, each has what is registered under it. -/
theorem under_yielding {g : Registry κ} {order : List Topic} (h : order.Perm g.topics) (t : Topic) :
    (g.yielding order).under t = g.under t := by
  have key : ∀ order : List Topic,
      ((order.map fun t => (t, g.under t)).lookup t).getD [] =
        if t ∈ order then g.under t else [] := by
    intro order
    induction order with
    | nil => rfl
    | cons s order ih =>
        rw [List.map_cons, List.lookup_cons]
        by_cases hs : t = s
        · subst hs
          simp
        · have hb : (t == s) = false := by simpa using hs
          simp [hb, ih, hs]
  rw [under, yielding, key]
  split
  · rfl
  · next hmem => exact (under_of_not_mem fun ht => hmem (h.mem_iff.2 ht)).symm

/-- The same is registered in any order of the topics. -/
theorem perm_all_yielding {g : Registry κ} (hw : g.WellFormed) {order : List Topic}
    (h : order.Perm g.topics) : (g.yielding order).all.Perm g.all := by
  rw [all_eq_flatMap hw, all, yielding, List.flatMap_map]
  exact h.flatMap_right _

end Registry

namespace Hub

/-- The same hub, with the topics of its registry in some order. -/
def yielding (h : Hub ρ ν) (order : List Topic) : Hub ρ ν :=
  { h with registry := h.registry.yielding order }

/-! ## A fan-out over cells -/

/-- While a fan-out over cells is in progress, it calls, and fetches end. -/
inductive Event.InProgress : Event ρ ν → Prop where
  | call (request : ρ) : InProgress (.call request)
  | land (i generation : Nat) (landing : Landing ν) : InProgress (.land i generation landing)

/-- The fan-out that is in progress stays on top of the same others. -/
theorem fanOuts_step_of_inProgress {e : Event ρ ν} (he : e.InProgress) {h : Hub ρ ν} {f : FanOut}
    {outer : List FanOut} (hf : h.fanOuts = f :: outer) :
    ∃ f', (h.step e).fanOuts = f' :: outer := by
  cases he with
  | call request =>
      rcases call_cases h request with heq | ⟨_, _, _, _, hf', ⟨_, -, heq⟩ | ⟨_, -, heq⟩⟩
      · exact ⟨f, by rw [step, heq, hf]⟩
      · rw [hf] at hf'
        cases hf'
        exact ⟨_, by rw [step, heq]⟩
      · rw [hf] at hf'
        cases hf'
        exact ⟨_, by rw [step, heq]⟩
  | land i generation landing => exact ⟨f, hf⟩

theorem fanOuts_run_of_inProgress {events : List (Event ρ ν)} (hevents : ∀ e ∈ events, e.InProgress)
    {h : Hub ρ ν} {f : FanOut} {outer : List FanOut} (hf : h.fanOuts = f :: outer) :
    ∃ f', (h.run events).fanOuts = f' :: outer := by
  induction events generalizing h f with
  | nil => exact ⟨f, hf⟩
  | cons e events ih =>
      rw [List.forall_mem_cons] at hevents
      obtain ⟨f', hf'⟩ := fanOuts_step_of_inProgress hevents.1 hf
      exact ih hevents.2 hf'

theorem length_requests_step {e : Event ρ ν} (he : e.InProgress) {h : Hub ρ ν} {f : FanOut}
    {outer : List FanOut} (hf : h.fanOuts = f :: outer) (i : Nat) :
    ((happening? i h e).toList.filterMap Happening.request?).length =
      (called? outer.length h e).toList.countP fun r => r.callback = .cell i := by
  cases he with
  | call request =>
      obtain ⟨_ | ⟨⟨id, j | _⟩, pending⟩, _ | _, ran⟩ := f
      · simp [happening?, called?, hf]
      · simp [happening?, called?, hf]
      · by_cases hj : j = i <;> simp [happening?, called?, hf, hj, Happening.request?]
      · simp [happening?, called?, hf]
      · simp [happening?, called?, hf]
      · simp [happening?, called?, hf]
  | land j generation landing =>
      by_cases hj : j = i <;> simp [happening?, called?, hj, Happening.request?]

/-- A cell is called as often as the fan-out calls a registration of it. -/
theorem length_requests {events : List (Event ρ ν)} (hevents : ∀ e ∈ events, e.InProgress)
    {h : Hub ρ ν} {f : FanOut} {outer : List FanOut} (hf : h.fanOuts = f :: outer) (i : Nat) :
    (requests i h events).length =
      (calls outer.length h events).countP fun r => r.callback = .cell i := by
  induction events generalizing h f with
  | nil => rfl
  | cons e events ih =>
      rw [List.forall_mem_cons] at hevents
      obtain ⟨f', hf'⟩ := fanOuts_step_of_inProgress hevents.1 hf
      rw [requests, history_cons, List.filterMap_append, List.length_append, ← requests,
        length_requests_step hevents.1 hf, ih hevents.2 hf', ← List.countP_append]
      rfl

/-- No callback breaks off, because cells are done as soon as they are called. -/
theorem endings_of_inProgress {events : List (Event ρ ν)} (hevents : ∀ e ∈ events, e.InProgress)
    (depth : Nat) (h : Hub ρ ν) : ∀ crashed ∈ endings depth h events, false = crashed := by
  induction events generalizing h with
  | nil => simp [endings, seen]
  | cons e events ih =>
      rw [List.forall_mem_cons] at hevents
      intro crashed hcrashed
      rcases List.mem_append.1 hcrashed with hfirst | hrest
      · cases hevents.1 with
        | call request =>
            rw [Option.mem_toList, ended?] at hfirst
            split at hfirst
            · exact Option.some.inj (Option.ite_none_right_eq_some.1 hfirst).2
            · cases hfirst
        | land i generation landing => cases hfirst
      · exact ih hevents.2 _ crashed hrest

/-! ## Replays -/

/-- The events of a replay: a fan-out over everything begins and ends, and fetches end afterwards. -/
def replay (during afterwards : List (Event ρ ν)) : List (Event ρ ν) :=
  .notifyAll :: (during ++ .finish :: afterwards)

/-- A replay of what is registered: everything is called, each cell with what it asks for itself, and
meanwhile and afterwards fetches end.  It returns a count. -/
structure Replay (h : Hub ρ ν) (ask : Nat → ρ) (during afterwards : List (Event ρ ν))
    (count : Nat) : Prop where
  inProgress : ∀ e ∈ during, e.InProgress
  lands : ∀ e ∈ afterwards, ∃ i generation landing, e = .land i generation landing
  returns : Returns h.fanOuts.length (h.step .notifyAll) during count
  asks : ∀ i, ∀ request ∈ requests i h (replay during afterwards), request = ask i

theorem Replay.replays {h : Hub ρ ν} {ask : Nat → ρ} {during afterwards : List (Event ρ ν)}
    {count : Nat} (hr : Replay h ask during afterwards count) :
    ∀ e ∈ replay during afterwards, e.Replays := by
  have hduring : ∀ e ∈ during, e.Replays := by
    intro e he
    cases hr.inProgress e he with
    | call request => exact .call request
    | land i generation landing => exact .land i generation landing
  have hafterwards : ∀ e ∈ afterwards, e.Replays := by
    intro e he
    obtain ⟨i, generation, landing, rfl⟩ := hr.lands e he
    exact .land i generation landing
  rw [replay, List.forall_mem_cons, List.forall_mem_append, List.forall_mem_cons]
  exact ⟨.notifyAll, hduring, .finish, hafterwards⟩

/-- A replay counts all that is registered. -/
theorem Replay.count_eq {h : Hub ρ ν} {ask : Nat → ρ} {during afterwards : List (Event ρ ν)}
    {count : Nat} (hr : Replay h ask during afterwards count) :
    count = h.registry.all.length := by
  obtain ⟨-, hlength, hcount⟩ := (exact_fanOut h h.registry.all).complete during count hr.returns
  have hendings := endings_of_inProgress hr.inProgress h.fanOuts.length (h.fanOut h.registry.all)
  rw [hcount, ← hlength, List.count_eq_length.2 hendings]

/-- The end of a replay leaves the other fan-outs as they were. -/
theorem Replay.fanOuts_eq {h : Hub ρ ν} {ask : Nat → ρ} {during afterwards : List (Event ρ ν)}
    {count : Nat} (hr : Replay h ask during afterwards count) :
    (h.run (replay during afterwards)).fanOuts = h.fanOuts := by
  obtain ⟨f, hf⟩ := fanOuts_run_of_inProgress hr.inProgress (h := h.step .notifyAll) rfl
  obtain ⟨outer, hreturned, -⟩ := returned?_finish.1 hr.returns.returned
  rw [hf] at hreturned
  -- The fan-out that returns is the one on top, and below it stand those from before.
  obtain ⟨rfl, rfl⟩ := List.cons.inj hreturned
  have hlands : ∀ (k : Hub ρ ν), (k.run afterwards).fanOuts = k.fanOuts := by
    have hlands := hr.lands
    clear hr
    induction afterwards with
    | nil => exact fun _ => rfl
    | cons e afterwards ih =>
        rw [List.forall_mem_cons] at hlands
        obtain ⟨⟨i, generation, landing, rfl⟩, hrest⟩ := hlands
        exact fun k => ih hrest _
  have hrun : h.run (replay during afterwards) =
      (((h.step .notifyAll).run during).step .finish).run afterwards := by
    rw [replay, run, List.foldl_cons, List.foldl_append, List.foldl_cons]
    rfl
  rw [hrun, hlands]
  generalize (h.step .notifyAll).run during = k at hf
  simp [step, finish, hf]

theorem requests_replay {during afterwards : List (Event ρ ν)}
    (hlands : ∀ e ∈ afterwards, ∃ i generation landing, e = .land i generation landing) (i : Nat)
    (h : Hub ρ ν) :
    requests i h (replay during afterwards) = requests i (h.step .notifyAll) during := by
  rw [requests, replay, history_cons, history, seen_append, ← history, ← history, history_cons,
    List.filterMap_append, List.filterMap_append, List.filterMap_append, ← requests, ← requests,
    requests_of_lands hlands]
  exact List.append_nil _

/-- In a replay a cell is called once for each registration of it. -/
theorem Replay.requests_eq {h : Hub ρ ν} {ask : Nat → ρ} {during afterwards : List (Event ρ ν)}
    {count : Nat} (hr : Replay h ask during afterwards count) (i : Nat) :
    requests i h (replay during afterwards) =
      List.replicate (h.registry.all.countP fun r => r.callback = .cell i) (ask i) := by
  refine List.eq_replicate_iff.2 ⟨?_, hr.asks i⟩
  have hcalls := ((exact_fanOut h h.registry.all).complete during count hr.returns).1
  rw [requests_replay hr.lands, length_requests hr.inProgress rfl i]
  exact congrArg (List.countP _) hcalls

/-- A fan-out over cells goes through what it has pending and returns. -/
theorem exists_calls (ask : Nat → ρ) {pending : List (Registration Callee)}
    (hcells : ∀ r ∈ pending, ∃ i, r.callback = .cell i) {h : Hub ρ ν} {ran : Nat}
    {outer : List FanOut} (hf : h.fanOuts = ⟨pending, false, ran⟩ :: outer) :
    ∃ events count, (∀ e ∈ events, ∃ request, e = .call request) ∧
      Returns outer.length h events count ∧ ∀ i, ∀ request ∈ requests i h events, request = ask i := by
  have hlt : outer.length < h.fanOuts.length := by simp [hf]
  -- The induction is on what is pending, of which each call takes off the first.
  induction pending generalizing h ran with
  | nil =>
      refine ⟨[], ran, by simp, ⟨within_nil.2 hlt, returned?_finish.2 ⟨outer, hf, rfl⟩⟩, ?_⟩
      simp [requests, history, seen]
  | cons r pending ih =>
      rw [List.forall_mem_cons] at hcells
      obtain ⟨⟨j, hj⟩, hrest⟩ := hcells
      have hcall : (h.step (.call (ask j))).fanOuts = ⟨pending, false, ran + 1⟩ :: outer := by
        simp [step, call, hf, hj]
      obtain ⟨events, count, hevents, hreturns, hask⟩ := ih hrest hcall (by simp [hcall])
      refine ⟨.call (ask j) :: events, count, List.forall_mem_cons.2 ⟨⟨_, rfl⟩, hevents⟩,
        hreturns.cons hlt, ?_⟩
      intro i request hrequest
      rw [requests, history_cons, List.filterMap_append, List.mem_append] at hrequest
      rcases hrequest with hfirst | hlater
      · obtain ⟨id, callback⟩ := r
        obtain rfl : callback = .cell j := hj
        by_cases hji : j = i
        · subst hji
          simpa [happening?, hf, Happening.request?] using hfirst
        · simp [happening?, hf, hji] at hfirst
      · exact hask i request hlater

/-- What is registered can be replayed, and any fetches may end afterwards. -/
theorem exists_replay (h : Hub ρ ν) (hcells : ∀ r ∈ h.registry.all, ∃ i, r.callback = .cell i)
    (ask : Nat → ρ) {afterwards : List (Event ρ ν)}
    (hlands : ∀ e ∈ afterwards, ∃ i generation landing, e = .land i generation landing) :
    ∃ during count, (∀ e ∈ during, ∃ request, e = .call request) ∧
      Replay h ask during afterwards count := by
  obtain ⟨during, count, hcalls, hreturns, hask⟩ :=
    exists_calls ask hcells (h := h.step .notifyAll) rfl
  refine ⟨during, count, hcalls, ?_, hlands, hreturns, ?_⟩
  · intro e he
    obtain ⟨request, rfl⟩ := hcalls e he
    exact .call request
  · intro i
    rw [requests_replay hlands]
    exact hask i

/-- An observed cell is registered once, and another one is not. -/
theorem Consistent.countP_all {h : Hub ρ ν} (hh : Consistent h) {i : Nat} {c : Cell ρ ν}
    (hget : h.cells[i]? = some c) :
    (h.registry.all.countP fun r => r.callback = .cell i) = if 0 < c.observers then 1 else 0 := by
  have hs := hh.cells i c hget
  have hlength := hs.registered.length_eq
  rw [registrationsOf, ← List.countP_eq_length_filter] at hlength
  rw [← Registry.map_entries, List.countP_map]
  refine hlength.trans ?_
  rw [remembered, List.length_map]
  split
  · next hpos =>
      obtain ⟨id, hid⟩ := Option.isSome_iff_exists.1 (hs.observed.2 hpos)
      rw [hid]
      rfl
  · next hzero =>
      rw [Option.not_isSome_iff_eq_none.1 fun hsome => hzero (hs.observed.1 hsome)]
      rfl

/-! ## The courses of a replay -/

/-- A cell is registered, under any topic. -/
def Registered (h : Hub ρ ν) (i : Nat) : Prop :=
  ∃ r ∈ h.registry.all, r.callback = .cell i

/-- A registered cell is observed, and registered once. -/
theorem Consistent.of_registered {h : Hub ρ ν} (hh : Consistent h) {i : Nat} (hi : h.Registered i) :
    ∃ c, h.cells[i]? = some c ∧ 0 < c.observers ∧
      (h.registry.all.countP fun r => r.callback = .cell i) = 1 := by
  obtain ⟨r, hr, hcallback⟩ := hi
  have hpos : 0 < h.registry.all.countP fun r => r.callback = .cell i :=
    List.countP_pos_iff.2 ⟨r, hr, decide_eq_true hcallback⟩
  rw [← Registry.map_entries] at hr
  obtain ⟨e, he, rfl⟩ := List.mem_map.1 hr
  have hget := List.getElem?_eq_getElem (hh.registeredCells e he i hcallback)
  have hcount := hh.countP_all hget
  split at hcount
  · next hobservers => exact ⟨_, hget, hobservers, hcount⟩
  · omega

/-- A course that a replay may take: the order of the topics, what happens before it returns, the count
it returns, and how fetches end afterwards. -/
structure Course (ρ ν : Type) where
  order : List Topic
  during : List (Event ρ ν)
  count : Nat
  afterwards : List (Event ρ ν)

/-- A hub with its topics in the order of a course. -/
def start (h : Hub ρ ν) (c : Course ρ ν) : Hub ρ ν :=
  h.yielding c.order

/-- The events of a course. -/
def Course.events (c : Course ρ ν) : List (Event ρ ν) :=
  replay c.during c.afterwards

/-- The hub at the end of a course. -/
def outcome (h : Hub ρ ν) (c : Course ρ ν) : Hub ρ ν :=
  (h.start c).run c.events

/-- A course that a replay of a hub can take. -/
structure Takes (h : Hub ρ ν) (ask : Nat → ρ) (c : Course ρ ν) : Prop where
  order : c.order.Perm h.registry.topics
  replay : Replay (h.start c) ask c.during c.afterwards c.count

/-- No fetch ends before everything is called. -/
def Course.CallsFirst (c : Course ρ ν) : Prop :=
  ∀ e ∈ c.during, ∃ request, e = .call request

/-- Two hubs agree in everything but the order of their topics. -/
structure SameState (h k : Hub ρ ν) : Prop where
  cells : h.cells = k.cells
  observers : h.observers = k.observers
  under : ∀ topic, h.registry.under topic = k.registry.under topic
  nextId : h.registry.nextId = k.registry.nextId
  handed : h.handed = k.handed
  nextObserver : h.nextObserver = k.nextObserver
  fanOuts : h.fanOuts = k.fanOuts

/-- What a replay of a hub does, whatever its course is. -/
structure OrderFree (h : Hub ρ ν) (ask : Nat → ρ) : Prop where
  /-- It can go through the topics in any order, and any fetches may end after it. -/
  possible : ∀ order, order.Perm h.registry.topics → ∀ afterwards : List (Event ρ ν),
    (∀ e ∈ afterwards, ∃ i generation landing, e = .land i generation landing) →
    ∃ c, h.Takes ask c ∧ c.CallsFirst ∧ c.order = order ∧ c.afterwards = afterwards
  /-- It returns the count of the registrations. -/
  returns : ∀ c, h.Takes ask c → c.count = h.registry.all.length
  /-- It asks once for what a registered cell asks for, and the cell's generation rises by one. -/
  registered : ∀ c, h.Takes ask c → ∀ i, h.Registered i →
    requests i (h.start c) c.events = [ask i] ∧
      ∃ before after, h.cells[i]? = some before ∧ (h.outcome c).cells[i]? = some after ∧
        after.generation = before.generation + 1
  /-- Of another cell it asks nothing. -/
  others : ∀ c, h.Takes ask c → ∀ i, ¬ h.Registered i →
    requests i (h.start c) c.events = [] ∧
      ((h.outcome c).cells[i]?).map (·.generation) = (h.cells[i]?).map (·.generation)
  /-- It leaves the registrations and the observers of every cell alone. -/
  holders : ∀ c, h.Takes ask c → (h.outcome c).cells.map Hub.holders = h.cells.map Hub.holders ∧
    (h.outcome c).observers = h.observers ∧
    ∀ topic, (h.outcome c).registry.under topic = h.registry.under topic
  /-- Two courses in which the same happens to every single cell lead to the same state, whatever the
  orders are and however what happens to different cells is interleaved. -/
  same : ∀ c c', h.Takes ask c → h.Takes ask c' →
    (∀ i, history i (h.start c) c.events = history i (h.start c') c'.events) →
    c.count = c'.count ∧ SameState (h.outcome c) (h.outcome c')
  /-- So it is enough that the fetches of every single cell end in the same order, once everything is
  called. -/
  landings : ∀ c c', h.Takes ask c → h.Takes ask c' → c.CallsFirst → c'.CallsFirst →
    (∀ i, landingsOf i c.afterwards = landingsOf i c'.afterwards) →
    c.count = c'.count ∧ SameState (h.outcome c) (h.outcome c')

/-- The same is registered at the start of every course. -/
theorem Takes.perm_all {h : Hub ρ ν} (hh : Consistent h) {ask : Nat → ρ} {c : Course ρ ν}
    (hc : h.Takes ask c) : (h.start c).registry.all.Perm h.registry.all :=
  Registry.perm_all_yielding hh.registry hc.order

theorem Takes.count_eq {h : Hub ρ ν} (hh : Consistent h) {ask : Nat → ρ} {c : Course ρ ν}
    (hc : h.Takes ask c) : c.count = h.registry.all.length :=
  hc.replay.count_eq.trans (hc.perm_all hh).length_eq

theorem Takes.requests_eq {h : Hub ρ ν} (hh : Consistent h) {ask : Nat → ρ} {c : Course ρ ν}
    (hc : h.Takes ask c) (i : Nat) : requests i (h.start c) c.events =
      List.replicate (h.registry.all.countP fun r => r.callback = .cell i) (ask i) := by
  rw [Course.events, hc.replay.requests_eq, (hc.perm_all hh).countP_eq]

/-- What becomes of a cell in a course. -/
theorem Takes.getElem?_outcome {h : Hub ρ ν} {ask : Nat → ρ} {c : Course ρ ν} (hc : h.Takes ask c)
    (i : Nat) : (h.outcome c).cells[i]? =
      (h.cells[i]?).map fun d => (history i (h.start c) c.events).foldl Happening.change d :=
  getElem?_run_of_replays hc.replay.replays (h.start c) i

/-- What happens to a cell in a course that calls everything before any fetch ends. -/
theorem Takes.history_eq {h : Hub ρ ν} (hh : Consistent h) {ask : Nat → ρ} {c : Course ρ ν}
    (hc : h.Takes ask c) (hcalls : c.CallsFirst) (i : Nat) : history i (h.start c) c.events =
      (List.replicate (h.registry.all.countP fun r => r.callback = .cell i) (ask i)).map .call ++
        (landingsOf i c.afterwards).map fun l => .land l.1 l.2 := by
  rw [← hc.requests_eq hh, Course.events, requests_replay hc.replay.lands,
    ← history_of_calls hcalls, Hub.replay, history_cons, history, seen_append, ← history, ← history,
    history_cons, history_of_lands hc.replay.lands]
  rfl

/-- Two courses in which the same happens to every single cell lead to the same state. -/
theorem Takes.sameState {h : Hub ρ ν} {ask : Nat → ρ} {c c' : Course ρ ν} (hc : h.Takes ask c)
    (hc' : h.Takes ask c')
    (hhistory : ∀ i, history i (h.start c) c.events = history i (h.start c') c'.events) :
    SameState (h.outcome c) (h.outcome c') := by
  have hcells : (h.outcome c).cells = (h.outcome c').cells := by
    refine List.ext_getElem? fun i => ?_
    rw [hc.getElem?_outcome, hc'.getElem?_outcome, hhistory]
  have hunder : ∀ topic, (h.start c).registry.under topic = (h.start c').registry.under topic :=
    fun topic => (Registry.under_yielding hc.order topic).trans
      (Registry.under_yielding hc'.order topic).symm
  have hfanOuts : (h.outcome c).fanOuts = (h.outcome c').fanOuts :=
    hc.replay.fanOuts_eq.trans hc'.replay.fanOuts_eq.symm
  have hframe := run_of_replays hc.replay.replays (h.start c)
  have hframe' := run_of_replays hc'.replay.replays (h.start c')
  rw [outcome, Course.events, hframe, outcome, Course.events, hframe']
  exact ⟨hcells, rfl, hunder, rfl, rfl, rfl, hfanOuts⟩

/-- If only cells are registered, the order in which a fan-out over everything goes through the topics
makes no difference: it returns the same count and calls each registered cell once, and however the
fetches of different cells then overtake each other, all ends in the same state. -/
theorem replay_in_any_order (before : List (Event ρ ν))
    (hcells : ∀ r ∈ ((empty : Hub ρ ν).run before).registry.all, ∃ i, r.callback = .cell i)
    (ask : Nat → ρ) : OrderFree ((empty : Hub ρ ν).run before) ask := by
  have hh := consistent_run (consistent_empty (ρ := ρ) (ν := ν)) before
  generalize (empty : Hub ρ ν).run before = h at hh hcells
  have hcount : ∀ c c', h.Takes ask c → h.Takes ask c' → c.count = c'.count := fun c c' hc hc' =>
    (hc.count_eq hh).trans (hc'.count_eq hh).symm
  constructor
  case possible =>
    intro order horder afterwards hlands
    have hyields : ∀ r ∈ (h.yielding order).registry.all, ∃ i, r.callback = .cell i := fun r hr =>
      hcells r ((Registry.perm_all_yielding hh.registry horder).mem_iff.1 hr)
    obtain ⟨during, count, hcalls, hr⟩ := exists_replay (h.yielding order) hyields ask hlands
    exact ⟨⟨order, during, count, afterwards⟩, ⟨horder, hr⟩, hcalls, rfl, rfl⟩
  case returns => exact fun c hc => hc.count_eq hh
  case registered =>
    intro c hc i hi
    obtain ⟨d, hget, hobservers, hone⟩ := hh.of_registered hi
    have hrequest := hc.requests_eq hh i
    rw [hone] at hrequest
    have hgeneration := @generation_foldl_change _ _ d (history i (h.start c) c.events)
      fun _ => hobservers
    rw [← requests, hrequest] at hgeneration
    have hafter := hc.getElem?_outcome i
    rw [hget, Option.map_some] at hafter
    exact ⟨hrequest, d, _, hget, hafter, hgeneration⟩
  case others =>
    intro c hc i hi
    have hzero : (h.registry.all.countP fun r => r.callback = .cell i) = 0 := by
      rw [List.countP_eq_zero]
      intro r hmem hcallback
      exact hi ⟨r, hmem, of_decide_eq_true hcallback⟩
    have hrequest := hc.requests_eq hh i
    rw [hzero] at hrequest
    refine ⟨hrequest, ?_⟩
    have hnone : (history i (h.start c) c.events).filterMap Happening.request? = [] := hrequest
    rw [hc.getElem?_outcome, Option.map_map]
    refine Option.map_congr fun d _ => ?_
    -- Without a call nothing is issued, whether anybody observes the cell or not.
    rw [Function.comp_apply, generation_foldl_change fun hcalled => absurd hnone hcalled, hnone]
    rfl
  case holders =>
    intro c hc
    have hframe := run_of_replays hc.replay.replays (h.start c)
    refine ⟨?_, ?_, ?_⟩
    · refine List.ext_getElem? fun i => ?_
      rw [List.getElem?_map, List.getElem?_map, hc.getElem?_outcome, Option.map_map]
      exact Option.map_congr fun d _ => holders_foldl_change d _
    · rw [outcome, Course.events, hframe]
      rfl
    · intro topic
      rw [outcome, Course.events, hframe]
      exact Registry.under_yielding hc.order topic
  case same => exact fun c c' hc hc' hhistory => ⟨hcount c c' hc hc', hc.sameState hc' hhistory⟩
  case landings =>
    intro c c' hc hc' hcalls hcalls' hlandings
    refine ⟨hcount c c' hc hc', hc.sameState hc' fun i => ?_⟩
    rw [hc.history_eq hh hcalls, hc'.history_eq hh hcalls', hlandings]

/-- Two cells under different topics, the second of which has not heard of its first fetch. -/
def twoTopics : List (Event Nat Nat) :=
  [.create .user false, .create .apod true, .observe 0 10, .observe 1 20, .land 0 1 (.value 5)]

theorem replay_of_twoTopics :
    [Topic.apod, .user].Perm ((empty : Hub Nat Nat).run twoTopics).registry.topics ∧
      (∀ r ∈ ((empty : Hub Nat Nat).run twoTopics).registry.all, ∃ i, r.callback = .cell i) ∧
      ∃ c, Takes ((empty : Hub Nat Nat).run twoTopics) (fun i => 10 * (i + 1)) c ∧
        c.order = [.apod, .user] ∧ c.afterwards = [.land 1 2 (.value 8), .land 0 2 (.value 7)] ∧
        c.count = 2 ∧
        requests 0 (((empty : Hub Nat Nat).run twoTopics).start c) c.events = [10] := by
  have hcells : ∀ r ∈ ((empty : Hub Nat Nat).run twoTopics).registry.all, ∃ i,
      r.callback = .cell i := by
    have hall : ((empty : Hub Nat Nat).run twoTopics).registry.all = [⟨0, .cell 0⟩, ⟨1, .cell 1⟩] := by
      decide
    rw [hall, List.forall_mem_cons, List.forall_mem_singleton]
    exact ⟨⟨0, rfl⟩, ⟨1, rfl⟩⟩
  have hperm : [Topic.apod, .user].Perm
      ((empty : Hub Nat Nat).run twoTopics).registry.topics := by decide
  have hfree := replay_in_any_order twoTopics hcells (fun i => 10 * (i + 1))
  obtain ⟨c, hc, -, horder, hafterwards⟩ := hfree.possible _ hperm
    [.land 1 2 (.value 8), .land 0 2 (.value 7)] (by simp)
  exact ⟨hperm, hcells, c, hc, horder, hafterwards, hfree.returns c hc,
    (hfree.registered c hc 0 ⟨⟨0, .cell 0⟩, by decide, rfl⟩).1⟩

/-- The second cell is called first and gives up its fetch; its new one ends after the other's. -/
example :
    let h : Hub Nat Nat := (empty.run twoTopics)
    let h' := h.yielding [.apod, .user]
    (h.run (replay [.call 10, .call 20] [.land 0 2 (.value 7), .land 1 2 (.value 8)])).cells =
      (h'.run (replay [.call 20, .call 10] [.land 1 2 (.value 8), .land 0 2 (.value 7)])).cells := by
  decide

end Hub

end LiveFeed
