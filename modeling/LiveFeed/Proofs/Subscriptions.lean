import Mathlib.Data.List.Nodup
import LiveFeed.Proofs.CellSteps
import LiveFeed.Proofs.Registrations

/-!
# Subscriptions of cells

A cell counts its observers and remembers the number of its registration.  The registry, the count and
the handles that observers hold tell the same story in every reachable state, whatever is registered
or removed by others and whatever fan-outs are in progress.

* `Hub.Subscribed`: what is registered of a cell and how many handles there are;
* `Hub.Consistent`, `Hub.consistent_run`: the invariant of a hub;
* `Hub.subscriptions`: a cell is registered once, under its topic, exactly while it is observed.
-/

namespace LiveFeed

variable {ρ ν : Type}

namespace Hub

/-- The live handles of observers of a cell. -/
def handles (h : Hub ρ ν) (i : Nat) : List Observer :=
  h.observers.filter fun o => o.cell = i

/-- What the registry holds of a cell, under any topic. -/
def registrationsOf (h : Hub ρ ν) (i : Nat) : List (Topic × Registration Callee) :=
  h.registry.entries.filter fun e => e.2.callback = .cell i

/-- The entry of a cell's registration, if the cell remembers one. -/
def remembered (i : Nat) (c : Cell ρ ν) : List (Topic × Registration Callee) :=
  c.registration.toList.map fun id => (c.topic, ⟨id, .cell i⟩)

/-- The count, the registration and the handles of a cell agree. -/
structure Subscribed (h : Hub ρ ν) (i : Nat) (c : Cell ρ ν) : Prop where
  counted : c.observers = (h.handles i).length
  registered : (h.registrationsOf i).Perm (remembered i c)
  observed : c.registration.isSome = true ↔ 0 < c.observers

/-- All that a hub knows of observers and registrations agrees. -/
structure Consistent (h : Hub ρ ν) : Prop where
  registry : h.registry.WellFormed
  handedBound : ∀ id ∈ h.handed, id < h.registry.nextId
  notHanded : ∀ e ∈ h.registry.entries, ∀ i, e.2.callback = .cell i → e.2.id ∉ h.handed
  observerIds : (h.observers.map (·.id)).Nodup
  observerBound : ∀ o ∈ h.observers, o.id < h.nextObserver
  observedCells : ∀ o ∈ h.observers, o.cell < h.cells.length
  registeredCells : ∀ e ∈ h.registry.entries, ∀ i, e.2.callback = .cell i → i < h.cells.length
  cells : ∀ i c, h.cells[i]? = some c → h.Subscribed i c

theorem consistent_empty : Consistent (empty : Hub ρ ν) := by
  refine ⟨⟨?_, ?_, ?_⟩, ?_, ?_, ?_, ?_, ?_, ?_, ?_⟩ <;>
    simp [empty, Registry.empty, Registry.entries, Registry.flatten]

/-! ## Events that are nothing to observers -/

/-- What observers and the registry have to do with a cell. -/
def holders (c : Cell ρ ν) : Topic × Nat × Option Nat :=
  (c.topic, c.observers, c.registration)

theorem Subscribed.of_holders {h h' : Hub ρ ν} {i : Nat} {c c' : Cell ρ ν} (hs : h.Subscribed i c)
    (hregistrations : h'.registrationsOf i = h.registrationsOf i)
    (hhandles : (h'.handles i).length = (h.handles i).length) (heq : holders c' = holders c) :
    h'.Subscribed i c' := by
  simp only [holders, Prod.mk.injEq] at heq
  rcases heq with ⟨htopic, hobservers, hregistration⟩
  refine ⟨?_, ?_, ?_⟩
  · rw [hobservers, hhandles, hs.counted]
  · rw [hregistrations, remembered, htopic, hregistration]
    exact hs.registered
  · rw [hobservers, hregistration]
    exact hs.observed

/-- An event that leaves the registry alone, the cells' holders and the observers' cells keeps a hub
consistent. -/
theorem Consistent.frame {h h' : Hub ρ ν} (hc : Consistent h) (hregistry : h'.registry = h.registry)
    (hhanded : h'.handed = h.handed)
    (hobservers : h'.observers.map (fun o => (o.id, o.cell)) =
      h.observers.map fun o => (o.id, o.cell))
    (hnext : h'.nextObserver = h.nextObserver)
    (hcells : h'.cells.map holders = h.cells.map holders) : Consistent h' := by
  have hlength : h'.cells.length = h.cells.length := by
    simpa using congrArg List.length hcells
  -- Each handle of the new hub is one of the old hub that may have seen less.
  have hmem : ∀ o ∈ h'.observers, ∃ p ∈ h.observers, p.id = o.id ∧ p.cell = o.cell := by
    intro o ho
    have hpair : (o.id, o.cell) ∈ h.observers.map fun o => (o.id, o.cell) := by
      rw [← hobservers]
      exact List.mem_map.2 ⟨o, ho, rfl⟩
    rcases List.mem_map.1 hpair with ⟨p, hp, heq⟩
    exact ⟨p, hp, congrArg Prod.fst heq, congrArg Prod.snd heq⟩
  refine ⟨?_, ?_, ?_, ?_, ?_, ?_, ?_, ?_⟩
  · rw [hregistry]
    exact hc.registry
  · rw [hregistry, hhanded]
    exact hc.handedBound
  · rw [hregistry, hhanded]
    exact hc.notHanded
  · have hids := congrArg (List.map Prod.fst) hobservers
    simp only [List.map_map, Function.comp_def] at hids
    rw [hids]
    exact hc.observerIds
  · intro o ho
    rcases hmem o ho with ⟨p, hp, hid, -⟩
    rw [hnext, ← hid]
    exact hc.observerBound p hp
  · intro o ho
    rcases hmem o ho with ⟨p, hp, -, hcell⟩
    rw [hlength, ← hcell]
    exact hc.observedCells p hp
  · rw [hregistry, hlength]
    exact hc.registeredCells
  · intro i c' hc'
    -- The cell was there before, with the same holders.
    have hholders : (h.cells[i]?).map holders = some (holders c') := by
      rw [← List.getElem?_map, ← hcells, List.getElem?_map, hc']
      rfl
    rcases Option.map_eq_some_iff.1 hholders with ⟨c, hget, heq⟩
    refine (hc.cells i c hget).of_holders ?_ ?_ heq.symm
    · rw [registrationsOf, registrationsOf, hregistry]
    · have hcount := congrArg (List.countP fun p => decide (p.2 = i)) hobservers
      simpa [handles, List.countP_map, Function.comp_def, ← List.countP_eq_length_filter] using hcount

/-- An event that changes one cell, and not its holders, keeps a hub consistent. -/
theorem Consistent.modifyCell {h : Hub ρ ν} (hc : Consistent h) {i : Nat}
    {f : Cell ρ ν → Cell ρ ν} (hf : ∀ c, holders (f c) = holders c) :
    Consistent (h.modifyCell i f) :=
  hc.frame rfl rfl rfl rfl (map_modify_eq hf h.cells i)

theorem Consistent.fanOuts {h : Hub ρ ν} (hc : Consistent h) (fanOuts : List FanOut) :
    Consistent { h with fanOuts := fanOuts } :=
  hc.frame rfl rfl rfl rfl rfl

/-! ## Cells, callbacks of others -/

theorem Consistent.create {h : Hub ρ ν} (hc : Consistent h) (topic : Topic) (aborting : Bool) :
    Consistent (h.create topic aborting) := by
  have hlength : (h.create topic aborting).cells.length = h.cells.length + 1 := by
    simp [Hub.create]
  refine ⟨hc.registry, hc.handedBound, hc.notHanded, hc.observerIds, hc.observerBound, ?_, ?_, ?_⟩
  · intro o ho
    rw [hlength]
    exact Nat.lt_succ_of_lt (hc.observedCells o ho)
  · intro e he i hi
    rw [hlength]
    exact Nat.lt_succ_of_lt (hc.registeredCells e he i hi)
  · intro i c hget
    rcases Nat.lt_or_ge i h.cells.length with hlt | hge
    · rw [Hub.create, List.getElem?_append_left hlt] at hget
      exact (hc.cells i c hget).of_holders rfl rfl rfl
    · -- Nothing is registered and nobody observes beyond the cells there were.
      rw [Hub.create, List.getElem?_append_right hge] at hget
      obtain rfl : c = .create topic aborting := by
        simpa using List.mem_of_getElem? hget
      refine ⟨?_, ?_, by simp [Cell.create]⟩
      · have hnone : (h.create topic aborting).handles i = [] := by
          refine List.filter_eq_nil_iff.2 ?_
          intro o ho
          have := hc.observedCells o ho
          simp only [decide_eq_true_eq]
          omega
        rw [hnone]
        rfl
      · have hnone : (h.create topic aborting).registrationsOf i = [] := by
          refine List.filter_eq_nil_iff.2 ?_
          intro e he
          simp only [decide_eq_true_eq]
          intro hcell
          have := hc.registeredCells e he i hcell
          omega
        rw [hnone]
        exact .refl _

/-- What a new registration adds to what is registered of a cell. -/
theorem perm_registrationsOf_register {h h' : Hub ρ ν} {topic : Topic} {callee : Callee}
    (hregistry : h'.registry = h.registry.register topic callee) (i : Nat) :
    (h'.registrationsOf i).Perm (h.registrationsOf i ++
      if callee = .cell i then [(topic, ⟨h.registry.nextId, callee⟩)] else []) := by
  have hperm := (h.registry.perm_entries_register topic callee).filter
    fun e => decide (e.2.callback = .cell i)
  rw [registrationsOf, hregistry]
  refine hperm.trans ?_
  rw [List.filter_append]
  refine List.Perm.append_left _ ?_
  by_cases hi : callee = .cell i
  · simp [hi]
  · simp [hi]

theorem Consistent.register {h : Hub ρ ν} (hc : Consistent h) (topic : Topic) (label : Nat) :
    Consistent (h.register topic label) := by
  have hmem : ∀ e ∈ (h.register topic label).registry.entries, ∀ i, e.2.callback = .cell i →
      e ∈ h.registry.entries := by
    intro e he i hi
    have he' := (h.registry.perm_entries_register topic (.plain label)).mem_iff.1 he
    rcases List.mem_append.1 he' with he' | he'
    · exact he'
    · obtain rfl : e = (topic, ⟨h.registry.nextId, .plain label⟩) := by simpa using he'
      cases hi
  refine ⟨hc.registry.register topic _, ?_, ?_, hc.observerIds, hc.observerBound, hc.observedCells,
    ?_, ?_⟩
  · intro id hid
    rcases List.mem_append.1 hid with hid | hid
    · exact Nat.lt_succ_of_lt (hc.handedBound id hid)
    · obtain rfl : id = h.registry.nextId := by simpa using hid
      exact Nat.lt_succ_self _
  · intro e he i hi hid
    have he' := hmem e he i hi
    rcases List.mem_append.1 hid with hid | hid
    · exact hc.notHanded e he' i hi hid
    · have hlt := hc.registry.bound e he'
      have heq : e.2.id = h.registry.nextId := by simpa using hid
      omega
  · intro e he i hi
    exact hc.registeredCells e (hmem e he i hi) i hi
  · intro i c hget
    have hs := hc.cells i c hget
    -- What is registered is nobody's cell.
    have hne : (Callee.plain label) ≠ .cell i := fun heq => by cases heq
    refine ⟨hs.counted, ?_, hs.observed⟩
    refine (perm_registrationsOf_register (h := h) rfl i).trans ?_
    rw [if_neg hne, List.append_nil]
    exact hs.registered

/-- Removing what is not a cell's leaves what is registered of the cell. -/
theorem registrationsOf_unregister {h h' : Hub ρ ν} (hc : Consistent h) {id : Nat} {topic : Topic}
    (hregistry : h'.registry = h.registry.unregister id topic) {i : Nat}
    (hne : ∀ e ∈ h.registry.entries, e.2.callback = .cell i → ¬(e.1 = topic ∧ e.2.id = id)) :
    h'.registrationsOf i = h.registrationsOf i := by
  rw [registrationsOf, hregistry, Registry.entries_unregister hc.registry, List.filter_filter,
    registrationsOf]
  refine List.filter_congr ?_
  intro e he
  -- Only the entries of this cell count, and none of them goes.
  by_cases hi : e.2.callback = .cell i
  · have hnot : (decide (e.1 = topic) && decide (e.2.id = id)) = false := by
      simpa using hne e he hi
    simp [hi, hnot]
  · simp [hi]

theorem Consistent.unregister {h : Hub ρ ν} (hc : Consistent h) (id : Nat) (topic : Topic) :
    Consistent (h.unregister id topic) := by
  by_cases hid : id ∈ h.handed
  · have heq : h.unregister id topic = { h with registry := h.registry.unregister id topic } := by
      simp [Hub.unregister, hid]
    have hsub : ∀ e ∈ (h.registry.unregister id topic).entries, e ∈ h.registry.entries := by
      intro e he
      rw [Registry.entries_unregister hc.registry] at he
      exact (List.mem_filter.1 he).1
    rw [heq]
    refine ⟨hc.registry.unregister id topic, hc.handedBound, ?_, hc.observerIds, hc.observerBound,
      hc.observedCells, ?_, ?_⟩
    · intro e he
      exact hc.notHanded e (hsub e he)
    · intro e he
      exact hc.registeredCells e (hsub e he)
    · intro i c hget
      have hs := hc.cells i c hget
      refine ⟨hs.counted, ?_, hs.observed⟩
      -- Nobody was told the number of a cell's registration.
      rw [registrationsOf_unregister hc rfl fun e he hi hid' =>
        hc.notHanded e he i hi (hid'.2 ▸ hid)]
      exact hs.registered
  · have heq : h.unregister id topic = h := by
      simp [Hub.unregister, hid]
    rw [heq]
    exact hc

/-! ## The first observer, further ones, and the last one -/

theorem Consistent.not_registered {h : Hub ρ ν} (hc : Consistent h) {i : Nat} {c : Cell ρ ν}
    (hget : h.cells[i]? = some c) (h0 : c.observers = 0) : h.registrationsOf i = [] := by
  have hs := hc.cells i c hget
  have hnone : c.registration = none := by
    cases hr : c.registration with
    | none => rfl
    | some id =>
        have := hs.observed.1 (by simp [hr])
        omega
  have hperm := hs.registered
  rw [remembered, hnone] at hperm
  exact List.perm_nil.1 hperm

/-- A new handle is told apart from the others, and is one of a cell that exists. -/
theorem Consistent.new_handle {h : Hub ρ ν} (hc : Consistent h) {i : Nat}
    (hlt : i < h.cells.length) (seen : Nat) {observers : List Observer}
    (heq : observers = h.observers ++ [⟨h.nextObserver, i, seen⟩]) :
    (observers.map (·.id)).Nodup ∧ (∀ o ∈ observers, o.id < h.nextObserver + 1) ∧
      ∀ o ∈ observers, o.cell < h.cells.length := by
  have hmem : ∀ o ∈ observers, o ∈ h.observers ∨ o = ⟨h.nextObserver, i, seen⟩ := by
    intro o ho
    simpa [heq] using ho
  refine ⟨?_, ?_, ?_⟩
  · rw [heq, List.map_append, List.nodup_append]
    refine ⟨hc.observerIds, by simp, ?_⟩
    intro id hid id' hid'
    rcases List.mem_map.1 hid with ⟨o, ho, rfl⟩
    have hbound := hc.observerBound o ho
    obtain rfl : id' = h.nextObserver := by simpa using hid'
    exact Nat.ne_of_lt hbound
  · intro o ho
    rcases hmem o ho with ho | rfl
    · exact Nat.lt_succ_of_lt (hc.observerBound o ho)
    · exact Nat.lt_succ_self _
  · intro o ho
    rcases hmem o ho with ho | rfl
    · exact hc.observedCells o ho
    · exact hlt

theorem length_handles_append (observers : List Observer) (o : Observer) (i : Nat) :
    ((observers ++ [o]).filter fun p => p.cell = i).length =
      (observers.filter fun p => p.cell = i).length + if o.cell = i then 1 else 0 := by
  rw [List.filter_append, List.length_append]
  by_cases hi : o.cell = i
  · simp [hi]
  · simp [hi]

theorem Consistent.observe_first {h : Hub ρ ν} (hc : Consistent h) {i : Nat} {c : Cell ρ ν}
    (hget : h.cells[i]? = some c) (h0 : c.observers = 0) (request : ρ) :
    Consistent
      { h.modifyCell i (fun c => c.wake h.registry.nextId request) with
        registry := h.registry.register c.topic (.cell i)
        observers := h.observers ++ [⟨h.nextObserver, i, c.version⟩]
        nextObserver := h.nextObserver + 1 } := by
  have hlt : i < h.cells.length := (List.getElem?_eq_some_iff.1 hget).1
  rcases hc.new_handle hlt c.version rfl with ⟨hids, hbound, hcells⟩
  have hlength : (h.modifyCell i fun c => c.wake h.registry.nextId request).cells.length =
      h.cells.length := List.length_modify ..
  have hmem : ∀ e ∈ (h.registry.register c.topic (.cell i)).entries,
      e ∈ h.registry.entries ∨ e = (c.topic, ⟨h.registry.nextId, .cell i⟩) := by
    intro e he
    have he' := (h.registry.perm_entries_register c.topic (.cell i)).mem_iff.1 he
    simpa using he'
  refine ⟨hc.registry.register c.topic _, ?_, ?_, hids, hbound, ?_, ?_, ?_⟩
  · intro id hid
    exact Nat.lt_succ_of_lt (hc.handedBound id hid)
  · intro e he j hj hid
    rcases hmem e he with he' | rfl
    · exact hc.notHanded e he' j hj hid
    · -- The number of the new registration was never told to anybody.
      exact Nat.lt_irrefl _ (hc.handedBound _ hid)
  · rw [hlength]
    exact hcells
  · intro e he j hj
    rw [hlength]
    rcases hmem e he with he' | rfl
    · exact hc.registeredCells e he' j hj
    · cases hj
      exact hlt
  · refine forall_modifyCell hget ?_ ?_
    · have hs := hc.cells i c hget
      refine ⟨?_, ?_, ?_⟩
      · rw [handles, length_handles_append, if_pos rfl]
        have hcount := hs.counted
        rw [handles] at hcount
        simp [Cell.wake, ← hcount]
      · refine (perm_registrationsOf_register (h := h) rfl i).trans ?_
        -- Nothing was registered of the cell, so the new entry is the only one.
        rw [hc.not_registered hget h0, if_pos rfl]
        simp [remembered, Cell.wake]
      · simp [Cell.wake]
    · intro j d hij hd
      have hs := hc.cells j d hd
      refine ⟨?_, ?_, hs.observed⟩
      · rw [handles, length_handles_append, if_neg hij]
        exact hs.counted
      · have hne : (Callee.cell i) ≠ .cell j := fun heq => hij (Callee.cell.inj heq)
        refine (perm_registrationsOf_register (h := h) rfl j).trans ?_
        rw [if_neg hne, List.append_nil]
        exact hs.registered

theorem Consistent.observe_again {h : Hub ρ ν} (hc : Consistent h) {i : Nat} {c : Cell ρ ν}
    (hget : h.cells[i]? = some c) (h0 : c.observers ≠ 0) :
    Consistent
      { h.modifyCell i (fun c => { c with observers := c.observers + 1 }) with
        observers := h.observers ++ [⟨h.nextObserver, i, c.version⟩]
        nextObserver := h.nextObserver + 1 } := by
  have hlt : i < h.cells.length := (List.getElem?_eq_some_iff.1 hget).1
  rcases hc.new_handle hlt c.version rfl with ⟨hids, hbound, hcells⟩
  have hlength : (h.modifyCell i fun c => { c with observers := c.observers + 1 }).cells.length =
      h.cells.length := List.length_modify ..
  refine ⟨hc.registry, hc.handedBound, hc.notHanded, hids, hbound, ?_, ?_, ?_⟩
  · rw [hlength]
    exact hcells
  · intro e he j hj
    rw [hlength]
    exact hc.registeredCells e he j hj
  · refine forall_modifyCell hget ?_ ?_
    · have hs := hc.cells i c hget
      refine ⟨?_, hs.registered, ?_⟩
      · rw [handles, length_handles_append, if_pos rfl]
        exact congrArg (· + 1) hs.counted
      · have hsome := hs.observed.2 (Nat.pos_of_ne_zero h0)
        -- It was registered when it was observed first.
        exact ⟨fun _ => Nat.succ_pos _, fun _ => hsome⟩
    · intro j d hij hd
      have hs := hc.cells j d hd
      refine ⟨?_, hs.registered, hs.observed⟩
      rw [handles, length_handles_append, if_neg hij]
      exact hs.counted

/-- Dropping a handle takes off that one and no other. -/
theorem perm_observers_cons {observers : List Observer} (hnodup : (observers.map (·.id)).Nodup)
    {o : Observer} (ho : o ∈ observers) :
    observers.Perm (o :: observers.filter fun p => p.id ≠ o.id) := by
  induction observers with
  | nil => cases ho
  | cons p observers ih =>
      rw [List.map_cons, List.nodup_cons] at hnodup
      rcases List.mem_cons.1 ho with rfl | ho
      · have hrest : observers.filter (fun q => q.id ≠ o.id) = observers := by
          refine List.filter_eq_self.2 ?_
          intro q hq
          have hne : q.id ≠ o.id := by
            intro heq
            exact hnodup.1 (List.mem_map.2 ⟨q, hq, heq⟩)
          simpa using hne
        rw [List.filter_cons_of_neg (by simp), hrest]
      · have hne : p.id ≠ o.id := by
          intro heq
          exact hnodup.1 (List.mem_map.2 ⟨o, ho, heq.symm⟩)
        rw [List.filter_cons_of_pos (by simpa using hne)]
        exact ((ih hnodup.2 ho).cons p).trans (.swap o p _)

theorem length_handles_filter {h : Hub ρ ν} (hc : Consistent h) {o : Observer}
    (ho : o ∈ h.observers) (i : Nat) :
    (h.handles i).length =
      ((h.observers.filter fun p => p.id ≠ o.id).filter fun p => p.cell = i).length +
        if o.cell = i then 1 else 0 := by
  have hperm := (perm_observers_cons hc.observerIds ho).filter fun p => decide (p.cell = i)
  rw [handles, hperm.length_eq]
  by_cases hi : o.cell = i
  · rw [List.filter_cons_of_pos (by simpa using hi), if_pos hi, List.length_cons]
  · rw [List.filter_cons_of_neg (by simpa using hi), if_neg hi, Nat.add_zero]

theorem Consistent.filter_observers {h : Hub ρ ν} (hc : Consistent h) (id : Nat) :
    ((h.observers.filter fun p => p.id ≠ id).map (·.id)).Nodup ∧
      (∀ o ∈ h.observers.filter fun p => p.id ≠ id, o.id < h.nextObserver) ∧
      ∀ o ∈ h.observers.filter fun p => p.id ≠ id, o.cell < h.cells.length := by
  refine ⟨hc.observerIds.sublist (List.filter_sublist.map _), ?_, ?_⟩
  · intro o ho
    exact hc.observerBound o (List.mem_filter.1 ho).1
  · intro o ho
    exact hc.observedCells o (List.mem_filter.1 ho).1

theorem Consistent.unobserve_other {h : Hub ρ ν} (hc : Consistent h) {o : Observer}
    (ho : o ∈ h.observers) {c : Cell ρ ν} (hget : h.cells[o.cell]? = some c)
    (hmore : 2 ≤ c.observers) :
    Consistent
      { h.modifyCell o.cell (fun c => { c with observers := c.observers - 1 }) with
        observers := h.observers.filter fun p => p.id ≠ o.id } := by
  have hlength : (h.modifyCell o.cell fun c => { c with observers := c.observers - 1 }).cells.length =
      h.cells.length := List.length_modify ..
  rcases hc.filter_observers o.id with ⟨hids, hbound, hcells⟩
  refine ⟨hc.registry, hc.handedBound, hc.notHanded, hids, hbound, ?_, ?_, ?_⟩
  · rw [hlength]
    exact hcells
  · rw [hlength]
    exact hc.registeredCells
  · refine forall_modifyCell hget ?_ ?_
    · have hs := hc.cells o.cell c hget
      have hcount := length_handles_filter hc ho o.cell
      rw [if_pos rfl, ← hs.counted] at hcount
      have hsome := hs.observed.2 (by omega)
      -- Another handle is left, so the registration stays.
      exact ⟨Nat.sub_eq_of_eq_add hcount, hs.registered,
        fun _ => Nat.sub_pos_of_lt hmore, fun _ => hsome⟩
    · intro j d hij hd
      have hs := hc.cells j d hd
      have hcount := length_handles_filter hc ho j
      rw [if_neg hij] at hcount
      exact ⟨hs.counted.trans hcount, hs.registered, hs.observed⟩

theorem Consistent.unobserve_last {h : Hub ρ ν} (hc : Consistent h) {o : Observer}
    (ho : o ∈ h.observers) {c : Cell ρ ν} (hget : h.cells[o.cell]? = some c)
    (hlast : c.observers ≤ 1) {id : Nat} (hid : c.registration = some id) :
    Consistent
      { h.modifyCell o.cell (fun c => { c with observers := c.observers - 1, registration := none })
        with
        registry := h.registry.unregister id c.topic
        observers := h.observers.filter fun p => p.id ≠ o.id } := by
  have hlength : (h.modifyCell o.cell fun c =>
      { c with observers := c.observers - 1, registration := none }).cells.length =
      h.cells.length := List.length_modify ..
  have hsub : ∀ e ∈ (h.registry.unregister id c.topic).entries, e ∈ h.registry.entries := by
    intro e he
    rw [Registry.entries_unregister hc.registry] at he
    exact (List.mem_filter.1 he).1
  have hs := hc.cells o.cell c hget
  -- The entry that goes is the only one of the cell.
  have hregistered : h.registrationsOf o.cell = [(c.topic, ⟨id, .cell o.cell⟩)] := by
    have hperm := hs.registered
    rw [remembered, hid] at hperm
    exact List.perm_singleton.1 hperm
  rcases hc.filter_observers o.id with ⟨hids, hbound, hcells⟩
  refine ⟨hc.registry.unregister id c.topic, hc.handedBound, ?_, hids, hbound, ?_, ?_, ?_⟩
  · intro e he
    exact hc.notHanded e (hsub e he)
  · rw [hlength]
    exact hcells
  · intro e he
    rw [hlength]
    exact hc.registeredCells e (hsub e he)
  · refine forall_modifyCell hget ?_ ?_
    · have hcount := length_handles_filter hc ho o.cell
      rw [if_pos rfl, ← hs.counted] at hcount
      refine ⟨Nat.sub_eq_of_eq_add hcount, ?_, ?_⟩
      · have hnone : (h.registrationsOf o.cell).filter
            (fun e => !(decide (e.1 = c.topic) && decide (e.2.id = id))) = [] := by
          simp [hregistered]
        rw [registrationsOf, List.filter_filter] at hnone
        simp only [registrationsOf, Registry.entries_unregister hc.registry, List.filter_filter]
        simp only [Bool.and_comm] at hnone ⊢
        rw [hnone]
        exact .refl _
      · simp
        omega
    · intro j d hij hd
      have hs' := hc.cells j d hd
      have hcount := length_handles_filter hc ho j
      rw [if_neg hij] at hcount
      refine ⟨hs'.counted.trans hcount, ?_, hs'.observed⟩
      rw [registrationsOf_unregister (h := h) hc rfl]
      · exact hs'.registered
      · -- The number stands for the registration of the other cell.
        rintro e he hj ⟨-, hid'⟩
        have hmem : (c.topic, ⟨id, Callee.cell o.cell⟩) ∈ h.registry.entries :=
          (List.mem_filter.1 (hregistered ▸ List.mem_singleton_self _)).1
        have heq := List.inj_on_of_nodup_map hc.registry.ids he hmem hid'
        rw [heq] at hj
        exact hij (Callee.cell.inj hj)

theorem Consistent.unobserve {h : Hub ρ ν} (hc : Consistent h) (id : Nat) :
    Consistent (h.unobserve id) := by
  rcases unobserve_cases h id with ⟨hsame, -⟩ | ⟨o, hfind, hcases⟩
  · rw [hsame]
    exact hc
  · have ho : o ∈ h.observers := List.mem_of_find?_eq_some hfind
    obtain rfl : o.id = id := by simpa using List.find?_some hfind
    have hlt := hc.observedCells o ho
    rcases hcases with ⟨hnone, -⟩ | ⟨c, hget, ⟨hmore, heq⟩ | ⟨r, hlast, hr, heq⟩⟩
    · -- A handle is never one of a cell that does not exist.
      rw [List.getElem?_eq_getElem hlt] at hnone
      cases hnone
    · have hs := hc.cells o.cell c hget
      -- The handle that is dropped was counted.
      have hpos : 0 < c.observers := by
        have hcount := length_handles_filter hc ho o.cell
        rw [if_pos rfl, ← hs.counted] at hcount
        omega
      rw [heq]
      refine hc.unobserve_other ho hget ?_
      rcases hmore with hmore | hnone
      · exact hmore
      · have hsome := hs.observed.2 hpos
        simp [hnone] at hsome
    · rw [heq]
      exact hc.unobserve_last ho hget hlast hr

theorem Consistent.observe {h : Hub ρ ν} (hc : Consistent h) (i : Nat) (request : ρ) :
    Consistent (h.observe i request) := by
  rcases observe_cases h i request with hsame | ⟨c, hget, ⟨h0, heq⟩ | ⟨h0, heq⟩⟩
  · rw [hsame]
    exact hc
  · rw [heq]
    exact hc.observe_first hget h0 request
  · rw [heq]
    exact hc.observe_again hget h0

/-! ## Every reachable state -/

theorem holders_issue (c : Cell ρ ν) (request : ρ) : holders (c.issue request) = holders c := by
  simp [holders]

theorem holders_land (c : Cell ρ ν) (generation : Nat) (landing : Landing ν) :
    holders (c.land generation landing) = holders c := by
  rcases c.holders_land generation landing with ⟨htopic, hobservers, hregistration⟩
  simp [holders, htopic, hobservers, hregistration]

theorem Consistent.call {h : Hub ρ ν} (hc : Consistent h) (request : ρ) :
    Consistent (h.call request) := by
  rcases call_cases h request with hsame | ⟨r, pending, ran, outer, -, ⟨i, -, heq⟩ | ⟨_, -, heq⟩⟩
  · rw [hsame]
    exact hc
  · rw [heq]
    refine Consistent.fanOuts (hc.modifyCell ?_) _
    intro c
    split
    · exact holders_issue c request
    · rfl
  · rw [heq]
    exact hc.fanOuts _

theorem consistent_step {h : Hub ρ ν} (hc : Consistent h) (e : Event ρ ν) :
    Consistent (h.step e) := by
  cases e with
  | create topic aborting => exact hc.create topic aborting
  | disown i =>
      refine hc.modifyCell ?_
      intro c
      rfl
  | observe i request => exact hc.observe i request
  | unobserve id => exact hc.unobserve id
  | poll id =>
      refine hc.frame rfl rfl ?_ rfl rfl
      rw [step, poll, List.map_map]
      refine List.map_congr_left ?_
      intro o _
      simp only [Function.comp_def]
      split
      · split <;> rfl
      · rfl
  | update i request =>
      refine hc.modifyCell ?_
      intro c
      split
      · exact holders_issue c request
      · rfl
  | land i generation landing =>
      refine hc.modifyCell ?_
      intro c
      exact holders_land c generation landing
  | join i generation =>
      refine hc.modifyCell ?_
      intro c
      split <;> rfl
  | register topic label => exact hc.register topic label
  | unregister id topic => exact hc.unregister id topic
  | notify topic => exact hc.fanOuts _
  | notifyAll => exact hc.fanOuts _
  | call request => exact hc.call request
  | leave crashed =>
      rw [step, leave]
      split
      · exact hc.fanOuts _
      · exact hc
  | finish =>
      rw [step, finish]
      split
      · exact hc.fanOuts _
      · exact hc

theorem consistent_run {h : Hub ρ ν} (hc : Consistent h) (events : List (Event ρ ν)) :
    Consistent (h.run events) := by
  induction events generalizing h with
  | nil => exact hc
  | cons e events ih => exact ih (consistent_step hc e)

/-- In every reachable state each cell counts exactly the live handles of its observers; while there
are any, the registry holds one registration of it, under its topic and with the number it remembers,
and otherwise none.  So a handle that is dropped was counted, and what is registered is alive. -/
theorem subscriptions (events : List (Event ρ ν)) :
    (∀ i c, ((empty : Hub ρ ν).run events).cells[i]? = some c →
        c.observers = (((empty : Hub ρ ν).run events).handles i).length ∧
        (0 < c.observers → ∃ id, c.registration = some id ∧
          ((empty : Hub ρ ν).run events).registrationsOf i = [(c.topic, ⟨id, .cell i⟩)]) ∧
        (c.observers = 0 → c.registration = none ∧
          ((empty : Hub ρ ν).run events).registrationsOf i = [])) ∧
      (∀ o ∈ ((empty : Hub ρ ν).run events).observers,
        ∃ c, ((empty : Hub ρ ν).run events).cells[o.cell]? = some c ∧ 0 < c.observers) ∧
      ∀ e ∈ ((empty : Hub ρ ν).run events).registry.entries, ∀ i, e.2.callback = .cell i →
        ∃ c, ((empty : Hub ρ ν).run events).cells[i]? = some c ∧ 0 < c.observers ∧
          c.isAlive = true := by
  have hc := consistent_run (consistent_empty (ρ := ρ) (ν := ν)) events
  generalize (empty : Hub ρ ν).run events = h at hc
  have hone : ∀ i c, h.cells[i]? = some c → 0 < c.observers → ∃ id, c.registration = some id ∧
      h.registrationsOf i = [(c.topic, ⟨id, .cell i⟩)] := by
    intro i c hget hpos
    have hs := hc.cells i c hget
    rcases Option.isSome_iff_exists.1 (hs.observed.2 hpos) with ⟨id, hid⟩
    have hperm := hs.registered
    rw [remembered, hid] at hperm
    exact ⟨id, hid, List.perm_singleton.1 hperm⟩
  refine ⟨?_, ?_, ?_⟩
  · intro i c hget
    refine ⟨(hc.cells i c hget).counted, hone i c hget, ?_⟩
    intro h0
    refine ⟨?_, hc.not_registered hget h0⟩
    cases hr : c.registration with
    | none => rfl
    | some id =>
        have hpos := (hc.cells i c hget).observed.1 (by simp [hr])
        omega
  · intro o ho
    have hlt := hc.observedCells o ho
    have hget := List.getElem?_eq_getElem hlt
    refine ⟨_, hget, ?_⟩
    rw [(hc.cells o.cell _ hget).counted]
    exact List.length_pos_of_mem (List.mem_filter.2 ⟨ho, by simp⟩)
  · intro e he i hi
    have hlt := hc.registeredCells e he i hi
    have hget := List.getElem?_eq_getElem hlt
    refine ⟨_, hget, ?_⟩
    have hpos : 0 < h.cells[i].observers := by
      rcases Nat.eq_zero_or_pos h.cells[i].observers with h0 | hpos
      · have hmem : e ∈ h.registrationsOf i := List.mem_filter.2 ⟨he, by simpa using hi⟩
        rw [hc.not_registered hget h0] at hmem
        cases hmem
      · exact hpos
    refine ⟨hpos, ?_⟩
    simp [Cell.isAlive, Nat.pos_iff_ne_zero.1 hpos]

/-- A cell that a callback lets go of and observes again in the middle of a fan-out over it, and that is
let go of and observed once more before its owner lets go of it. -/
def revived : List (Event Unit Nat) :=
  [.create .user false, .register .user 0, .observe 0 (), .notify .user, .call (), .unobserve 0,
    .observe 0 (), .unregister 0 .user, .leave false, .call (), .unobserve 1, .observe 0 (), .disown 0]

theorem subscriptions_revived :
    ∃ c, ((empty : Hub Unit Nat).run revived).cells[0]? = some c ∧ 0 < c.observers ∧
      c.registration = some 3 ∧
      ((empty : Hub Unit Nat).run revived).registrationsOf 0 = [(.user, ⟨3, .cell 0⟩)] := by
  rcases ((subscriptions revived).1 0 _ rfl).2.1 (by decide) with ⟨id, hid, hregistered⟩
  obtain rfl : id = 3 := (Option.some.inj hid).symm
  exact ⟨_, rfl, by decide, hid, hregistered⟩

end Hub

end LiveFeed
