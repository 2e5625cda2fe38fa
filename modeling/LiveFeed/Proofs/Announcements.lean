import LiveFeed.Proofs.FanOuts
import LiveFeed.Proofs.StoreSteps

/-!
# Whom an announcement reaches

As long as nobody but cells is registered, a fan-out calls every observed cell of its topics once and
no other cell, and each that is called issues one fetch.

* `Hub.Reaches`, `Hub.reaches_under`, `Hub.reaches_all`: what a fan-out is going to call;
* `Stores.Called`, `Stores.exists_callEach`: what the calls make of each cell;
* `Stores.exists_runFanOut`: a whole announcement.
-/

namespace LiveFeed

namespace Hub

variable {ρ ν : Type}

/-- Nobody but cells is registered. -/
def OnlyCells (h : Hub ρ ν) : Prop :=
  ∀ e ∈ h.registry.entries, ∃ i, e.2.callback = .cell i

theorem OnlyCells.observe {h : Hub ρ ν} (hcells : h.OnlyCells) (i : Nat) (request : ρ) :
    (h.observe i request).OnlyCells := by
  rcases observe_cases h i request with hsame | ⟨c, -, ⟨-, heq⟩ | ⟨-, heq⟩⟩
  · rw [hsame]
    exact hcells
  · rw [heq]
    intro e he
    rcases List.mem_append.1 ((Registry.perm_entries_register _ _ _).mem_iff.1 he) with he | he
    · exact hcells e he
    · obtain rfl := List.mem_singleton.1 he
      exact ⟨i, rfl⟩
  · rw [heq]
    exact hcells

theorem OnlyCells.unobserve {h : Hub ρ ν} (hh : Consistent h) (hcells : h.OnlyCells) (id : Nat) :
    (h.unobserve id).OnlyCells := by
  rcases unobserve_cases h id with ⟨hsame, -⟩ | ⟨o, -, ⟨-, heq⟩ | ⟨c, -, ⟨-, heq⟩ | ⟨r, -, -, heq⟩⟩⟩
  · rw [hsame]
    exact hcells
  · rw [heq]
    exact hcells
  · rw [heq]
    exact hcells
  · rw [heq]
    intro e he
    have hmem := he
    rw [Registry.entries_unregister hh.registry] at hmem
    exact hcells e (List.mem_filter.1 hmem).1

theorem length_registrationsOf {h : Hub ρ ν} (hh : Consistent h) (i : Nat) :
    (h.registrationsOf i).length ≤ 1 := by
  cases hc : h.cells[i]? with
  | some c =>
      rw [(hh.cells i c hc).registered.length_eq, remembered, List.length_map]
      cases c.registration with
      | none => exact Nat.zero_le 1
      | some id => exact Nat.le_refl 1
  | none =>
      have hnone : h.registrationsOf i = [] := by
        refine List.filter_eq_nil_iff.2 fun e he hcallback => ?_
        have hlt := hh.registeredCells e he i (of_decide_eq_true hcallback)
        exact absurd hlt (Nat.not_lt.2 (List.getElem?_eq_none_iff.1 hc))
      rw [hnone]
      exact Nat.zero_le 1

/-- Each cell is registered once at most. -/
theorem nodup_callbacks {h : Hub ρ ν} (hh : Consistent h) (hcells : h.OnlyCells) :
    (h.registry.entries.map (·.2.callback)).Nodup := by
  refine List.nodup_iff_count.2 fun callee => ?_
  cases callee with
  | cell i =>
      have hcount : (h.registry.entries.map (·.2.callback)).count (.cell i) =
          (h.registrationsOf i).length := by
        rw [List.count, List.countP_map, List.countP_eq_length_filter, registrationsOf]
        simp only [Function.comp_def, beq_eq_decide]
      rw [hcount]
      exact length_registrationsOf hh i
  | plain label =>
      have hzero : (h.registry.entries.map (·.2.callback)).count (.plain label) = 0 := by
        refine List.count_eq_zero.2 fun hmem => ?_
        obtain ⟨e, he, hcallback⟩ := List.mem_map.1 hmem
        obtain ⟨i, hi⟩ := hcells e he
        rw [hi] at hcallback
        cases hcallback
      rw [hzero]
      exact Nat.zero_le 1

/-- A cell is registered under its topic as long as it is observed. -/
theorem exists_entry_iff {h : Hub ρ ν} (hh : Consistent h) {i : Nat} {c : Cell ρ ν}
    (hc : h.cells[i]? = some c) (t : Topic) :
    (∃ r, (t, r) ∈ h.registry.entries ∧ r.callback = .cell i) ↔ 0 < c.observers ∧ c.topic = t := by
  constructor
  · rintro ⟨r, hr, hcallback⟩
    have hs := hh.cells i c hc
    have hmem : (t, r) ∈ h.registrationsOf i := List.mem_filter.2 ⟨hr, by simpa using hcallback⟩
    rw [hs.registered.mem_iff, remembered, List.mem_map] at hmem
    obtain ⟨id, hid, heq⟩ := hmem
    cases heq
    exact ⟨hs.observed.1 (Option.isSome_iff_exists.2 ⟨id, Option.mem_toList.1 hid⟩), rfl⟩
  · rintro ⟨hpos, rfl⟩
    exact hh.exists_entry hc hpos

/-- Some registrations are those of the observed cells of some topics, each once. -/
structure Reaches (h : Hub ρ ν) (p : Topic → Prop) (rs : List (Registration Callee)) : Prop where
  nodup : (rs.map (·.callback)).Nodup
  cells : ∀ r ∈ rs, ∃ i, i < h.cells.length ∧ r.callback = .cell i
  mem_iff : ∀ i c, h.cells[i]? = some c →
    (.cell i ∈ rs.map (·.callback) ↔ 0 < c.observers ∧ p c.topic)

theorem exists_index {h : Hub ρ ν} (hh : Consistent h) (hcells : h.OnlyCells)
    {e : Topic × Registration Callee} (he : e ∈ h.registry.entries) :
    ∃ i, i < h.cells.length ∧ e.2.callback = .cell i := by
  obtain ⟨i, hi⟩ := hcells e he
  exact ⟨i, hh.registeredCells e he i hi, hi⟩

theorem reaches_under {h : Hub ρ ν} (hh : Consistent h) (hcells : h.OnlyCells) (t : Topic) :
    h.Reaches (· = t) (h.registry.under t) := by
  refine ⟨?_, ?_, ?_⟩
  · have hsub : ((h.registry.under t).map (·.callback)).Sublist
        (h.registry.entries.map (·.2.callback)) := by
      have hall := (Registry.sublist_under_all hh.registry t).map (·.callback)
      rwa [← Registry.map_entries, List.map_map] at hall
    exact (nodup_callbacks hh hcells).sublist hsub
  · intro r hr
    exact exists_index hh hcells (Registry.mem_entries_of_mem_under hh.registry hr)
  · intro i c hc
    rw [← exists_entry_iff hh hc t, List.mem_map]
    exact exists_congr fun r => and_congr_left fun _ =>
      ⟨Registry.mem_entries_of_mem_under hh.registry, Registry.mem_under hh.registry⟩

theorem reaches_all {h : Hub ρ ν} (hh : Consistent h) (hcells : h.OnlyCells) :
    h.Reaches (fun _ => True) h.registry.all := by
  refine ⟨?_, ?_, ?_⟩
  · rw [← Registry.map_entries, List.map_map]
    exact nodup_callbacks hh hcells
  · intro r hr
    rw [← Registry.map_entries, List.mem_map] at hr
    obtain ⟨e, he, rfl⟩ := hr
    exact exists_index hh hcells he
  · intro i c hc
    have hentry : .cell i ∈ h.registry.all.map (·.callback) ↔
        ∃ t r, (t, r) ∈ h.registry.entries ∧ r.callback = .cell i := by
      rw [← Registry.map_entries, List.map_map, List.mem_map]
      exact ⟨fun ⟨e, he, hi⟩ => ⟨e.1, e.2, he, hi⟩, fun ⟨t, r, he, hi⟩ => ⟨(t, r), he, hi⟩⟩
    simp only [hentry, exists_entry_iff hh hc, and_true]
    exact ⟨fun ⟨t, hpos, _⟩ => hpos, fun hpos => ⟨c.topic, hpos, rfl⟩⟩

end Hub

namespace Stores

/-- The stores with another hub. -/
def withHub (s : Stores) (h : Hub Wanted Resource.Value) : Stores :=
  { s with system := { s.system with hub := h } }

theorem exists_resource {i : Nat} (h : i < Resource.all.length) : ∃ r, index r = i := by
  have hfin : ∀ i : Fin Resource.all.length, ∃ r ∈ Resource.all, index r = i := by decide
  obtain ⟨r, -, hr⟩ := hfin ⟨i, h⟩
  exact ⟨r, hr⟩

/-- Every resource has a cell, which the stores hold on to. -/
def Holds (s : Stores) : Prop :=
  ∀ r, ∃ c, s.cell? r = some c ∧ c.owned = true

/-- What calls of cells leave of a hub: each cell that is called issues one fetch, and nothing else
changes but the fan-outs. -/
structure Called (s : Stores) (callees : List Callee) (h : Hub Wanted Resource.Value) : Prop where
  registry : h.registry = s.hub.registry
  length : h.cells.length = s.hub.cells.length
  consistent : s.hub.Consistent → h.Consistent
  cells : ∀ r, h.cells[index r]? = (s.cell? r).map fun c =>
    if .cell (index r) ∈ callees then c.issue (s.wanted r) else c

theorem called_nil (s : Stores) : s.Called [] s.hub := by
  refine ⟨rfl, rfl, id, fun r => ?_⟩
  simp [cell?]

/-- One call after the other, each of a cell of its own. -/
theorem Called.cons {s : Stores} {h h' : Hub Wanted Resource.Value} {callee : Callee}
    {callees : List Callee} (hfirst : s.Called [callee] h)
    (hrest : (s.withHub h).Called callees h') (hnew : callee ∉ callees) :
    s.Called (callee :: callees) h' := by
  refine ⟨hrest.registry.trans hfirst.registry, hrest.length.trans hfirst.length,
    fun hc => hrest.consistent (hfirst.consistent hc), fun r => ?_⟩
  have hcell : (s.withHub h).cell? r = h.cells[index r]? := rfl
  rw [hrest.cells, hcell, hfirst.cells, Option.map_map]
  refine congrArg (Option.map · (s.cell? r)) (funext fun c => ?_)
  rw [Function.comp_apply]
  by_cases hr : callee = .cell (index r)
  · subst hr
    simp [hnew]
  · have hwanted : (s.withHub h).wanted r = s.wanted r := rfl
    simp [Ne.symm hr, hwanted]

/-- One call takes one callback off the fan-out, and the cell that is called issues a fetch. -/
theorem exists_callNext {s : Stores} (hholds : s.Holds) {r : Resource} {x : Registration Callee}
    {rs : List (Registration Callee)} {ran : Nat} (hf : s.hub.fanOuts = [⟨x :: rs, false, ran⟩])
    (hx : x.callback = .cell (index r)) :
    ∃ h, s.callNext = s.withHub h ∧ h.fanOuts = [⟨rs, false, ran + 1⟩] ∧ s.Called [x.callback] h := by
  have hnext : s.hub.next? = some (.cell (index r)) := by simp [Hub.next?, hf, hx]
  have hcall : s.hub.call (s.wanted r) =
      { s.hub.modifyCell (index r) (fun c => if c.isAlive then c.issue (s.wanted r) else c) with
        fanOuts := [⟨rs, false, ran + 1⟩] } := by
    simp [Hub.call, hf, hx]
  refine ⟨{ s.hub.modifyCell (index r) (fun c => if c.isAlive then c.issue (s.wanted r) else c) with
    fanOuts := [⟨rs, false, ran + 1⟩] }, ?_, rfl, rfl, List.length_modify .., fun hc => ?_,
    fun r' => ?_⟩
  · rw [callNext, hnext]
    dsimp only
    rw [wantedBy_cell]
    exact congrArg s.withHub hcall
  · refine Hub.Consistent.fanOuts (hc.modifyCell fun c => ?_) _
    split
    · exact Hub.holders_issue c _
    · rfl
  · obtain ⟨c, hc, howned⟩ := hholds r'
    have halive : c.isAlive = true := by simp [Cell.isAlive, howned]
    have hget := Hub.getElem?_modifyCell s.hub (index r') (index r)
      fun c => if c.isAlive then c.issue (s.wanted r) else c
    rw [show s.hub.cells[index r']? = some c from hc] at hget
    refine hget.trans ?_
    rw [hc, hx, Option.map_some, Option.map_some, if_pos halive]
    by_cases hr : r = r'
    · subst hr
      simp
    · have hne : index r' ≠ index r := fun h => hr (index_injective h).symm
      simp [hne, Ne.symm hne]

theorem Called.holds {s : Stores} {callees : List Callee} {h : Hub Wanted Resource.Value}
    (hcalled : s.Called callees h) (hholds : s.Holds) : (s.withHub h).Holds := by
  intro r
  obtain ⟨c, hc, howned⟩ := hholds r
  have hcell := hcalled.cells r
  rw [hc, Option.map_some] at hcell
  refine ⟨_, hcell, ?_⟩
  split
  · rw [Cell.owned_issue, howned]
  · exact howned

/-- The calls of a fan-out make each cell that is called issue one fetch. -/
theorem exists_callEach (rs : List (Registration Callee)) {s : Stores} {ran : Nat}
    (hholds : s.Holds) (hf : s.hub.fanOuts = [⟨rs, false, ran⟩])
    (hcells : ∀ x ∈ rs, ∃ r, x.callback = .cell (index r)) (hnodup : (rs.map (·.callback)).Nodup) :
    ∃ h, callEach rs s = s.withHub h ∧ h.fanOuts = [⟨[], false, ran + rs.length⟩] ∧
      s.Called (rs.map (·.callback)) h := by
  induction rs generalizing s ran with
  | nil => exact ⟨s.hub, rfl, hf, s.called_nil⟩
  | cons x rs ih =>
      rw [List.forall_mem_cons] at hcells
      rw [List.map_cons, List.nodup_cons] at hnodup
      obtain ⟨r, hx⟩ := hcells.1
      obtain ⟨h, hnext, hf', hfirst⟩ := exists_callNext hholds hf hx
      obtain ⟨h', heach, hfanOuts, hrest⟩ :=
        ih (s := s.withHub h) (hfirst.holds hholds) hf' hcells.2 hnodup.2
      refine ⟨h', ?_, ?_, hfirst.cons hrest hnodup.1⟩
      · rw [callEach, hnext, heach]
        rfl
      · rw [hfanOuts, List.length_cons, Nat.add_assoc, Nat.add_comm 1]

/-- A fan-out that runs while no other is in progress makes each observed cell of its topics issue one
fetch, and changes nothing else. -/
theorem exists_runFanOut {s : Stores} (hholds : s.Holds) (hconsistent : s.hub.Consistent)
    (hlength : s.hub.cells.length = Resource.all.length) (idle : s.hub.fanOuts = [])
    {p : Topic → Prop} [DecidablePred p] {rs : List (Registration Callee)}
    (hreaches : s.hub.Reaches p rs) :
    ∃ h, ((s.withHub (s.hub.fanOut rs)).runFanOut).1 = s.withHub h ∧ h.fanOuts = [] ∧
      h.registry = s.hub.registry ∧ h.cells.length = s.hub.cells.length ∧ h.Consistent ∧
      ∀ r, h.cells[index r]? = (s.cell? r).map fun c =>
        if 0 < c.observers ∧ p c.topic then c.issue (s.wanted r) else c := by
  have hf : (s.withHub (s.hub.fanOut rs)).hub.fanOuts = [⟨rs, false, 0⟩] :=
    congrArg (List.cons (⟨rs, false, 0⟩ : FanOut)) idle
  have hcells : ∀ x ∈ rs, ∃ r, x.callback = .cell (index r) := by
    intro x hx
    obtain ⟨i, hi, hcallback⟩ := hreaches.cells x hx
    obtain ⟨r, rfl⟩ := exists_resource (hlength ▸ hi)
    exact ⟨r, hcallback⟩
  obtain ⟨h, heach, hfanOuts, hcalled⟩ :=
    exists_callEach rs (s := s.withHub (s.hub.fanOut rs)) hholds hf hcells hreaches.nodup
  refine ⟨{ h with fanOuts := [] }, ?_, rfl, hcalled.registry, hcalled.length, ?_, ?_⟩
  · have hfinish : h.finish = { h with fanOuts := [] } := by rw [Hub.finish, hfanOuts]
    rw [runFanOut, hf]
    dsimp only
    rw [heach]
    exact congrArg s.withHub hfinish
  · exact (hcalled.consistent (hconsistent.fanOuts _)).fanOuts []
  · intro r
    obtain ⟨c, hc, -⟩ := hholds r
    have hmem := hreaches.mem_iff (index r) c hc
    have hcell : (s.withHub (s.hub.fanOut rs)).cell? r = some c := hc
    rw [hcalled.cells, hcell, hc, Option.map_some, Option.map_some]
    simp only [hmem]
    rfl

end Stores

end LiveFeed
