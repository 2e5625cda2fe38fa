import LiveFeed.Proofs.Announcements

/-!
# Operations of the stores

What is done with the stores as a whole, or announced to them, and which cells issue a fetch of it.

* `Stores.Operation`, `Stores.perform`: an operation and all that it calls;
* `Stores.Operation.fetches`, `Stores.Operation.wanted`: whom it makes fetch, and what;
* `Stores.Quiet`: between two operations;
* `Stores.exists_launches`: from a quiet state, the cells that have to fetch do, and no other does.
-/

namespace LiveFeed

namespace Cell

variable {ρ ν : Type}

theorem Alike.trans {c d e : Cell ρ ν} (h : c.Alike d) (h' : d.Alike e) : c.Alike e :=
  ⟨h'.topic.trans h.topic, h'.aborting.trans h.aborting, h'.generation.trans h.generation,
    h'.flights.trans h.flights, h'.value.trans h.value, h'.version.trans h.version⟩

end Cell

namespace Hub

variable {ρ ν α : Type}

theorem Consistent.createAll {h : Hub ρ ν} (hc : Consistent h) (topic : α → Topic)
    (aborting : α → Bool) (as : List α) :
    Consistent (as.foldl (fun h a => h.create (topic a) (aborting a)) h) := by
  induction as generalizing h with
  | nil => exact hc
  | cons a as ih => exact ih (hc.create _ _)

/-- Of somebody who begins to observe a cell the others notice nothing, and the cell itself fetches if
nobody observed it before. -/
theorem exists_alike_observe {h : Hub ρ ν} {i j : Nat} {c d : Cell ρ ν} (hi : h.cells[i]? = some c)
    (howned : c.owned = true) (hj : h.cells[j]? = some d) (request : ρ) :
    ∃ d', (h.observe i request).cells[j]? = some d' ∧ d'.owned = d.owned ∧
      (if i = j ∧ d.observers = 0 then d.issue request else d).Alike d' := by
  rcases observe_of_owned hi howned request with ⟨h0, heq⟩ | ⟨h0, heq⟩
  · rw [heq, getElem?_modifyCell, hj]
    by_cases hij : i = j
    · subst hij
      obtain rfl := Option.some.inj (hi.symm.trans hj)
      refine ⟨_, if_pos rfl, Cell.owned_wake c _ request, ?_⟩
      rw [if_pos ⟨rfl, h0⟩]
      exact c.alike_wake _ request
    · refine ⟨d, if_neg hij, rfl, ?_⟩
      rw [if_neg fun h => hij h.1]
      exact .refl d
  · rw [heq, getElem?_modifyCell, hj]
    by_cases hij : i = j
    · subst hij
      obtain rfl := Option.some.inj (hi.symm.trans hj)
      refine ⟨_, if_pos rfl, rfl, ?_⟩
      rw [if_neg fun h => h0 h.2]
      exact ⟨rfl, rfl, rfl, rfl, rfl, rfl⟩
    · refine ⟨d, if_neg hij, rfl, ?_⟩
      rw [if_neg fun h => hij h.1]
      exact .refl d

/-- To update one cell makes it fetch, if its owner holds on to it, and the others notice nothing. -/
theorem exists_alike_update {h : Hub ρ ν} {i j : Nat} {d : Cell ρ ν} (hj : h.cells[j]? = some d)
    (howned : d.owned = true) (request : ρ) :
    ∃ d', (h.update i request).cells[j]? = some d' ∧ d'.owned = true ∧
      (if i = j then d.issue request else d).Alike d' := by
  rw [update, getElem?_modifyCell, hj]
  by_cases hij : i = j
  · refine ⟨{ d.issue request with awaited := d.awaited ++ [d.generation + 1] }, ?_,
      (Cell.owned_issue d request).trans howned, ?_⟩
    · rw [if_pos hij, Option.map_some, if_pos howned]
    · rw [if_pos hij]
      exact ⟨rfl, rfl, rfl, rfl, rfl, rfl⟩
  · refine ⟨d, if_neg hij, howned, ?_⟩
    rw [if_neg hij]
    exact .refl d

/-- Nothing of what a cell fetches or keeps changes when an observer is released. -/
theorem exists_alike_unobserve {h : Hub ρ ν} {i : Nat} {c : Cell ρ ν} (hc : h.cells[i]? = some c)
    (id : Nat) : ∃ c', (h.unobserve id).cells[i]? = some c' ∧ c'.owned = c.owned ∧ c.Alike c' := by
  obtain ⟨c', hc', hfate⟩ := exists_fate_unobserve hc id
  cases hfate with
  | keep alike owned => exact ⟨c', hc', owned (by simp), alike⟩
  | issue sends => cases sends
  | land generation landing event => cases event

end Hub

namespace Stores

/-! ## Operations -/

/-- What is done with the stores, or announced to them. -/
inductive Operation where
  | observe (resource : Resource)
  | release (observer : Nat)
  | update (resource : Resource)
  | setDate (date : String)
  | notify (topic : Topic)
  | notifyAll

/-- Does something with the stores; an announcement calls whom it has to call. -/
def perform (s : Stores) : Operation → Stores
  | .observe r => s.observe r
  | .release observer => s.step (.release observer)
  | .update r => s.update r
  | .setDate date => s.setDate date
  | .notify t => (s.notify t).1
  | .notifyAll => s.notifyAll.1

/-- Whether an operation makes the cell of a resource fetch. -/
def Operation.fetches (s : Stores) (r : Resource) : Operation → Bool
  | .observe r' => r' = r && s.observers r = 0
  | .release _ => false
  | .update r' => r' = r
  | .setDate _ => r = .apodImage
  | .notify t => 0 < s.observers r && r.topic = t
  | .notifyAll => 0 < s.observers r

/-- The date after an operation. -/
def Operation.date (s : Stores) : Operation → Option String
  | .setDate date => some date
  | _ => s.date

/-- What a fetch of a resource asks for after an operation. -/
def Operation.wanted (s : Stores) (r : Resource) (op : Operation) : Wanted :=
  if r = .apodImage then op.date s else none

/-- Nothing is on its way, and nobody but cells is registered. -/
structure Quiet (s : Stores) : Prop where
  consistent : s.hub.Consistent
  onlyCells : s.hub.OnlyCells
  length : s.hub.cells.length = Resource.all.length
  idle : s.hub.fanOuts = []
  arrivals : s.arrivals = []
  cells : ∀ r, ∃ c, s.cell? r = some c ∧ c.owned = true ∧ c.topic = r.topic ∧ c.flights = []

/-- An operation makes some cells issue a fetch and leaves everything else alone. -/
structure Launches (s : Stores) (op : Operation) (h : Hub Wanted Resource.Value) : Prop where
  perform_eq : s.perform op = { s with date := op.date s }.withHub h
  consistent : h.Consistent
  onlyCells : h.OnlyCells
  length : h.cells.length = s.hub.cells.length
  idle : h.fanOuts = []
  cells : ∀ r c, s.cell? r = some c → ∃ c', h.cells[index r]? = some c' ∧ c'.owned = true ∧
    (if op.fetches s r then c.issue (op.wanted s r) else c).Alike c'

theorem observers_eq {s : Stores} {r : Resource} {c : Cell Wanted Resource.Value}
    (hc : s.cell? r = some c) : s.observers r = c.observers := by
  rw [observers, hc]
  rfl

theorem Quiet.holds {s : Stores} (hq : s.Quiet) : s.Holds := by
  intro r
  obtain ⟨c, hc, howned, -⟩ := hq.cells r
  exact ⟨c, hc, howned⟩

theorem Quiet.owned {s : Stores} (hq : s.Quiet) {r : Resource} {c : Cell Wanted Resource.Value}
    (hc : s.cell? r = some c) : c.owned = true ∧ c.topic = r.topic ∧ c.flights = [] := by
  obtain ⟨d, hd, howned⟩ := hq.cells r
  obtain rfl := Option.some.inj (hd.symm.trans hc)
  exact howned

theorem quiet_create (client : Client) (network : Network) : (create client network).Quiet := by
  refine ⟨?_, ?_, rfl, rfl, rfl, fun r => ?_⟩
  · rw [hub, create]
    exact Hub.consistent_empty.createAll Resource.topic (fun r => decide (r = .apodImage)) _
  · intro e he
    cases he
  · exact ⟨_, cell?_create client network r, rfl, rfl, rfl⟩

variable {s : Stores}

theorem launches_observe (hq : s.Quiet) (r : Resource) :
    s.Launches (.observe r) (s.hub.observe (index r) (s.wanted r)) := by
  obtain ⟨c, hc, howned, -⟩ := hq.cells r
  refine ⟨rfl, hq.consistent.observe _ _, hq.onlyCells.observe _ _,
    s.hub.length_cells_step (e := .observe (index r) (s.wanted r)) (by simp),
    (Hub.fanOuts_observe ..).trans hq.idle, fun r' d hd => ?_⟩
  obtain ⟨d', hd', howned', halike⟩ := Hub.exists_alike_observe hc howned hd (s.wanted r)
  refine ⟨d', hd', howned'.trans (hq.owned hd).1, ?_⟩
  by_cases hr : r = r'
  · subst hr
    by_cases h0 : d.observers = 0
    · have hfetches : Operation.fetches s r (.observe r) = true := by
        simp [Operation.fetches, observers_eq hd, h0]
      rw [if_pos ⟨rfl, h0⟩] at halike
      rw [if_pos hfetches]
      exact halike
    · have hfetches : ¬ Operation.fetches s r (.observe r) = true := by
        simp [Operation.fetches, observers_eq hd, h0]
      rw [if_neg fun h => h0 h.2] at halike
      rw [if_neg hfetches]
      exact halike
  · have hfetches : ¬ Operation.fetches s r' (.observe r) = true := by
      simp [Operation.fetches, hr]
    rw [if_neg fun h => hr (index_injective h.1)] at halike
    rw [if_neg hfetches]
    exact halike

theorem launches_release (hq : s.Quiet) (observer : Nat) :
    s.Launches (.release observer) (s.hub.unobserve observer) := by
  refine ⟨rfl, hq.consistent.unobserve _, hq.onlyCells.unobserve hq.consistent _,
    s.hub.length_cells_step (e := .unobserve observer) (by simp),
    (Hub.fanOuts_unobserve ..).trans hq.idle, fun r c hc => ?_⟩
  obtain ⟨c', hc', howned', halike⟩ := Hub.exists_alike_unobserve hc observer
  exact ⟨c', hc', howned'.trans (hq.owned hc).1, halike⟩

theorem launches_of_update (hq : s.Quiet) {op : Operation} (r : Resource)
    (hperform : s.perform op = { s with date := op.date s }.update r)
    (hfetches : ∀ r', op.fetches s r' = decide (r = r')) :
    s.Launches op (s.hub.update (index r) (op.wanted s r)) := by
  refine ⟨hperform, Hub.consistent_step hq.consistent (.update _ _), ?_,
    s.hub.length_cells_step (e := .update (index r) (op.wanted s r)) (by simp), hq.idle,
    fun r' d hd => ?_⟩
  · exact hq.onlyCells
  · obtain ⟨d', hd', howned', halike⟩ :=
      Hub.exists_alike_update (i := index r) hd (hq.owned hd).1 (op.wanted s r)
    refine ⟨d', hd', howned', ?_⟩
    rw [hfetches]
    by_cases hr : r = r'
    · subst hr
      simpa using halike
    · rw [if_neg fun h => hr (index_injective h)] at halike
      simpa [hr] using halike

theorem exists_launches_of_fanOut (hq : s.Quiet) {op : Operation} {p : Topic → Prop}
    [DecidablePred p] {rs : List (Registration Callee)} (hreaches : s.hub.Reaches p rs)
    (hperform : s.perform op = ((s.withHub (s.hub.fanOut rs)).runFanOut).1)
    (hdate : op.date s = s.date)
    (hfetches : ∀ r, op.fetches s r = decide (0 < s.observers r ∧ p r.topic)) :
    ∃ h, s.Launches op h := by
  obtain ⟨h, heq, hidle, hregistry, hlength, hconsistent, hmap⟩ :=
    exists_runFanOut hq.holds hq.consistent hq.length hq.idle hreaches
  refine ⟨h, ?_, hconsistent, ?_, hlength, hidle, fun r c hc => ?_⟩
  · rw [hperform, heq, hdate]
  · intro e he
    rw [hregistry] at he
    exact hq.onlyCells e he
  · obtain ⟨howned, htopic, -⟩ := hq.owned hc
    have hwanted : op.wanted s r = s.wanted r := by rw [Operation.wanted, hdate, wanted]
    have hget := hmap r
    rw [hc, Option.map_some, htopic] at hget
    rw [hfetches, observers_eq hc, hwanted]
    refine ⟨_, hget, ?_, ?_⟩
    · split
      · exact (Cell.owned_issue c _).trans howned
      · exact howned
    · simp only [decide_eq_true_eq]
      exact .refl _

/-- From a quiet state, the cells that an operation makes fetch do so, and nothing else happens. -/
theorem exists_launches (hq : s.Quiet) (op : Operation) : ∃ h, s.Launches op h := by
  cases op with
  | observe r => exact ⟨_, launches_observe hq r⟩
  | release observer => exact ⟨_, launches_release hq observer⟩
  | update r => exact ⟨_, launches_of_update hq r rfl fun r' => rfl⟩
  | setDate date =>
      refine ⟨_, launches_of_update hq .apodImage rfl fun r' => ?_⟩
      simp only [Operation.fetches, eq_comm]
  | notify t =>
      exact exists_launches_of_fanOut hq (Hub.reaches_under hq.consistent hq.onlyCells t) rfl rfl
        fun r => (Bool.decide_and ..).symm
  | notifyAll =>
      refine exists_launches_of_fanOut hq (Hub.reaches_all hq.consistent hq.onlyCells) rfl rfl
        fun r => ?_
      simp [Operation.fetches]

end Stores

end LiveFeed
