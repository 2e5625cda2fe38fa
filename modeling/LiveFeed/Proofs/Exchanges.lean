import LiveFeed.Proofs.ScriptedReplies
import LiveFeed.Proofs.StoreOperations

/-!
# Exchanges with the service

Every fetch that an operation made some cell issue is asked for, comes back and ends, in whatever order
that happens.  A cell with one fetch goes through three stages: nothing was sent for it; the request
was sent and what came back waits; the fetch has ended.

* `Stores.Settles`: the exchanges until nothing is on its way;
* `Stores.Stage`, `Stores.Underway`: what holds between the operation and the end of the exchanges;
* `Stores.underway_run`: it holds whatever is exchanged;
* `Stores.settles_settle`: the exchanges can be brought to an end.
-/

namespace LiveFeed

namespace Cell

variable {ρ ν : Type}

/-- Where nothing is on its way, the new fetch is all there is. -/
theorem flights_issue_of_nil {c : Cell ρ ν} (h : c.flights = []) (request : ρ) :
    (c.issue request).flights = [⟨c.generation + 1, request⟩] := by
  unfold issue without
  split
  · simp [h]
  · simp [h]

theorem Alike.without {c c' : Cell ρ ν} (h : c.Alike c') (generation : Nat) :
    (c.without generation).Alike (c'.without generation) := by
  refine ⟨h.topic, h.aborting, h.generation, ?_, h.value, h.version⟩
  rw [Cell.without, h.flights]
  rfl

theorem Alike.store {c c' : Cell ρ ν} (h : c.Alike c') (v : ν) : (c.store v).Alike (c'.store v) :=
  ⟨h.topic, h.aborting, h.generation, h.flights, rfl, congrArg (· + 1) h.version⟩

/-- A fetch of both comes to the same end. -/
theorem Alike.land {c c' : Cell ρ ν} (h : c.Alike c') (generation : Nat) (landing : Landing ν) :
    (c.land generation landing).Alike (c'.land generation landing) := by
  have hflies : c'.isFlying generation = c.isFlying generation := by
    rw [isFlying, isFlying, h.flights]
  unfold Cell.land
  rw [hflies]
  split
  · cases landing with
    | value v =>
        dsimp only
        rw [h.generation]
        split
        · exact (h.without generation).store v
        · exact h.without generation
    | nothing => exact h.without generation
    | crash => exact h.without generation
  · exact h

end Cell

namespace Stores

/-- A fetch becomes a request, what came back is taken, or an update returns. -/
def Event.isExchange : Event → Bool
  | .ask _ _ => true
  | .take _ _ => true
  | .join _ _ => true
  | _ => false

/-- Exchanges and nothing else lead from one state to another. -/
def Exchanges (s s' : Stores) : Prop :=
  ∃ events : List Event, (∀ e ∈ events, e.isExchange) ∧ s' = s.run events

/-- Exchanges lead to a state where no fetch is on its way. -/
def Settles (s s' : Stores) : Prop :=
  s.Exchanges s' ∧ ∀ r c, s'.cell? r = some c → c.flights = []

/-- What came back to the fetches of a resource. -/
def arrivalsOf (s : Stores) (r : Resource) : List Arrival :=
  s.arrivals.filter fun a => a.resource = r

/-- The requests for a resource that the backend saw. -/
def requestsTo (s : Stores) (r : Resource) : List SeenRequest :=
  s.client.requestsTo s.network r

/-- What a fetch of a resource comes to, if it is the next one to be asked for. -/
def brought (s : Stores) (routes : List (String × List Reply)) (r : Resource) (request : Wanted) :
    Landing Resource.Value :=
  ((s.client.brings routes s.network r request).map fun v => (⟨r, v⟩ : Resource.Value)).elim
    .nothing .value

variable {routes : List (String × List Reply)} {s s' s'' : Stores} {r : Resource}
  {c c' c'' : Cell Wanted Resource.Value}

/-- How far the only fetch of a cell has come since a state in which nothing had come back. -/
inductive Stage (routes : List (String × List Reply)) (s s' : Stores) (r : Resource)
    (c c' : Cell Wanted Resource.Value) : Prop where
  | fresh (alike : c.Alike c') (requests : s'.requestsTo r = s.requestsTo r)
      (arrivals : s'.arrivalsOf r = [])
  | asked (f : Flight Wanted) (flights : c.flights = [f]) (alike : c.Alike c')
      (requests : s'.requestsTo r = s.requestsTo r ++ s.client.sends r f.request)
      (arrivals : s'.arrivalsOf r = [⟨r, f.generation, s.brought routes r f.request⟩])
  | ended (f : Flight Wanted) (flights : c.flights = [f])
      (alike : (c.land f.generation (s.brought routes r f.request)).Alike c')
      (requests : s'.requestsTo r = s.requestsTo r ++ s.client.sends r f.request)
      (arrivals : s'.arrivalsOf r = [])

/-- What happens to other resources moves no fetch. -/
theorem Stage.frame (h : Stage routes s s' r c c') (alike : c'.Alike c'')
    (requests : s''.requestsTo r = s'.requestsTo r)
    (arrivals : s''.arrivalsOf r = s'.arrivalsOf r) : Stage routes s s'' r c c'' := by
  cases h with
  | fresh alike' requests' arrivals' =>
      exact .fresh (alike'.trans alike) (requests.trans requests') (arrivals.trans arrivals')
  | asked f flights alike' requests' arrivals' =>
      exact .asked f flights (alike'.trans alike) (requests.trans requests')
        (arrivals.trans arrivals')
  | ended f flights alike' requests' arrivals' =>
      exact .ended f flights (alike'.trans alike) (requests.trans requests')
        (arrivals.trans arrivals')

/-- What holds from an operation on until everything has ended: each cell is at some stage, and the
rest of the stores is as the operation left it. -/
structure Underway (routes : List (String × List Reply)) (s s' : Stores) : Prop where
  client : s'.client = s.client
  date : s'.date = s.date
  serves : s.client.Serves routes s'.network
  consistent : s'.hub.Consistent
  onlyCells : s'.hub.OnlyCells
  length : s'.hub.cells.length = s.hub.cells.length
  idle : s'.hub.fanOuts = []
  cells : ∀ r c, s.cell? r = some c →
    ∃ c', s'.cell? r = some c' ∧ c'.owned = true ∧ Stage routes s s' r c c'

/-! ## One exchange -/

theorem mem_arrivalsOf {a : Arrival} : a ∈ s.arrivalsOf r ↔ a ∈ s.arrivals ∧ a.resource = r := by
  simp [arrivalsOf]

theorem exists_alike_join (hc : s.cell? r = some c) (r' : Resource) (generation : Nat) :
    ∃ c', (s.join r' generation).cell? r = some c' ∧ c'.owned = c.owned ∧ c.Alike c' := by
  obtain ⟨c', hc', hfate⟩ := Hub.exists_fate hc (.join (index r') generation)
  cases hfate with
  | keep alike owned => exact ⟨c', hc', owned (by simp), alike⟩
  | issue sends => cases sends
  | land generation landing event => cases event

/-- What comes back to a request is what the next reply is. -/
theorem landing_load (hbase : s.client.base.IsBase)
    (hroutes : ∀ p ∈ routes, ∀ reply ∈ p.2, Backend.Stays reply)
    (hserves : s.client.Serves routes s.network) (r : Resource) (request : Wanted) :
    landing r (s.client.load r request s.network).1 = s.brought routes r request := by
  obtain ⟨-, -, houtcome⟩ := hserves.load hbase hroutes r request
  rw [brought]
  cases hbrings : s.client.brings routes s.network r request with
  | some v =>
      rw [(houtcome v).2 hbrings]
      rfl
  | none =>
      cases hload : (s.client.load r request s.network).1 with
      | none => rfl
      | some outcome =>
          cases outcome with
          | error e => rfl
          | ok v =>
              have hv := (houtcome v).1 hload
              rw [hbrings] at hv
              cases hv

theorem brought_congr (hclient : s'.client = s.client)
    (hrequests : s'.requestsTo r = s.requestsTo r) (request : Wanted) :
    s'.brought routes r request = s.brought routes r request := by
  rw [requestsTo, requestsTo, hclient] at hrequests
  rw [brought, brought, Client.brings, Client.brings, hclient, hrequests]

/-- What each resource notices when a fetch is asked for. -/
theorem exchanged_ask (hbase : s.client.base.IsBase)
    (hroutes : ∀ p ∈ routes, ∀ reply ∈ p.2, Backend.Stays reply)
    (hserves : s.client.Serves routes s.network) (r' : Resource) (generation : Nat) :
    s.ask r' generation = s ∨ ∃ f, s.flight? r' generation = some f ∧
      s.arrivals.any (·.isOf r' generation) = false ∧ ∀ r,
        (s.ask r' generation).requestsTo r =
          s.requestsTo r ++ (if r = r' then s.client.sends r' f.request else []) ∧
        (s.ask r' generation).arrivalsOf r =
          s.arrivalsOf r ++
            if r = r' then [⟨r', generation, s.brought routes r' f.request⟩] else [] := by
  refine (s.ask_cases r' generation).imp_right ?_
  rintro ⟨f, hf, hnew, hask⟩
  obtain ⟨-, hrequests, -⟩ := hserves.load hbase hroutes r' f.request
  refine ⟨f, hf, hnew, fun r => ⟨?_, ?_⟩⟩
  · rw [hask]
    exact hrequests r
  · rw [hask, landing_load hbase hroutes hserves, arrivalsOf, arrivalsOf, List.filter_append]
    by_cases hr : r = r'
    · simp [hr]
    · simp [hr, Ne.symm hr]

/-- A fetch is asked for once, and no other cell notices. -/
theorem Stage.ask (hbase : s.client.base.IsBase)
    (hroutes : ∀ p ∈ routes, ∀ reply ∈ p.2, Backend.Stays reply)
    (hclient : s'.client = s.client) (hserves : s.client.Serves routes s'.network)
    (hsingle : c.flights.length ≤ 1) (hc' : s'.cell? r = some c')
    (h : Stage routes s s' r c c') (r' : Resource) (generation : Nat) :
    Stage routes s (s'.ask r' generation) r c c' := by
  rw [← hclient] at hserves hbase
  rcases exchanged_ask hbase hroutes hserves r' generation with hsame | ⟨f, hf, hnew, hask⟩
  · rw [hsame]
    exact h
  · obtain ⟨hseen, hback⟩ := hask r
    by_cases hr : r = r'
    · subst hr
      rw [if_pos rfl] at hseen hback
      obtain ⟨hmem, rfl⟩ := mem_flights_of_flight? hc' hf
      cases h with
      | fresh alike requests arrivals =>
          rw [alike.flights] at hmem
          -- One fetch at most was issued, so it is this one.
          have hflights : c.flights = [f] := by
            obtain ⟨g, hg⟩ := List.length_eq_one_iff.1
              (Nat.le_antisymm hsingle (List.length_pos_of_mem hmem))
            rw [hg, List.mem_singleton] at hmem
            rw [hg, hmem]
          refine .asked f hflights alike ?_ ?_
          · rw [hseen, requests, hclient]
          · rw [hback, arrivals, brought_congr hclient requests, List.nil_append]
      | asked g flights alike requests arrivals =>
          -- What came back still waits, so nothing can be asked for again.
          rw [alike.flights, flights, List.mem_singleton] at hmem
          subst hmem
          have hwaits : s'.arrivals.any (·.isOf r f.generation) = true := by
            have ha := mem_arrivalsOf.1 (arrivals ▸ List.mem_singleton_self _)
            exact List.any_eq_true.2 ⟨_, ha.1, by simp [Arrival.isOf]⟩
          rw [hnew] at hwaits
          cases hwaits
      | ended g flights alike requests arrivals =>
          rw [alike.flights, Cell.mem_flights_land, flights, List.mem_singleton] at hmem
          exact absurd (congrArg Flight.generation hmem.1) hmem.2
    · rw [if_neg hr, List.append_nil] at hseen hback
      exact h.frame (.refl c') hseen hback

/-- What each resource notices when a fetch ends with what came back to it. -/
theorem exchanged_take (s : Stores) (r r' : Resource) (generation : Nat) :
    (s.take r' generation).requestsTo r = s.requestsTo r ∧
      (s.take r' generation).arrivalsOf r = (s.arrivalsOf r).filter (!·.isOf r' generation) := by
  rcases s.take_cases r' generation with ⟨hnone, hsame⟩ | ⟨a, -, -, htake⟩
  · rw [hsame]
    refine ⟨rfl, (List.filter_eq_self.2 fun a ha => ?_).symm⟩
    have hno := List.any_eq_false.1 hnone a (mem_arrivalsOf.1 ha).1
    simpa using hno
  · rw [htake]
    exact ⟨rfl, List.filter_comm ..⟩

/-- A fetch ends with what came back to it, and no other cell notices. -/
theorem Stage.take (hc' : s'.cell? r = some c') (h : Stage routes s s' r c c') (r' : Resource)
    (generation : Nat) : ∃ c'', (s'.take r' generation).cell? r = some c'' ∧ c''.owned = c'.owned ∧
      Stage routes s (s'.take r' generation) r c c'' := by
  obtain ⟨hseen, hback⟩ := s'.exchanged_take r r' generation
  rcases s'.take_cases r' generation with ⟨-, hsame⟩ | ⟨a, ha, hisOf, htake⟩
  · rw [hsame]
    exact ⟨c', hc', rfl, h⟩
  · have hcell : (s'.take r' generation).cell? r =
        some (if r' = r then c'.land generation a.landing else c') := by
      rw [htake]
      exact cell?_land hc' r' generation a.landing
    by_cases hr : r' = r
    · subst hr
      rw [if_pos rfl] at hcell
      refine ⟨_, hcell, Cell.owned_land c' generation a.landing, ?_⟩
      have hisOf : a.resource = r' ∧ a.generation = generation := by
        simpa [Arrival.isOf] using hisOf
      have hmem : a ∈ s'.arrivalsOf r' := mem_arrivalsOf.2 ⟨ha, hisOf.1⟩
      -- Only between its request and its end can something come back to a fetch.
      cases h with
      | fresh alike requests arrivals =>
          rw [arrivals] at hmem
          cases hmem
      | asked f flights alike requests arrivals =>
          rw [arrivals, List.mem_singleton] at hmem
          subst hmem
          obtain rfl := hisOf.2
          refine .ended f flights (alike.land _ _) (hseen.trans requests) ?_
          rw [hback, arrivals]
          simp [Arrival.isOf]
      | ended f flights alike requests arrivals =>
          rw [arrivals] at hmem
          cases hmem
    · rw [if_neg hr] at hcell
      refine ⟨c', hcell, rfl, h.frame (.refl c') hseen ?_⟩
      rw [hback, List.filter_eq_self]
      intro b hb
      have hne : ¬ b.resource = r' := fun hb' => hr (hb'.symm.trans (mem_arrivalsOf.1 hb).2)
      simp [Arrival.isOf, hne]

/-- That an update returns is nothing to the fetches. -/
theorem Stage.join (hc' : s'.cell? r = some c') (h : Stage routes s s' r c c') (r' : Resource)
    (generation : Nat) : ∃ c'', (s'.join r' generation).cell? r = some c'' ∧ c''.owned = c'.owned ∧
      Stage routes s (s'.join r' generation) r c c'' := by
  obtain ⟨c'', hc'', howned, halike⟩ := exists_alike_join hc' r' generation
  exact ⟨c'', hc'', howned, h.frame halike rfl rfl⟩

/-! ## All exchanges -/

theorem consistent_step (hc : s.hub.Consistent) (e : Event) : (s.step e).hub.Consistent := by
  rw [hub_step]
  cases e.hub? s with
  | none => exact hc
  | some e' => exact Hub.consistent_step hc e'

/-- Exchanges are nothing to the registry. -/
theorem frame_exchange (s : Stores) {e : Event} (he : e.isExchange) :
    (s.step e).hub.registry = s.hub.registry ∧ (s.step e).hub.fanOuts = s.hub.fanOuts ∧
      (s.step e).hub.cells.length = s.hub.cells.length ∧ (s.step e).date = s.date := by
  cases e with
  | ask r generation =>
      rw [step, hub_ask, date_ask]
      exact ⟨rfl, rfl, rfl, rfl⟩
  | take r generation =>
      rw [step, take]
      split
      · exact ⟨rfl, rfl, rfl, rfl⟩
      · exact ⟨rfl, rfl, List.length_modify .., rfl⟩
  | join r generation => exact ⟨rfl, rfl, List.length_modify .., rfl⟩
  | _ => cases he

/-- What was true of the fetches under way is true after one more exchange. -/
theorem underway_step (hbase : s.client.base.IsBase)
    (hroutes : ∀ p ∈ routes, ∀ reply ∈ p.2, Backend.Stays reply)
    (hsingle : ∀ r c, s.cell? r = some c → c.flights.length ≤ 1) (h : Underway routes s s')
    {e : Event} (he : e.isExchange) : Underway routes s (s'.step e) := by
  obtain ⟨hregistry, hfanOuts, hlength, hdate⟩ := s'.frame_exchange he
  refine ⟨(client_step s' e).trans h.client, hdate.trans h.date, ?_, consistent_step h.consistent e,
    ?_, hlength.trans h.length, hfanOuts.trans h.idle, fun r c hc => ?_⟩
  · rcases s'.exchange_step e with ⟨hsame, -⟩ | ⟨r, generation, f, -, -, hload, -⟩
    · rw [hsame]
      exact h.serves
    · rw [hload, h.client]
      exact (h.serves.load hbase hroutes r f.request).1
  · rw [Hub.OnlyCells, hregistry]
    exact h.onlyCells
  · obtain ⟨c', hc', howned, hstage⟩ := h.cells r c hc
    cases e with
    | ask r' generation =>
        refine ⟨c', ?_, howned, hstage.ask hbase hroutes h.client h.serves (hsingle r c hc) hc' _ _⟩
        rw [step, cell?, hub_ask]
        exact hc'
    | take r' generation =>
        obtain ⟨c'', hc'', howned', hstage'⟩ := hstage.take hc' r' generation
        exact ⟨c'', hc'', howned'.trans howned, hstage'⟩
    | join r' generation =>
        obtain ⟨c'', hc'', howned', hstage'⟩ := hstage.join hc' r' generation
        exact ⟨c'', hc'', howned'.trans howned, hstage'⟩
    | _ => cases he

theorem underway_run (hbase : s.client.base.IsBase)
    (hroutes : ∀ p ∈ routes, ∀ reply ∈ p.2, Backend.Stays reply)
    (hsingle : ∀ r c, s.cell? r = some c → c.flights.length ≤ 1) (h : Underway routes s s')
    {events : List Event} (hevents : ∀ e ∈ events, e.isExchange) :
    Underway routes s (s'.run events) := by
  induction events generalizing s' with
  | nil => exact h
  | cons e events ih =>
      rw [List.forall_mem_cons] at hevents
      exact ih (underway_step hbase hroutes hsingle h hevents.1) hevents.2

/-! ## To the end -/

theorem Exchanges.refl (s : Stores) : s.Exchanges s := ⟨[], by simp, rfl⟩

theorem Exchanges.trans (h : s.Exchanges s') (h' : s'.Exchanges s'') : s.Exchanges s'' := by
  obtain ⟨events, hevents, rfl⟩ := h
  obtain ⟨more, hmore, rfl⟩ := h'
  refine ⟨events ++ more, ?_, (List.foldl_append ..).symm⟩
  intro e he
  exact (List.mem_append.1 he).elim (hevents e) (hmore e)

theorem exchanges_foldl {α : Type} {f : Stores → α → Stores} (hf : ∀ s a, Exchanges s (f s a))
    (as : List α) (s : Stores) : s.Exchanges (as.foldl f s) := by
  induction as generalizing s with
  | nil => exact .refl s
  | cons a as ih => exact (hf s a).trans (ih (f s a))

theorem exchanges_settle (s : Stores) : s.Exchanges s.settle := by
  refine exchanges_foldl (fun s r => exchanges_foldl (fun s f => ?_) _ s) _ s
  exact ⟨[.ask r f.generation, .take r f.generation, .join r f.generation], by
    simp [Event.isExchange], rfl⟩

/-- To a fetch that is on its way and was asked for, something has come back. -/
theorem any_arrivals_ask {f : Flight Wanted} (hc : s.cell? r = some c) (hf : f ∈ c.flights) :
    (s.ask r f.generation).arrivals.any (·.isOf r f.generation) = true := by
  obtain ⟨g, hg⟩ : ∃ g, s.flight? r f.generation = some g := by
    rw [flight?, hc, Option.bind_some]
    exact Option.isSome_iff_exists.1 (List.find?_isSome.2 ⟨f, hf, decide_eq_true rfl⟩)
  rw [ask, hg]
  dsimp only
  split
  · next hwaits => exact hwaits
  · simp [Arrival.isOf]

/-- A fetch that is completed is not on its way any more, and none is new. -/
theorem exists_complete (hc : s.cell? r = some c) (r' : Resource) (generation : Nat) :
    ∃ c', (s.complete r' generation).cell? r = some c' ∧
      ∀ f ∈ c'.flights, f ∈ c.flights ∧ (r' = r → f.generation ≠ generation) := by
  have hask : (s.ask r' generation).cell? r = some c := by
    rw [cell?, hub_ask]
    exact hc
  rcases (s.ask r' generation).take_cases r' generation with ⟨hnone, hsame⟩ | ⟨a, -, -, htake⟩
  · obtain ⟨c', hc', -, halike⟩ := exists_alike_join (hsame ▸ hask) r' generation
    refine ⟨c', hc', fun f hf => ?_⟩
    rw [halike.flights] at hf
    refine ⟨hf, ?_⟩
    -- A fetch on its way was asked for just now, so something has come back to it.
    rintro rfl rfl
    rw [any_arrivals_ask hc hf] at hnone
    cases hnone
  · have hland : ((s.ask r' generation).take r' generation).cell? r =
        some (if r' = r then c.land generation a.landing else c) := by
      rw [htake]
      exact cell?_land hask r' generation a.landing
    obtain ⟨c', hc', -, halike⟩ := exists_alike_join hland r' generation
    refine ⟨c', hc', fun f hf => ?_⟩
    rw [halike.flights] at hf
    by_cases hr : r' = r
    · rw [if_pos hr, Cell.mem_flights_land] at hf
      exact ⟨hf.1, fun _ => hf.2⟩
    · rw [if_neg hr] at hf
      exact ⟨hf, fun h => absurd h hr⟩

theorem exists_completeEach (hc : s.cell? r = some c) (r' : Resource) (fs : List (Flight Wanted)) :
    ∃ c', (fs.foldl (fun s f => s.complete r' f.generation) s).cell? r = some c' ∧
      ∀ f ∈ c'.flights, f ∈ c.flights ∧ (r' = r → f ∉ fs) := by
  induction fs generalizing s c with
  | nil => exact ⟨c, hc, fun f hf => ⟨hf, fun _ => List.not_mem_nil⟩⟩
  | cons g fs ih =>
      obtain ⟨d, hd, hd'⟩ := exists_complete hc r' g.generation
      obtain ⟨c', hc', hfs⟩ := ih hd
      refine ⟨c', hc', fun f hf => ?_⟩
      obtain ⟨hfd, hnot⟩ := hfs f hf
      obtain ⟨hfc, hne⟩ := hd' f hfd
      refine ⟨hfc, fun hr hmem => ?_⟩
      rcases List.mem_cons.1 hmem with rfl | hmem
      · exact hne hr rfl
      · exact hnot hr hmem

theorem exists_settleEach (hc : s.cell? r = some c) (rs : List Resource) :
    ∃ c', (rs.foldl settleOne s).cell? r = some c' ∧ ∀ f ∈ c'.flights, f ∈ c.flights ∧ r ∉ rs := by
  induction rs generalizing s c with
  | nil => exact ⟨c, hc, fun f hf => ⟨hf, List.not_mem_nil⟩⟩
  | cons r' rs ih =>
      obtain ⟨d, hd, hd'⟩ := exists_completeEach hc r' (((s.cell? r').map (·.flights)).getD [])
      obtain ⟨c', hc', hrs⟩ := ih hd
      refine ⟨c', hc', fun f hf => ?_⟩
      obtain ⟨hfd, hnot⟩ := hrs f hf
      obtain ⟨hfc, hne⟩ := hd' f hfd
      refine ⟨hfc, fun hmem => ?_⟩
      rcases List.mem_cons.1 hmem with rfl | hmem
      · refine hne rfl ?_
        rw [hc]
        exact hfc
      · exact hnot hmem

/-- The exchanges come to an end if they are made. -/
theorem settles_settle (s : Stores) (hcells : ∀ r, ∃ c, s.cell? r = some c) : s.Settles s.settle := by
  refine ⟨s.exchanges_settle, fun r c' hc' => List.eq_nil_iff_forall_not_mem.2 fun f hf => ?_⟩
  obtain ⟨c, hc⟩ := hcells r
  obtain ⟨d, hd, hflights⟩ := exists_settleEach hc Resource.all
  obtain rfl := Option.some.inj (hc'.symm.trans hd)
  exact (hflights f hf).2 r.mem_all

end Stores

end LiveFeed
