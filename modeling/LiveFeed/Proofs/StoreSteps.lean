import LiveFeed.Proofs.CellSteps
import LiveFeed.Stores

/-!
# Steps of the stores

What an event of the stores does to the hub, and what it makes of the cell of one resource: nothing
that matters to its fetches, a fetch for what the resource wants from then on, or the end of one.

* `Stores.Event.hub?`, `Stores.hub_step`: the event of the hub that an event of the stores is;
* `Stores.Fate`, `Stores.exists_fate`: a step of the stores.
-/

namespace LiveFeed

namespace Stores

theorem index_injective {r r' : Resource} (h : index r = index r') : r = r' := by
  revert h
  cases r <;> cases r' <;> decide

theorem resourceAt?_index (r : Resource) : resourceAt? (index r) = some r := by
  cases r <;> rfl

theorem wantedBy_cell (s : Stores) (r : Resource) : s.wantedBy (.cell (index r)) = s.wanted r := by
  rw [wantedBy, resourceAt?_index]
  rfl

theorem cell?_create (client : Client) (network : Network) (r : Resource) :
    (create client network).cell? r = some (.create r.topic (r = .apodImage)) := by
  cases r <;> rfl

/-- The event of the hub that an event of the stores is. -/
def Event.hub? (s : Stores) : Event → Option (Hub.Event Wanted Resource.Value)
  | .observe r => some (.observe (index r) (s.wanted r))
  | .release observer => some (.unobserve observer)
  | .poll observer => some (.poll observer)
  | .update r => some (.update (index r) (s.wanted r))
  | .setDate date => some (.update (index .apodImage) (some date))
  | .register t label => some (.register t label)
  | .unregister id t => some (.unregister id t)
  | .announce t => some (.notify t)
  | .announceAll => some .notifyAll
  | .call => s.hub.next?.map fun callee => .call (s.wantedBy callee)
  | .leave crashed => some (.leave crashed)
  | .finish => some .finish
  | .ask _ _ => none
  | .take r generation =>
    (s.arrivals.find? (·.isOf r generation)).map fun a => .land (index r) generation a.landing
  | .join r generation => some (.join (index r) generation)

theorem Event.hub?_ne_disown {s : Stores} {e : Event} {e' : Hub.Event Wanted Resource.Value}
    (he : e.hub? s = some e') (i : Nat) : e' ≠ .disown i := by
  rintro rfl
  cases e with
  | call =>
      obtain ⟨callee, -, h⟩ := Option.map_eq_some_iff.1 he
      cases h
  | take r generation =>
      obtain ⟨a, -, h⟩ := Option.map_eq_some_iff.1 he
      cases h
  | _ => cases he

theorem Event.of_hub?_land {s : Stores} {e : Event} {r : Resource} {generation : Nat}
    {landing : Landing Resource.Value} (he : e.hub? s = some (.land (index r) generation landing)) :
    e = .take r generation ∧ ∃ a ∈ s.arrivals, a.isOf r generation ∧ a.landing = landing := by
  cases e with
  | call =>
      obtain ⟨callee, -, h⟩ := Option.map_eq_some_iff.1 he
      cases h
  | take r' generation' =>
      obtain ⟨a, ha, h⟩ := Option.map_eq_some_iff.1 he
      obtain ⟨hr, rfl, rfl⟩ := Hub.Event.land.inj h
      obtain rfl := index_injective hr
      have hisOf := List.find?_some (p := fun a : Arrival => a.isOf r' generation') ha
      exact ⟨rfl, a, List.mem_of_find?_eq_some ha, hisOf, rfl⟩
  | _ => cases he

theorem mem_flights_of_flight? {s : Stores} {r : Resource} {c : Cell Wanted Resource.Value}
    (hc : s.cell? r = some c) {generation : Nat} {f : Flight Wanted}
    (hf : s.flight? r generation = some f) : f ∈ c.flights ∧ f.generation = generation := by
  rw [flight?, hc, Option.bind_some] at hf
  exact ⟨List.mem_of_find?_eq_some hf, by simpa using List.find?_some hf⟩

/-- A fetch that is on its way is asked for once, and what comes back is kept; or nothing happens. -/
theorem ask_cases (s : Stores) (r : Resource) (generation : Nat) :
    s.ask r generation = s ∨ ∃ f, s.flight? r generation = some f ∧
      s.arrivals.any (·.isOf r generation) = false ∧ s.ask r generation =
      { s with
        network := (s.client.load r f.request s.network).2
        arrivals := s.arrivals ++
          [⟨r, generation, landing r (s.client.load r f.request s.network).1⟩] } := by
  rw [ask]
  cases hf : s.flight? r generation with
  | none => exact .inl rfl
  | some f =>
      dsimp only
      split
      · exact .inl rfl
      · next hnew => exact .inr ⟨f, rfl, Bool.eq_false_iff.2 hnew, rfl⟩

/-- What came back to a fetch ends it; or nothing came back, and nothing happens. -/
theorem take_cases (s : Stores) (r : Resource) (generation : Nat) :
    s.arrivals.any (·.isOf r generation) = false ∧ s.take r generation = s ∨
      ∃ a ∈ s.arrivals, a.isOf r generation ∧ s.take r generation =
        { s with arrivals := s.arrivals.filter (!·.isOf r generation) }.hubStep
          (.land (index r) generation a.landing) := by
  cases hfind : s.arrivals.find? (·.isOf r generation) with
  | none =>
      refine .inl ⟨?_, by rw [take, hfind]⟩
      rw [List.find?_eq_none] at hfind
      simpa using hfind
  | some a =>
      have hisOf := List.find?_some (p := fun a : Arrival => a.isOf r generation) hfind
      exact .inr ⟨a, List.mem_of_find?_eq_some hfind, hisOf, by rw [take, hfind]⟩

theorem cell?_land {s : Stores} {r : Resource} {c : Cell Wanted Resource.Value}
    (hc : s.cell? r = some c) (r' : Resource) (generation : Nat) (landing : Landing Resource.Value) :
    (s.hubStep (.land (index r') generation landing)).cell? r =
      some (if r' = r then c.land generation landing else c) := by
  have hget := Hub.getElem?_modifyCell s.hub (index r) (index r') (·.land generation landing)
  rw [show s.hub.cells[index r]? = some c from hc, Option.map_some] at hget
  refine hget.trans ?_
  by_cases hr : r' = r
  · rw [if_pos (congrArg index hr), if_pos hr]
  · rw [if_neg fun hi => hr (index_injective hi), if_neg hr]

theorem hub_ask (s : Stores) (r : Resource) (generation : Nat) :
    (s.ask r generation).hub = s.hub := by
  rcases s.ask_cases r generation with hsame | ⟨f, -, -, hask⟩
  · rw [hsame]
  · rw [hask]
    rfl

theorem date_ask (s : Stores) (r : Resource) (generation : Nat) :
    (s.ask r generation).date = s.date := by
  rcases s.ask_cases r generation with hsame | ⟨f, -, -, hask⟩
  · rw [hsame]
  · rw [hask]

theorem hub_step (s : Stores) (e : Event) :
    (s.step e).hub = ((e.hub? s).map s.hub.step).getD s.hub := by
  cases e with
  | call =>
      simp only [step, callNext, Event.hub?]
      cases s.hub.next? with
      | none => rfl
      | some callee => rfl
  | ask r generation => exact s.hub_ask r generation
  | take r generation =>
      simp only [step, take, Event.hub?]
      cases s.arrivals.find? (·.isOf r generation) with
      | none => rfl
      | some a => rfl
  | _ => rfl

/-- Nothing is sent or received but by a fetch that is asked for. -/
theorem exchange_step (s : Stores) (e : Event) :
    ((s.step e).network = s.network ∧ ∀ a ∈ (s.step e).arrivals, a ∈ s.arrivals) ∨
      ∃ r generation f, e = .ask r generation ∧ s.flight? r generation = some f ∧
        (s.step e).network = (s.client.load r f.request s.network).2 ∧
        (s.step e).arrivals = s.arrivals ++
          [⟨r, generation, landing r (s.client.load r f.request s.network).1⟩] := by
  cases e with
  | call =>
      refine .inl ?_
      rw [step, callNext]
      split
      · exact ⟨rfl, fun a ha => ha⟩
      · exact ⟨rfl, fun a ha => ha⟩
  | ask r generation =>
      rcases s.ask_cases r generation with hsame | ⟨f, hf, -, hask⟩
      · exact .inl (by rw [step, hsame]; exact ⟨rfl, fun a ha => ha⟩)
      · exact .inr ⟨r, generation, f, rfl, hf, by rw [step, hask], by rw [step, hask]⟩
  | take r generation =>
      refine .inl ?_
      rw [step, take]
      split
      · exact ⟨rfl, fun a ha => ha⟩
      · exact ⟨rfl, fun a ha => (List.mem_filter.1 ha).1⟩
  | _ => exact .inl ⟨rfl, fun a ha => ha⟩

theorem client_step (s : Stores) (e : Event) : (s.step e).client = s.client := by
  cases e with
  | call =>
      rw [step, callNext]
      split <;> rfl
  | ask r generation =>
      rcases s.ask_cases r generation with hsame | ⟨f, -, -, hask⟩
      · rw [step, hsame]
      · rw [step, hask]
  | take r generation =>
      rw [step, take]
      split <;> rfl
  | _ => rfl

/-- The date is the one that was chosen last. -/
theorem date_step (s : Stores) (e : Event) :
    (s.step e).date = s.date ∨ ∃ date, e = .setDate date ∧ (s.step e).date = some date := by
  cases e with
  | setDate date => exact .inr ⟨date, rfl, rfl⟩
  | call =>
      refine .inl ?_
      rw [step, callNext]
      split <;> rfl
  | ask r generation => exact .inl (s.date_ask r generation)
  | take r generation =>
      refine .inl ?_
      rw [step, take]
      split <;> rfl
  | _ => exact .inl rfl

/-- What is asked for is what the resource wants when the event is over. -/
theorem wanted_of_sends {s : Stores} {r : Resource} {e : Event} {request : Wanted}
    {e' : Hub.Event Wanted Resource.Value} (he : e.hub? s = some e')
    (hsends : s.hub.Sends (index r) request e') : request = (s.step e).wanted r := by
  cases e with
  | observe r' =>
      cases he
      obtain ⟨hr, rfl⟩ := hsends.of_observe
      rw [index_injective hr]
      rfl
  | update r' =>
      cases he
      obtain ⟨hr, rfl⟩ := hsends.of_update
      rw [index_injective hr]
      rfl
  | setDate date =>
      cases he
      obtain ⟨hr, rfl⟩ := hsends.of_update
      rw [← index_injective hr]
      rfl
  | call =>
      obtain ⟨callee, hcallee, rfl⟩ := Option.map_eq_some_iff.1 he
      obtain ⟨hnext, rfl⟩ := hsends.of_call
      obtain rfl : callee = .cell (index r) := Option.some.inj (hcallee.symm.trans hnext)
      rw [wantedBy_cell, step, callNext, hcallee]
      rfl
  | take r' generation =>
      obtain ⟨a, -, rfl⟩ := Option.map_eq_some_iff.1 he
      cases hsends
  | ask r' generation => cases he
  | _ =>
      cases he
      cases hsends

/-- What an event makes of the cell of a resource. -/
inductive Fate (s : Stores) (r : Resource) (e : Event) (c : Cell Wanted Resource.Value) :
    Cell Wanted Resource.Value → Prop where
  | keep {c' : Cell Wanted Resource.Value} (alike : c.Alike c')
      (wanted : (s.step e).wanted r = s.wanted r) : Fate s r e c c'
  | issue {c' : Cell Wanted Resource.Value}
      (alike : (c.issue ((s.step e).wanted r)).Alike c') : Fate s r e c c'
  | land {a : Arrival} {generation : Nat} (arrived : a ∈ s.arrivals) (isOf : a.isOf r generation)
      (event : e = .take r generation) (wanted : (s.step e).wanted r = s.wanted r) :
      Fate s r e c (c.land generation a.landing)

/-- Only the picture ever wants something else, and then it fetches at once. -/
theorem wanted_step (s : Stores) (r : Resource) (e : Event) :
    (s.step e).wanted r = s.wanted r ∨ r = .apodImage ∧ ∃ date, e = .setDate date := by
  rcases s.date_step e with hdate | ⟨date, rfl, -⟩
  · exact .inl (by rw [wanted, wanted, hdate])
  · by_cases hr : r = .apodImage
    · exact .inr ⟨hr, date, rfl⟩
    · exact .inl (by rw [wanted, wanted, if_neg hr, if_neg hr])

theorem exists_fate {s : Stores} {r : Resource} {c : Cell Wanted Resource.Value}
    (hc : s.cell? r = some c) (howned : c.owned = true) (e : Event) :
    ∃ c', (s.step e).cell? r = some c' ∧ c'.owned = true ∧ Fate s r e c c' := by
  rcases s.wanted_step r e with hwanted | ⟨rfl, date, rfl⟩
  · cases he : e.hub? s with
    | none =>
        refine ⟨c, ?_, howned, .keep (.refl c) hwanted⟩
        rw [cell?, hub_step, he]
        exact hc
    | some e' =>
        obtain ⟨c', hc', hfate⟩ := Hub.exists_fate hc e'
        have hcell : (s.step e).cell? r = some c' := by
          rw [cell?, hub_step, he]
          exact hc'
        cases hfate with
        | keep alike owned =>
            have hheld := Event.hub?_ne_disown he (index r)
            exact ⟨c', hcell, (owned hheld).trans howned, .keep alike hwanted⟩
        | issue sends alike owned =>
            rw [wanted_of_sends he sends] at alike
            exact ⟨c', hcell, owned.trans howned, .issue alike⟩
        | land generation landing event =>
            subst event
            obtain ⟨rfl, a, ha, hisOf, rfl⟩ := Event.of_hub?_land he
            exact ⟨_, hcell, (Cell.owned_land c generation _).trans howned,
              .land ha hisOf rfl hwanted⟩
  · have hcell : (s.step (.setDate date)).cell? .apodImage = some
        { c.issue (some date) with awaited := c.awaited ++ [c.generation + 1] } := by
      have hget := Hub.getElem?_modifyCell s.hub (index .apodImage) (index .apodImage) fun c =>
        if c.owned then { c.issue (some date) with awaited := c.awaited ++ [c.generation + 1] } else c
      rw [if_pos rfl, show s.hub.cells[index .apodImage]? = some c from hc, Option.map_some,
        if_pos howned] at hget
      exact hget
    have howned' := (Cell.owned_issue c (some date)).trans howned
    exact ⟨_, hcell, howned', .issue ⟨rfl, rfl, rfl, rfl, rfl, rfl⟩⟩

end Stores

end LiveFeed
