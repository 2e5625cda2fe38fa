import Mathlib.Data.List.Induction
import LiveFeed.Proofs.Exchanges

/-!
# Rounds of the stores

One operation after the other, each with all the exchanges that it leads to, against a service that
answers from a script.  Whatever the replies are and in whatever order they come, every cell that an
operation makes fetch sends one request to its own endpoint, and keeps the newest reply to its own
requests that was a value.

* `Stores.Operation.sends`, `Stores.Operation.brings`: what an operation asks for, and what it gets;
* `Stores.Round`, `Stores.round_of_settles`: an operation with its exchanges;
* `Client.newest`, `Stores.Rounds`: all operations so far;
* `Stores.values_are_newest_replies`: what is asked for and what is kept.
-/

namespace LiveFeed

namespace Cell

variable {ρ ν : Type}

/-- The end of the one fetch that is on its way. -/
theorem value_land_only {c : Cell ρ ν} {request : ρ} (h : c.flights = [⟨c.generation, request⟩])
    (o : Option ν) :
    (c.land c.generation (o.elim .nothing .value)).value = o.or c.value ∧
      (o = none → (c.land c.generation (o.elim .nothing .value)).version = c.version) := by
  have hflies : c.isFlying c.generation = true := by simp [isFlying, h]
  cases o with
  | none =>
      have hland : c.land c.generation .nothing = c.without c.generation := by simp [land, hflies]
      exact ⟨(congrArg Cell.value hland :), fun _ => (congrArg Cell.version hland :)⟩
  | some v =>
      refine ⟨congrArg Cell.value (land_newest hflies v), fun h => ?_⟩
      cases h

end Cell

namespace Client

/-- The newest of so many replies that is a value of a resource. -/
def newest (r : Resource) (rs : List Reply) (n : Nat) : Option r.Carrier :=
  ((List.range n).filterMap fun k => decoded r.codec (Backend.replyAt rs k)).getLast?

theorem newest_succ (r : Resource) (rs : List Reply) (n : Nat) :
    newest r rs (n + 1) = (decoded r.codec (Backend.replyAt rs n)).or (newest r rs n) := by
  rw [newest, List.range_succ, List.filterMap_append, List.getLast?_append, newest]
  cases hd : decoded r.codec (Backend.replyAt rs n) with
  | none => simp [hd]
  | some v => simp [hd]

end Client

namespace Stores

variable {routes : List (String × List Reply)} {s s' : Stores} {r : Resource}
  {c c' : Cell Wanted Resource.Value} {op : Operation}

/-! ## One round -/

/-- The requests for a resource that an operation leads to. -/
def Operation.sends (s : Stores) (r : Resource) (op : Operation) : List SeenRequest :=
  if op.fetches s r then s.client.sends r (op.wanted s r) else []

/-- The value of a resource that an operation gets. -/
def Operation.brings (routes : List (String × List Reply)) (s : Stores) (r : Resource)
    (op : Operation) : Option r.Carrier :=
  if op.fetches s r then s.client.brings routes s.network r (op.wanted s r) else none

/-- What an operation and its exchanges make of quiet stores. -/
structure Round (routes : List (String × List Reply)) (s : Stores) (op : Operation) (s' : Stores) :
    Prop where
  quiet : s'.Quiet
  client : s'.client = s.client
  serves : s.client.Serves routes s'.network
  requests : ∀ r, s'.requestsTo r = s.requestsTo r ++ op.sends s r
  cells : ∀ r c, s.cell? r = some c → ∃ c', s'.cell? r = some c' ∧
    c'.value = ((op.brings routes s r).map fun v => ⟨r, v⟩).or c.value ∧
    (op.brings routes s r = none → c'.version = c.version)

/-- The cells when the operation is over and nothing was exchanged yet. -/
theorem exists_cell_perform (hq : s.Quiet) (op : Operation) (hc : s.cell? r = some c) :
    ∃ c', (s.perform op).cell? r = some c' ∧ c'.owned = true ∧ c'.topic = c.topic ∧
      c'.value = c.value ∧ c'.version = c.version ∧
      c'.flights = if op.fetches s r then [⟨c'.generation, op.wanted s r⟩] else [] := by
  obtain ⟨h, hl⟩ := exists_launches hq op
  obtain ⟨c', hc', howned, halike⟩ := hl.cells r c hc
  have hcell : (s.perform op).cell? r = some c' := by
    rw [hl.perform_eq]
    exact hc'
  have hflights := (hq.owned hc).2.2
  refine ⟨c', hcell, howned, ?_⟩
  by_cases hf : op.fetches s r = true
  · rw [if_pos hf] at halike
    rw [if_pos hf, halike.flights, Cell.flights_issue_of_nil hflights, halike.generation]
    exact ⟨halike.topic.trans (c.topic_issue _), halike.value.trans (c.value_issue _),
      halike.version.trans (c.version_issue _), rfl⟩
  · rw [if_neg hf] at halike
    rw [if_neg hf, halike.flights]
    exact ⟨halike.topic, halike.value, halike.version, hflights⟩

/-- When the operation is over, all that it made fetch is still to be asked for. -/
theorem underway_perform (hq : s.Quiet) (hserves : s.client.Serves routes s.network)
    (op : Operation) :
    (s.perform op).client = s.client ∧ (s.perform op).network = s.network ∧
      Underway routes (s.perform op) (s.perform op) := by
  obtain ⟨h, hl⟩ := exists_launches hq op
  have hclient : (s.perform op).client = s.client := by
    rw [hl.perform_eq]
    rfl
  have hnetwork : (s.perform op).network = s.network := by
    rw [hl.perform_eq]
    rfl
  have hhub : (s.perform op).hub = h := by
    rw [hl.perform_eq]
    rfl
  have harrivals : (s.perform op).arrivals = [] := by
    rw [hl.perform_eq]
    exact hq.arrivals
  refine ⟨hclient, hnetwork, rfl, rfl, ?_, hhub ▸ hl.consistent, hhub ▸ hl.onlyCells, rfl,
    hhub ▸ hl.idle, fun r c hc => ?_⟩
  · rw [hclient, hnetwork]
    exact hserves
  · obtain ⟨d, hd, -⟩ := hq.cells r
    obtain ⟨c', hc', howned, -⟩ := exists_cell_perform hq op hd
    obtain rfl := Option.some.inj (hc'.symm.trans hc)
    refine ⟨c', hc, howned, .fresh (.refl c') rfl ?_⟩
    rw [arrivalsOf, harrivals, List.filter_nil]

/-- When no fetch is on its way any more, the one that was has ended. -/
theorem Stage.cases_of_nil (h : Stage routes s s' r c c') (hnil : c'.flights = []) :
    s'.arrivalsOf r = [] ∧
      (c.flights = [] ∧ c.Alike c' ∧ s'.requestsTo r = s.requestsTo r ∨
        ∃ f, c.flights = [f] ∧ (c.land f.generation (s.brought routes r f.request)).Alike c' ∧
          s'.requestsTo r = s.requestsTo r ++ s.client.sends r f.request) := by
  cases h with
  | fresh alike requests arrivals =>
      exact ⟨arrivals, .inl ⟨alike.flights.symm.trans hnil, alike, requests⟩⟩
  | asked f flights alike requests arrivals =>
      rw [alike.flights, flights] at hnil
      cases hnil
  | ended f flights alike requests arrivals =>
      exact ⟨arrivals, .inr ⟨f, flights, alike, requests⟩⟩

/-- What has become of a cell when everything that an operation led to has ended. -/
theorem exists_cell_of_underway (hq : s.Quiet) (hclient : (s.perform op).client = s.client)
    (hrequests : ∀ r, (s.perform op).requestsTo r = s.requestsTo r)
    (h : Underway routes (s.perform op) s') (hended : ∀ r c, s'.cell? r = some c → c.flights = [])
    (hc : s.cell? r = some c) :
    ∃ c', s'.cell? r = some c' ∧ c'.owned = true ∧ c'.topic = c.topic ∧ s'.arrivalsOf r = [] ∧
      s'.requestsTo r = s.requestsTo r ++ op.sends s r ∧
      c'.value = ((op.brings routes s r).map fun v => ⟨r, v⟩).or c.value ∧
      (op.brings routes s r = none → c'.version = c.version) := by
  obtain ⟨d, hd, -, htopic, hvalue, hversion, hflights⟩ := exists_cell_perform hq op hc
  obtain ⟨c', hc', howned, hstage⟩ := h.cells r d hd
  obtain ⟨harrivals, hstage⟩ := hstage.cases_of_nil (hended r c' hc')
  refine ⟨c', hc', howned, ?_⟩
  by_cases hf : op.fetches s r = true
  · rw [if_pos hf] at hflights
    rw [Operation.sends, Operation.brings, if_pos hf, if_pos hf]
    rcases hstage with ⟨hnil, -, -⟩ | ⟨f, hsome, halike, hseen⟩
    · rw [hflights] at hnil
      cases hnil
    · -- The fetch that has ended is the one that the operation made the cell issue.
      obtain rfl := (List.cons.inj (hflights.symm.trans hsome)).1
      have hland := Cell.value_land_only hflights
        ((s.client.brings routes s.network r (op.wanted s r)).map fun v => (⟨r, v⟩ : Resource.Value))
      rw [brought_congr hclient (hrequests r)] at halike
      rw [hclient, hrequests] at hseen
      refine ⟨?_, harrivals, hseen, ?_, ?_⟩
      · exact (halike.topic.trans (Cell.holders_land ..).1).trans htopic
      · rw [halike.value, ← hvalue]
        exact hland.1
      · intro hnone
        rw [halike.version, ← hversion]
        exact hland.2 (by rw [hnone]; rfl)
  · rw [if_neg hf] at hflights
    rw [Operation.sends, Operation.brings, if_neg hf, if_neg hf, List.append_nil]
    rcases hstage with ⟨-, halike, hseen⟩ | ⟨f, hsome, -, -⟩
    · exact ⟨halike.topic.trans htopic, harrivals, hseen.trans (hrequests r),
        halike.value.trans hvalue, fun _ => halike.version.trans hversion⟩
    · rw [hflights] at hsome
      cases hsome

/-- From quiet stores, an operation and its exchanges lead to quiet stores again; what was asked for
and what is kept is what the operation made fetch. -/
theorem round_of_settles (hbase : s.client.base.IsBase)
    (hroutes : ∀ p ∈ routes, ∀ reply ∈ p.2, Backend.Stays reply) (hq : s.Quiet)
    (hserves : s.client.Serves routes s.network) (hsettles : (s.perform op).Settles s') :
    s.Round routes op s' := by
  obtain ⟨h, hl⟩ := exists_launches hq op
  obtain ⟨hclient, hnetwork, hstart⟩ := underway_perform hq hserves op
  have hrequests : ∀ r, (s.perform op).requestsTo r = s.requestsTo r := by
    intro r
    rw [requestsTo, hclient, hnetwork, requestsTo]
  have hsingle : ∀ r c, (s.perform op).cell? r = some c → c.flights.length ≤ 1 := by
    intro r c hc
    obtain ⟨d, hd, -⟩ := hq.cells r
    obtain ⟨c', hc', -, -, -, -, hflights⟩ := exists_cell_perform hq op hd
    obtain rfl := Option.some.inj (hc'.symm.trans hc)
    rw [hflights]
    split
    · exact Nat.le_refl 1
    · exact Nat.zero_le 1
  obtain ⟨⟨events, hevents, rfl⟩, hended⟩ := hsettles
  have hend := underway_run (hclient ▸ hbase) hroutes hsingle hstart hevents
  have hcell := fun r c => exists_cell_of_underway (r := r) (c := c) hq hclient hrequests hend hended
  refine ⟨⟨hend.consistent, hend.onlyCells, ?_, hend.idle, ?_, fun r => ?_⟩,
    hend.client.trans hclient, hclient ▸ hend.serves, fun r => ?_, fun r c hc => ?_⟩
  · have hlength : (s.perform op).hub.cells.length = s.hub.cells.length := by
      rw [hl.perform_eq]
      exact hl.length
    rw [hend.length, hlength, hq.length]
  · -- Whatever came back belongs to some resource, and for none of them anything waits.
    refine List.eq_nil_iff_forall_not_mem.2 fun a ha => ?_
    obtain ⟨c, hc, -⟩ := hq.cells a.resource
    obtain ⟨c', -, -, -, harrivals, -⟩ := hcell a.resource c hc
    have hmem := mem_arrivalsOf.2 ⟨ha, rfl⟩
    rw [harrivals] at hmem
    cases hmem
  · obtain ⟨c, hc, -, htopic, -⟩ := hq.cells r
    obtain ⟨c', hc', howned, htopic', -⟩ := hcell r c hc
    exact ⟨c', hc', howned, htopic'.trans htopic, hended r c' hc'⟩
  · obtain ⟨c, hc, -⟩ := hq.cells r
    obtain ⟨c', -, -, -, -, hseen, -⟩ := hcell r c hc
    exact hseen
  · obtain ⟨c', hc', -, -, -, -, hvalue, hversion⟩ := hcell r c hc
    exact ⟨c', hc', hvalue, hversion⟩

/-! ## All rounds -/

/-- One operation after the other is performed, each when everything that the one before led to has
ended. -/
inductive Rounds (s : Stores) : List Operation → Stores → Prop where
  | start : Rounds s [] s
  | round {ops : List Operation} {s' s'' : Stores} (op : Operation) (before : Rounds s ops s')
      (settles : (s'.perform op).Settles s'') : Rounds s (ops ++ [op]) s''

/-- The stores of a client whose service answers from a script, before anything is fetched. -/
def scripted (client : Client) (routes : List (String × List Reply)) : Stores :=
  create client (.serving ⟨client.base, routes, []⟩)

/-- What every round leaves behind: the newest replies that were values are what is kept. -/
structure UpToDate (routes : List (String × List Reply)) (s : Stores) : Prop where
  quiet : s.Quiet
  serves : s.client.Serves routes s.network
  values : ∀ r, s.value? r =
    (Client.newest r (s.client.repliesTo routes r) (s.requestsTo r).length).map fun v => ⟨r, v⟩

theorem newest_round (routes : List (String × List Reply)) (s : Stores) (r : Resource)
    (op : Operation) :
    Client.newest r (s.client.repliesTo routes r) (s.requestsTo r ++ op.sends s r).length =
      (op.brings routes s r).or
        (Client.newest r (s.client.repliesTo routes r) (s.requestsTo r).length) := by
  rw [Operation.sends, Operation.brings]
  by_cases hf : op.fetches s r = true
  · rw [if_pos hf, if_pos hf, Client.sends, Client.brings]
    by_cases hasks : Client.asks r (op.wanted s r) = true
    · rw [if_pos hasks, if_pos hasks, List.length_append, List.length_singleton,
        Client.newest_succ]
      rfl
    · rw [if_neg hasks, if_neg hasks, List.append_nil, Option.none_or]
  · rw [if_neg hf, if_neg hf, List.append_nil, Option.none_or]

theorem value?_eq (hc : s.cell? r = some c) : s.value? r = c.value := by
  rw [value?, hc, Option.bind_some]

theorem UpToDate.round (h : UpToDate routes s) (hround : s.Round routes op s') :
    UpToDate routes s' := by
  refine ⟨hround.quiet, hround.client ▸ hround.serves, fun r => ?_⟩
  obtain ⟨c, hc, -⟩ := h.quiet.cells r
  obtain ⟨c', hc', hvalue, -⟩ := hround.cells r c hc
  have hold := h.values r
  rw [value?_eq hc] at hold
  rw [value?_eq hc', hvalue, hold, hround.client, hround.requests, newest_round, Option.map_or]

theorem upToDate_scripted (client : Client) (routes : List (String × List Reply)) :
    UpToDate routes (scripted client routes) := by
  refine ⟨quiet_create client _, client.serves_start routes, fun r => ?_⟩
  have hnone : (scripted client routes).value? r = none := value?_eq (cell?_create client _ r)
  rw [hnone]
  rfl

/-- After every round the stores are up to date. -/
theorem upToDate_rounds {client : Client} (hbase : client.base.IsBase)
    (hroutes : ∀ p ∈ routes, ∀ reply ∈ p.2, Backend.Stays reply) {ops : List Operation}
    (h : (scripted client routes).Rounds ops s) : s.client = client ∧ UpToDate routes s := by
  induction h with
  | start => exact ⟨rfl, upToDate_scripted client routes⟩
  | round op before settles ih =>
      obtain ⟨rfl, hdate⟩ := ih
      have hround := round_of_settles hbase hroutes hdate.quiet hdate.serves settles
      exact ⟨hround.client, hdate.round hround⟩

/-- There is always a next round. -/
theorem exists_settles (hq : s.Quiet) (op : Operation) : ∃ s', (s.perform op).Settles s' := by
  refine ⟨_, settles_settle _ fun r => ?_⟩
  obtain ⟨c, hc, -⟩ := hq.cells r
  obtain ⟨c', hc', -⟩ := exists_cell_perform hq op hc
  exact ⟨c', hc'⟩

/-- Against a service that answers from a script and sends nobody elsewhere, after any operations, each
with all its exchanges: nothing but endpoints of resources was ever asked for, and every cell keeps the
newest of the replies to its own endpoint that was a value, if there was one.  A further operation sends
one request to the endpoint of each resource that it makes fetch, where there is something to ask for,
and to no other; a cell whose reply is no value, or that gets none, is left as it was. -/
theorem values_are_newest_replies (client : Client) (routes : List (String × List Reply))
    (ops : List Operation) (hbase : client.base.IsBase)
    (hroutes : ∀ p ∈ routes, ∀ reply ∈ p.2, Backend.Stays reply) :
    (∃ s, (scripted client routes).Rounds ops s) ∧
      ∀ s, (scripted client routes).Rounds ops s →
        (∀ q ∈ s.network.seen, ∃ r, q.target = client.target r) ∧
        (∀ r, s.value? r = (Client.newest r (client.repliesTo routes r)
          (client.requestsTo s.network r).length).map fun v => ⟨r, v⟩) ∧
        ∀ op s', (s.perform op).Settles s' → ∀ r,
          client.requestsTo s'.network r = client.requestsTo s.network r ++
            (if op.fetches s r then client.sends r (op.wanted s r) else []) ∧
          (op.brings routes s r = none → ∀ c, s.cell? r = some c →
            ∃ c', s'.cell? r = some c' ∧ c'.value = c.value ∧ c'.version = c.version) := by
  refine ⟨?_, fun s hs => ?_⟩
  · induction ops using List.reverseRecOn with
    | nil => exact ⟨_, .start⟩
    | append_singleton ops op ih =>
        obtain ⟨s, hs⟩ := ih
        obtain ⟨s', hs'⟩ := exists_settles (upToDate_rounds hbase hroutes hs).2.quiet op
        exact ⟨s', hs.round op hs'⟩
  · obtain ⟨rfl, hdate⟩ := upToDate_rounds hbase hroutes hs
    refine ⟨?_, hdate.values, fun op s' hs' r => ?_⟩
    · obtain ⟨b, -, -, -, hseen⟩ := hdate.serves
      exact hseen
    · have hround := round_of_settles hbase hroutes hdate.quiet hdate.serves hs'
      refine ⟨?_, fun hnone c hc => ?_⟩
      · have hrequests := hround.requests r
        rw [requestsTo, hround.client] at hrequests
        exact hrequests
      · obtain ⟨c', hc', hvalue, hversion⟩ := hround.cells r c hc
        refine ⟨c', hc', ?_, hversion hnone⟩
        rw [hvalue, hnone]
        rfl

/-- A host and nothing else. -/
def home : Url :=
  ⟨"http", some ⟨"", none, some (.domain "home"), none⟩, .segments [[]], none, none⟩

/-- A script that refuses the names of scopes once and then gives one. -/
def reluctant : List (String × List Reply) :=
  [("/management/oauth_client/list_scopes",
    [⟨401, [], false, false, none⟩, ⟨200, [91, 34, 97, 34, 93], false, false, none⟩])]

/-- A cell that is refused its value gets it when it is fetched again. -/
theorem values_are_newest_replies_refusedOnce :
    ∃ s, (scripted ⟨home, none⟩ reluctant).Rounds
        [.update .oauthScopeNames, .update .oauthScopeNames] s ∧
      s.value? .oauthScopeNames = some ⟨.oauthScopeNames, ["a"]⟩ := by
  have hbase : home.IsBase := ⟨.inl rfl, _, rfl⟩
  have hroutes : ∀ p ∈ reluctant, ∀ reply ∈ p.2, Backend.Stays reply := by
    simp [reluctant, Backend.Stays]
  have hmain := fun ops => values_are_newest_replies ⟨home, none⟩ reluctant ops hbase hroutes
  have hreply : Client.newest .oauthScopeNames
      (Client.repliesTo ⟨home, none⟩ reluctant .oauthScopeNames) 2 = some ["a"] := by
    decide +kernel
  obtain ⟨s, hs⟩ := exists_settles (upToDate_scripted ⟨home, none⟩ reluctant).quiet
    (.update .oauthScopeNames)
  have hround := Rounds.start.round _ hs
  obtain ⟨s', hs'⟩ := exists_settles (upToDate_rounds hbase hroutes hround).2.quiet
    (.update .oauthScopeNames)
  have hfirst := (((hmain []).2 _ .start).2.2 _ s hs .oauthScopeNames).1
  have hsecond := (((hmain _).2 s hround).2.2 _ s' hs' .oauthScopeNames).1
  refine ⟨s', hround.round _ hs', ?_⟩
  rw [((hmain _).2 s' (hround.round _ hs')).2.1, hsecond, hfirst]
  exact congrArg (Option.map _) hreply

end Stores

end LiveFeed
