import LiveFeed.Proofs.GivenUpFetches
import LiveFeed.Proofs.StoreSteps

/-!
# The picture and its date

The date of the picture stands beside its cell and is read whenever a fetch is issued.  Whatever
happens in between, only a picture of the date that is chosen at that moment is ever stored, a request
for a date that was given up is never heard of again, and without a date there is no request at all.

* `Stores.Dated`, `Stores.dated_step`: the one fetch that can be on its way is for the chosen date;
* `Stores.Answered`, `Stores.answered_after`: what came back to it is the reply to a request for this
  date;
* `Stores.picture_follows_date`: what is stored, what is not, and what is asked for.
-/

namespace LiveFeed

/-! ## Plain requests -/

namespace Network

/-- Whatever was seen since then are plain requests. -/
def AddsGets (seen seen' : List SeenRequest) : Prop :=
  ∃ more, seen' = seen ++ more ∧ ∀ q ∈ more, q.method = .get

theorem AddsGets.refl (seen : List SeenRequest) : AddsGets seen seen := ⟨[], by simp, by simp⟩

theorem AddsGets.trans {seen seen' seen'' : List SeenRequest} :
    AddsGets seen seen' → AddsGets seen' seen'' → AddsGets seen seen'' := by
  rintro ⟨more, rfl, hmore⟩ ⟨more', rfl, hmore'⟩
  refine ⟨more ++ more', List.append_assoc .., ?_⟩
  intro q hq
  exact (List.mem_append.1 hq).elim (hmore q) (hmore' q)

theorem method_redirected {r : Request} (hr : r.method = .get) (status : Nat) (target : Url) :
    (redirected r status target).method = .get := by
  by_cases hstatus : status = 307 ∨ status = 308
  · simp only [redirected, if_pos hstatus]
    split
    · exact hr
    · exact hr
  · simp only [redirected, if_neg hstatus]

theorem addsGets_answer {b b' : Backend} {r : Request} {reply : Reply} (hr : r.method = .get)
    (hanswer : b.answer r = (reply, b')) : AddsGets b.seen b'.seen := by
  have hseen : b'.seen = b.seen ++ [Backend.see r] := (congrArg (·.2.seen) hanswer).symm
  exact ⟨[Backend.see r], hseen, by simpa [Backend.see] using hr⟩

/-- A plain request stays one through all redirections. -/
theorem addsGets_follow (hops : Nat) (b : Backend) {r : Request} (hr : r.method = .get) :
    AddsGets b.seen (follow hops b r).2.seen := by
  fun_induction follow hops b r with
  | case1 => exact .refl _
  | case2 _ _ _ _ _ _ hanswer => exact addsGets_answer hr hanswer
  | case3 _ _ _ _ _ _ hanswer => exact addsGets_answer hr hanswer
  | case4 _ _ _ _ _ hanswer => exact addsGets_answer hr hanswer
  | case5 _ _ _ _ _ hanswer _ _ _ _ _ _ _ ih =>
      exact (addsGets_answer hr hanswer).trans (ih (method_redirected hr _ _))
  | case6 _ _ _ _ _ _ hanswer => exact addsGets_answer hr hanswer

theorem addsGets_ask (n : Network) {r : Request} (hr : r.method = .get) :
    AddsGets n.seen (n.ask r).2.seen := by
  cases n with
  | down => exact .refl _
  | serving b => exact addsGets_follow redirectLimit b hr

end Network

namespace Client

/-- Only the picture is ever asked for otherwise than plainly, and only with a date. -/
theorem addsGets_load (c : Client) {r : Resource} {date : Option String}
    (h : r = .apodImage → date = none) (n : Network) :
    Network.AddsGets n.seen (c.load r date n).2.seen := by
  by_cases hr : r = .apodImage
  · subst hr
    rw [h rfl]
    exact .refl _
  · have hasks : asks r date = true := by simp [asks, hr]
    simp only [load, hasks, hr]
    exact n.addsGets_ask rfl

/-- The request for the picture of a date. -/
def fetchPicture (c : Client) (date : String) (n : Network) : Outcome Wire.Apod × Network :=
  c.fetch .post Resource.apodImage.path (some (dateBody date)) Wire.Apod.codec n

theorem load_apodImage (c : Client) (date : String) (n : Network) :
    c.load .apodImage (some date) n =
      (some (c.fetchPicture date n).1, (c.fetchPicture date n).2) := rfl

end Client

namespace Stores

/-! ## The run of the stores -/

/-- The stores at point `n` of a run. -/
def after (s : Stores) (events : List Event) (n : Nat) : Stores :=
  s.run (events.take n)

theorem after_succ_cases (s : Stores) (events : List Event) (n : Nat) :
    (∃ e, events[n]? = some e ∧ s.after events (n + 1) = (s.after events n).step e) ∨
      events[n]? = none ∧ s.after events (n + 1) = s.after events n := by
  cases he : events[n]? with
  | some e => exact .inl ⟨e, rfl, foldl_take_succ step s he⟩
  | none =>
      refine .inr ⟨rfl, ?_⟩
      rw [after, after, List.take_add_one, he, Option.toList_none, List.append_nil]

theorem client_after (s : Stores) (events : List Event) (n : Nat) :
    (s.after events n).client = s.client := by
  induction n with
  | zero => rfl
  | succ n ih =>
      rcases s.after_succ_cases events n with ⟨e, -, hstep⟩ | ⟨-, hsame⟩
      · rw [hstep, client_step, ih]
      · rw [hsame, ih]

/-! ## The picture's cell -/

/-- Nothing is on its way but the newest fetch, if that, and it is for the chosen date. -/
structure Dated (s : Stores) (c : Cell Wanted Resource.Value) : Prop where
  owned : c.owned = true
  aborting : c.aborting = true
  flights : c.flights = [] ∨ c.flights = [⟨c.generation, s.date⟩]

theorem dated_create (client : Client) (network : Network) :
    Dated (create client network) (.create Resource.apodImage.topic true) :=
  ⟨rfl, rfl, .inl rfl⟩

theorem wanted_apodImage (s : Stores) : s.wanted .apodImage = s.date := rfl

/-- The fetch that was on its way is given up for the new one. -/
theorem Dated.flights_issue {s : Stores} {c : Cell Wanted Resource.Value} (h : Dated s c)
    (request : Wanted) : (c.issue request).flights = [⟨c.generation + 1, request⟩] := by
  rcases h.flights with hnone | hlast
  · simp [Cell.issue, Cell.without, h.aborting, hnone]
  · simp [Cell.issue, Cell.without, h.aborting, hlast]

theorem Dated.eq_of_mem {s : Stores} {c : Cell Wanted Resource.Value} (h : Dated s c)
    {f : Flight Wanted} (hf : f ∈ c.flights) : f = ⟨c.generation, s.date⟩ := by
  rcases h.flights with hnone | hlast
  · rw [hnone] at hf
    cases hf
  · rw [hlast] at hf
    exact List.mem_singleton.1 hf

theorem Dated.fate {s : Stores} {e : Event} {c c' : Cell Wanted Resource.Value} (h : Dated s c)
    (howned : c'.owned = true) (hfate : Fate s .apodImage e c c') : Dated (s.step e) c' := by
  cases hfate with
  | keep alike wanted =>
      refine ⟨howned, alike.aborting.trans h.aborting, ?_⟩
      rw [alike.flights, alike.generation, ← wanted_apodImage (s.step e), wanted]
      exact h.flights
  | issue alike =>
      refine ⟨howned, alike.aborting.trans ((Cell.aborting_issue c _).trans h.aborting), .inr ?_⟩
      rw [alike.flights, alike.generation, Cell.generation_issue]
      exact h.flights_issue _
  | @land a generation arrived isOf event wanted =>
      refine ⟨howned, (Cell.aborting_land c _ _).trans h.aborting, ?_⟩
      rw [Cell.flights_land, Cell.generation_land, ← wanted_apodImage (s.step e), wanted]
      rcases h.flights with hnone | hlast
      · exact .inl (by rw [hnone, List.filter_nil])
      · rw [hlast, List.filter_cons, List.filter_nil]
        split
        · exact .inr rfl
        · exact .inl rfl

theorem dated_step {s : Stores} {c : Cell Wanted Resource.Value} (hc : s.cell? .apodImage = some c)
    (h : Dated s c) (e : Event) : ∃ c', (s.step e).cell? .apodImage = some c' ∧
      Dated (s.step e) c' ∧ Fate s .apodImage e c c' := by
  obtain ⟨c', hc', howned, hfate⟩ := exists_fate hc h.owned e
  exact ⟨c', hc', h.fate howned hfate, hfate⟩

theorem dated_after (client : Client) (network : Network) (events : List Event) (n : Nat) :
    ∃ c, ((create client network).after events n).cell? .apodImage = some c ∧
      Dated ((create client network).after events n) c := by
  induction n with
  | zero => exact ⟨_, cell?_create client network .apodImage, dated_create client network⟩
  | succ n ih =>
      obtain ⟨c, hc, hdated⟩ := ih
      rcases (create client network).after_succ_cases events n with ⟨e, -, hstep⟩ | ⟨-, hsame⟩
      · rw [hstep]
        obtain ⟨c', hc', hdated', -⟩ := dated_step hc hdated e
        exact ⟨c', hc', hdated'⟩
      · rw [hsame]
        exact ⟨c, hc, hdated⟩

/-! ## Replies -/

theorem landing_eq_value {r : Resource} {outcome : Option (Outcome r.Carrier)} {v : Resource.Value}
    (h : landing r outcome = .value v) : ∃ w, outcome = some (.ok w) ∧ v = ⟨r, w⟩ := by
  rcases outcome with _ | _ | w
  · cases h
  · cases h
  · cases h
    exact ⟨w, rfl, rfl⟩

/-- What came back to a fetch of the picture came back to a request for a date, sent before event `n`
of a run. -/
def AskedBefore (s : Stores) (events : List Event) (n : Nat) (date : Wanted) (a : Arrival) : Prop :=
  ∃ m < n, events[m]? = some (.ask .apodImage a.generation) ∧
    a.landing = landing .apodImage
      (s.client.load .apodImage date (s.after events m).network).1 ∧
    (s.after events (m + 1)).network =
      (s.client.load .apodImage date (s.after events m).network).2

/-- What came back to the picture's fetches is no newer than the newest, and what came back to this
one came back to a request for the chosen date. -/
def Answered (s : Stores) (events : List Event) (n : Nat) : Prop :=
  ∀ c a, (s.after events n).cell? .apodImage = some c → a ∈ (s.after events n).arrivals →
    a.resource = .apodImage → a.generation ≤ c.generation ∧
      (a.generation = c.generation → c.flights ≠ [] →
        AskedBefore s events n (s.after events n).date a)

theorem AskedBefore.succ {s : Stores} {events : List Event} {n : Nat} {date : Wanted} {a : Arrival}
    (h : AskedBefore s events n date a) : AskedBefore s events (n + 1) date a := by
  obtain ⟨m, hm, hask⟩ := h
  exact ⟨m, Nat.lt_succ_of_lt hm, hask⟩

/-- What came back before an event stays what it was, unless its fetch is overtaken. -/
theorem Fate.answered {s : Stores} {e : Event} {c c' : Cell Wanted Resource.Value}
    (hfate : Fate s .apodImage e c c') {a : Arrival} {P : Wanted → Prop}
    (h : a.generation ≤ c.generation ∧
      (a.generation = c.generation → c.flights ≠ [] → P s.date)) :
    a.generation ≤ c'.generation ∧
      (a.generation = c'.generation → c'.flights ≠ [] → P (s.step e).date) := by
  cases hfate with
  | keep alike wanted =>
      rw [alike.generation, alike.flights, ← wanted_apodImage (s.step e), wanted]
      exact h
  | issue alike =>
      rw [alike.generation, Cell.generation_issue]
      refine ⟨Nat.le_succ_of_le h.1, fun hnewest => ?_⟩
      exact absurd (hnewest ▸ h.1) (Nat.not_succ_le_self _)
  | land arrived isOf event wanted =>
      rw [Cell.generation_land, Cell.flights_land, ← wanted_apodImage (s.step e), wanted]
      refine ⟨h.1, fun hnewest hflies => h.2 hnewest ?_⟩
      rintro hnone
      rw [hnone] at hflies
      exact hflies rfl

theorem answered_after (client : Client) (network : Network) (events : List Event) (n : Nat) :
    Answered (create client network) events n := by
  induction n with
  | zero =>
      intro c a _ ha
      cases ha
  | succ n ih =>
      intro c' a hc' ha hr
      rcases (create client network).after_succ_cases events n with ⟨e, he, hstep⟩ | ⟨-, hsame⟩
      · obtain ⟨c, hc, hdated⟩ := dated_after client network events n
        obtain ⟨c'', hc'', -, hfate⟩ := dated_step hc hdated e
        rw [hstep] at hc' ha ⊢
        obtain rfl : c'' = c' := Option.some.inj (hc''.symm.trans hc')
        have hold : a ∈ ((create client network).after events n).arrivals → _ := fun ha =>
          hfate.answered (P := fun date => AskedBefore _ events (n + 1) date a)
            ((ih c a hc ha hr).imp_right fun h hnewest hflies => (h hnewest hflies).succ)
        rcases exchange_step _ e with ⟨-, hkept⟩ | ⟨r, generation, f, rfl, hf, hload, harrivals⟩
        · exact hold (hkept a ha)
        · rw [harrivals, List.mem_append, List.mem_singleton] at ha
          rcases ha with ha | rfl
          · exact hold ha
          · -- The fetch that asks is the newest one, which wants the chosen date.
            obtain rfl : r = .apodImage := hr
            obtain ⟨hmem, hgeneration⟩ := mem_flights_of_flight? hc hf
            obtain rfl := hdated.eq_of_mem hmem
            obtain rfl : c = c'' := by
              rw [cell?, step, hub_ask] at hc''
              exact Option.some.inj (hc.symm.trans hc'')
            refine ⟨Nat.le_of_eq hgeneration.symm, fun _ _ => ⟨n, Nat.lt_succ_self n, he, ?_⟩⟩
            rw [← client_after (create client network) events n, step, date_ask]
            exact ⟨rfl, (congrArg Stores.network hstep).trans hload⟩
      · rw [hsame] at hc' ha ⊢
        exact (ih c' a hc' ha hr).imp_right fun h hnewest hflies => (h hnewest hflies).succ

/-! ## What is stored -/

/-- The picture is kept as it is, unless its newest fetch comes to its end and brought one. -/
theorem Fate.value {s : Stores} {e : Event} {c c' : Cell Wanted Resource.Value}
    (hfate : Fate s .apodImage e c c') :
    c'.value = c.value ∧ c'.version = c.version ∨
      ∃ a ∈ s.arrivals, a.resource = .apodImage ∧ e = .take .apodImage a.generation ∧
        a.generation = c.generation ∧ c.flights ≠ [] ∧
        ∃ v, a.landing = .value v ∧ c'.value = some v ∧ c'.version = c.version + 1 := by
  cases hfate with
  | keep alike wanted => exact .inl ⟨alike.value, alike.version⟩
  | issue alike =>
      refine .inl ⟨alike.value.trans (Cell.value_issue c _), ?_⟩
      exact alike.version.trans (Cell.version_issue c _)
  | @land a generation arrived isOf event wanted =>
      obtain ⟨hr, rfl⟩ : a.resource = .apodImage ∧ a.generation = generation := by
        simpa [Arrival.isOf] using isOf
      cases hflies : c.isFlying a.generation with
      | false =>
          rw [Cell.land_of_not_isFlying hflies]
          exact .inl ⟨rfl, rfl⟩
      | true =>
          rcases Cell.land_of_isFlying hflies a.landing with hl | ⟨v, hv, hnewest, hl⟩
          · rw [hl]
            exact .inl ⟨rfl, rfl⟩
          · rw [hl]
            refine .inr ⟨a, arrived, hr, event, hnewest, ?_, v, hv, rfl, rfl⟩
            intro hnone
            rw [Cell.isFlying, hnone] at hflies
            cases hflies

/-- Another date comes with another fetch. -/
theorem Fate.generation {s : Stores} {e : Event} {c c' : Cell Wanted Resource.Value}
    (hfate : Fate s .apodImage e c c') :
    c'.generation = c.generation ∧ (s.step e).date = s.date ∨ c.generation < c'.generation := by
  cases hfate with
  | keep alike wanted => exact .inl ⟨alike.generation, wanted⟩
  | issue alike => exact .inr (by rw [alike.generation]; exact Nat.lt_succ_self _)
  | land arrived isOf event wanted => exact .inl ⟨Cell.generation_land c _ _, wanted⟩

theorem generation_after (client : Client) (network : Network) (events : List Event) {k n : Nat}
    (hkn : k ≤ n) {c d : Cell Wanted Resource.Value}
    (hc : ((create client network).after events k).cell? .apodImage = some c)
    (hd : ((create client network).after events n).cell? .apodImage = some d) :
    d.generation = c.generation ∧ ((create client network).after events n).date =
        ((create client network).after events k).date ∨
      c.generation < d.generation := by
  induction hkn generalizing d with
  | refl =>
      obtain rfl : c = d := Option.some.inj (hc.symm.trans hd)
      exact .inl ⟨rfl, rfl⟩
  | @step n _ ih =>
      rcases (create client network).after_succ_cases events n with ⟨e, -, hstep⟩ | ⟨-, hsame⟩
      · obtain ⟨b, hb, hdated⟩ := dated_after client network events n
        obtain ⟨b', hb', -, hfate⟩ := dated_step hb hdated e
        rw [hstep] at hd ⊢
        obtain rfl : b' = d := Option.some.inj (hb'.symm.trans hd)
        rcases ih hb, hfate.generation with ⟨⟨hg, hdate⟩ | hlt, ⟨hg', hdate'⟩ | hlt'⟩
        · exact .inl ⟨hg'.trans hg, hdate'.trans hdate⟩
        · exact .inr (hg ▸ hlt')
        · exact .inr (hg' ▸ hlt)
        · exact .inr (Nat.lt_trans hlt hlt')
      · rw [hsame] at hd ⊢
        exact ih hd

/-- To take what came back to a fetch that is not on its way leaves the cell alone. -/
theorem cell?_take_of_not_isFlying {s : Stores} {r : Resource} {c : Cell Wanted Resource.Value}
    {generation : Nat} (hc : s.cell? r = some c) (h : c.isFlying generation = false) :
    (s.step (.take r generation)).cell? r = some c := by
  rcases s.take_cases r generation with ⟨-, hsame⟩ | ⟨a, -, -, htake⟩
  · rw [step, hsame]
    exact hc
  · rw [step, htake]
    refine (cell?_land hc r generation a.landing).trans ?_
    rw [if_pos rfl, Cell.land_of_not_isFlying h]

/-- A fetch that is overtaken by one for another date is not on its way any more. -/
theorem not_isFlying_of_date_ne {client : Client} {network : Network} {events : List Event}
    {k m n : Nat} (hkm : k ≤ m) (hmn : m ≤ n) {c d : Cell Wanted Resource.Value}
    (hc : ((create client network).after events k).cell? .apodImage = some c)
    (hd : ((create client network).after events n).cell? .apodImage = some d) {f : Flight Wanted}
    (hf : f ∈ c.flights) (hdate : ((create client network).after events m).date ≠ f.request) :
    d.isFlying f.generation = false := by
  obtain ⟨b, hb, -⟩ := dated_after client network events m
  obtain ⟨c', hc', hdated⟩ := dated_after client network events k
  obtain rfl : c' = c := Option.some.inj (hc'.symm.trans hc)
  obtain ⟨d', hd', hdated'⟩ := dated_after client network events n
  obtain rfl : d' = d := Option.some.inj (hd'.symm.trans hd)
  obtain rfl := hdated.eq_of_mem hf
  have hlt : c'.generation < d'.generation := by
    rcases generation_after client network events hkm hc hb with ⟨-, hsame⟩ | hlt
    · exact absurd hsame hdate
    · rcases generation_after client network events hmn hb hd with ⟨hg, -⟩ | hlt'
      · exact hg ▸ hlt
      · exact Nat.lt_trans hlt hlt'
  refine Bool.eq_false_iff.2 fun hflies => ?_
  obtain ⟨f, hf, hg⟩ := Cell.isFlying_iff.1 hflies
  obtain rfl := hdated'.eq_of_mem hf
  exact absurd hg (Nat.ne_of_gt hlt)

/-! ## What is asked for -/

/-- Without a date the picture's fetch asks for nothing. -/
theorem request_eq_none {s : Stores} {c : Cell Wanted Resource.Value}
    (hc : s.cell? .apodImage = some c) (hdated : Dated s c) (hdate : s.date = none)
    {generation : Nat} {f : Flight Wanted} (hf : s.flight? .apodImage generation = some f) :
    f.request = none := by
  rw [hdated.eq_of_mem (mem_flights_of_flight? hc hf).1]
  exact hdate

/-- Without a date there are none but plain requests. -/
theorem addsGets_after (client : Client) (network : Network) (events : List Event) (n : Nat)
    (hdate : ((create client network).after events n).date = none) :
    Network.AddsGets network.seen ((create client network).after events n).network.seen := by
  induction n with
  | zero => exact .refl _
  | succ n ih =>
      rcases (create client network).after_succ_cases events n with ⟨e, -, hstep⟩ | ⟨-, hsame⟩
      · rw [hstep] at hdate ⊢
        have hnone : ((create client network).after events n).date = none := by
          rcases date_step _ e with hkept | ⟨date, -, hdate'⟩
          · exact hkept.symm.trans hdate
          · rw [hdate] at hdate'
            cases hdate'
        rcases exchange_step _ e with ⟨hkept, -⟩ | ⟨r, generation, f, -, hf, hload, -⟩
        · rw [hkept]
          exact ih hnone
        · rw [hload]
          refine (ih hnone).trans (Client.addsGets_load _ ?_ _)
          rintro rfl
          obtain ⟨c, hc, hdated⟩ := dated_after client network events n
          exact request_eq_none hc hdated hnone hf
      · rw [hsame] at hdate ⊢
        exact ih hdate

theorem network_ask_of_no_date (client : Client) (network : Network) (events : List Event) (n : Nat)
    (hdate : ((create client network).after events n).date = none) (generation : Nat) :
    (((create client network).after events n).ask .apodImage generation).network =
      ((create client network).after events n).network := by
  obtain ⟨c, hc, hdated⟩ := dated_after client network events n
  rcases ask_cases _ .apodImage generation with hsame | ⟨f, hf, -, hask⟩
  · rw [hsame]
  · rw [hask, request_eq_none hc hdated hdate hf]
    rfl

/-- The picture that is stored is what came back to a request for the date that is chosen at this
moment; one that was on its way when another date was chosen is never stored; and as long as no date is
chosen nothing is asked for. -/
theorem picture_follows_date (client : Client) (network : Network) (events : List Event) (n : Nat) :
    (∃ c c', ((create client network).after events n).cell? .apodImage = some c ∧
      ((create client network).after events (n + 1)).cell? .apodImage = some c' ∧
      (c'.value = c.value ∧ c'.version = c.version ∨
        ∃ g m date v, events[n]? = some (.take .apodImage g) ∧
          m < n ∧ events[m]? = some (.ask .apodImage g) ∧
          ((create client network).after events n).date = some date ∧
          client.fetchPicture date ((create client network).after events m).network =
            (.ok v, ((create client network).after events (m + 1)).network) ∧
          c'.value = some ⟨.apodImage, v⟩)) ∧
    (∀ k m c f, k ≤ m → m ≤ n → ((create client network).after events k).cell? .apodImage = some c →
      f ∈ c.flights → ((create client network).after events m).date ≠ f.request →
      events[n]? = some (.take .apodImage f.generation) →
      ((create client network).after events (n + 1)).cell? .apodImage =
        ((create client network).after events n).cell? .apodImage) ∧
    (((create client network).after events n).date = none →
      Network.AddsGets network.seen ((create client network).after events n).network.seen ∧
      ∀ g, (((create client network).after events n).ask .apodImage g).network =
        ((create client network).after events n).network) := by
  obtain ⟨c, hc, hdated⟩ := dated_after client network events n
  refine ⟨?_, ?_, fun hdate => ⟨addsGets_after client network events n hdate,
    network_ask_of_no_date client network events n hdate⟩⟩
  · rcases (create client network).after_succ_cases events n with ⟨e, he, hstep⟩ | ⟨-, hsame⟩
    · obtain ⟨c', hc', -, hfate⟩ := dated_step hc hdated e
      refine ⟨c, c', hc, by rw [hstep, hc'], hfate.value.imp_right ?_⟩
      rintro ⟨a, ha, hr, rfl, hnewest, hflies, v, hv, hstored, -⟩
      obtain ⟨-, hasked⟩ := answered_after client network events n c a hc ha hr
      obtain ⟨m, hm, hask, hlanding, hsent⟩ := hasked hnewest hflies
      obtain ⟨w, hw, rfl⟩ := landing_eq_value (hlanding.symm.trans hv)
      cases hdate : ((create client network).after events n).date with
      | none =>
          rw [hdate] at hw
          cases hw
      | some date =>
          rw [hdate, Client.load_apodImage] at hw hsent
          exact ⟨_, m, date, w, he, hm, hask, rfl, Prod.ext (Option.some.inj hw) hsent.symm, hstored⟩
    · exact ⟨c, c, hc, by rw [hsame, hc], .inl ⟨rfl, rfl⟩⟩
  · intro k m b f hkm hmn hb hf hdate he
    rcases (create client network).after_succ_cases events n with ⟨e, he', hstep⟩ | ⟨hnone, -⟩
    · obtain rfl : e = .take .apodImage f.generation := Option.some.inj (he'.symm.trans he)
      rw [hstep, hc]
      exact cell?_take_of_not_isFlying hc (not_isFlying_of_date_ne hkm hmn hb hc hf hdate)
    · rw [hnone] at he
      cases he

end Stores

end LiveFeed
