import LiveFeed.Proofs.NewestValue
import LiveFeed.Proofs.Subscriptions

/-!
# What observers hear of

An observer asks for news as often as it likes.  It gets the newest value if one was stored since it
began or last got one, whichever is later, and is told to wait if none was.

* `Hub.Enrolls`, `Hub.enrolls_step`: what a step does to the observers;
* `Hub.News`, `Hub.seen_after`: an observer has not seen the version of its cell if and only if there
  are news for it;
* `Hub.Informed`, `Hub.observers_informed`: what every observer is told in every run.
-/

namespace LiveFeed

variable {ρ ν : Type}

namespace Hub

/-! ## Observers, step by step -/

/-- What an event makes of the observers of a hub. -/
inductive Enrolls (h h' : Hub ρ ν) (e : Event ρ ν) : Prop where
  | same (observers : h'.observers = h.observers) (next : h'.nextObserver = h.nextObserver)
      (event : ∀ id, e ≠ .poll id)
  | opens {i : Nat} {request : ρ} {c : Cell ρ ν} (event : e = .observe i request)
      (cell : h.cells[i]? = some c)
      (observers : h'.observers = h.observers ++ [⟨h.nextObserver, i, c.version⟩])
      (next : h'.nextObserver = h.nextObserver + 1)
  | closes {id : Nat} (event : e = .unobserve id)
      (observers : h'.observers = h.observers.filter fun o => o.id ≠ id)
      (next : h'.nextObserver = h.nextObserver)
  | asks {id : Nat} (event : e = .poll id) (poll : h' = h.poll id)

theorem enrolls_step (h : Hub ρ ν) (e : Event ρ ν) : Enrolls h (h.step e) e := by
  cases e with
  | observe i request =>
      rcases observe_cases h i request with heq | ⟨c, hc, ⟨-, heq⟩ | ⟨-, heq⟩⟩
      · rw [step, heq]
        exact .same rfl rfl (by simp)
      · exact .opens rfl hc (by rw [step, heq]) (by rw [step, heq])
      · exact .opens rfl hc (by rw [step, heq]) (by rw [step, heq])
  | unobserve id =>
      rcases unobserve_cases h id with
        ⟨heq, hnone⟩ | ⟨o, -, ⟨-, heq⟩ | ⟨d, -, ⟨-, heq⟩ | ⟨r, -, -, heq⟩⟩⟩
      · rw [step, heq]
        exact .same rfl rfl (by simp)
      · exact .closes rfl (by rw [step, heq]) (by rw [step, heq])
      · exact .closes rfl (by rw [step, heq]) (by rw [step, heq]; rfl)
      · exact .closes rfl (by rw [step, heq]) (by rw [step, heq]; rfl)
  | poll id => exact .asks rfl rfl
  | unregister id topic =>
      rw [step, unregister]
      split <;> exact .same rfl rfl (by simp)
  | call request =>
      rcases call_cases h request with heq | ⟨_, _, _, _, -, ⟨j, -, heq⟩ | ⟨_, -, heq⟩⟩ <;>
        (rw [step, heq]; exact .same rfl rfl (by simp))
  | leave crashed =>
      rw [step, leave]
      split <;> exact .same rfl rfl (by simp)
  | finish =>
      rw [step, finish]
      split <;> exact .same rfl rfl (by simp)
  | create | disown | update | land | join | register | notify | notifyAll =>
      exact .same rfl rfl (by simp)

/-- Numbers of observers are never given again. -/
theorem nextObserver_step_le (h : Hub ρ ν) (e : Event ρ ν) :
    h.nextObserver ≤ (h.step e).nextObserver := by
  cases enrolls_step h e with
  | same _ next _ => exact Nat.le_of_eq next.symm
  | opens _ _ _ next => exact Nat.le_of_lt (by omega)
  | closes _ _ next => exact Nat.le_of_eq next.symm
  | asks _ poll =>
      rw [poll]
      exact Nat.le_refl _

/-- Where the observer of a number that is there after an event comes from. -/
inductive Observed (h : Hub ρ ν) (e : Event ρ ν) (id : Nat) : Observer → Prop where
  | kept {o : Observer} (before : h.observer? id = some o) (event : e ≠ .poll id) :
      Observed h e id o
  /-- It asked for news, and has seen all there is. -/
  | asked {o : Observer} {c : Cell ρ ν} (before : h.observer? id = some o) (event : e = .poll id)
      (cell : h.cells[o.cell]? = some c) : Observed h e id { o with seen := c.version }
  | new {i : Nat} {request : ρ} {c : Cell ρ ν} (fresh : id = h.nextObserver)
      (event : e = .observe i request) (cell : h.cells[i]? = some c) :
      Observed h e id ⟨id, i, c.version⟩

theorem mem_of_observer? {h : Hub ρ ν} {id : Nat} {o : Observer} (ho : h.observer? id = some o) :
    o ∈ h.observers ∧ o.id = id :=
  ⟨List.mem_of_find?_eq_some ho, by simpa using List.find?_some ho⟩

theorem observer?_poll (h : Hub ρ ν) (id id' : Nat) :
    (h.poll id').observer? id = (h.observer? id).map fun o =>
      if o.id = id' then
        match h.cells[o.cell]? with
        | some c => { o with seen := c.version }
        | none => o
      else o := by
  rw [observer?, observer?, poll, List.find?_map]
  congr 2
  funext o
  simp only [Function.comp_apply]
  split
  · split <;> rfl
  · rfl

theorem observed_of_step {h : Hub ρ ν} (hc : Consistent h) {e : Event ρ ν} {id : Nat} {o : Observer}
    (ho : (h.step e).observer? id = some o) : Observed h e id o := by
  cases enrolls_step h e with
  | same observers _ event =>
      rw [observer?, observers] at ho
      exact .kept ho (event id)
  | @opens i request c event cell observers _ =>
      have hpoll : e ≠ .poll id := by
        rw [event]
        simp
      rw [observer?, observers, List.find?_append, Option.or_eq_some_iff] at ho
      rcases ho with ho | ⟨-, ho⟩
      · exact .kept ho hpoll
      · rw [List.find?_cons, List.find?_nil] at ho
        split at ho
        · next hid =>
            obtain rfl : _ = o := Option.some.inj ho
            have hid' : h.nextObserver = id := of_decide_eq_true hid
            rw [hid']
            exact .new hid'.symm event cell
        · cases ho
  | @closes id' event observers _ =>
      refine .kept ?_ (by rw [event]; simp)
      rw [observer?, observers, List.find?_filter] at ho
      have hid : o.id ≠ id' ∧ o.id = id := by simpa using List.find?_some ho
      -- The observer that leaves is another one.
      have hsame : ∀ p : Observer, decide (decide (p.id ≠ id') = true ∧ decide (p.id = id) = true) =
          decide (p.id = id) := by
        intro p
        by_cases hp : p.id = id
        · simp [hp, ← hid.2, hid.1]
        · simp [hp]
      simp only [hsame] at ho
      exact ho
  | @asks id' event poll =>
      rw [poll, observer?_poll] at ho
      rcases Option.map_eq_some_iff.1 ho with ⟨p, hp, rfl⟩
      rcases mem_of_observer? hp with ⟨hmem, rfl⟩
      split
      · next heq =>
          -- The cell of an observer is never lost.
          have hcell := List.getElem?_eq_getElem (hc.observedCells p hmem)
          have hasks : e = .poll p.id := by rw [event, heq]
          simp only [hcell]
          exact .asked hp hasks hcell
      · next hne =>
          refine .kept hp ?_
          rw [event]
          simpa using fun heq => hne heq.symm

/-! ## Observers of a run -/

section Run

variable {events : List (Event ρ ν)}

theorem consistent_after (events : List (Event ρ ν)) (n : Nat) :
    Consistent ((empty : Hub ρ ν).after events n) :=
  consistent_run consistent_empty (events.take n)

/-- The number of an observer is taken for good. -/
theorem lt_nextObserver {id m n : Nat} {o : Observer} (hmn : m ≤ n)
    (ho : ((empty : Hub ρ ν).after events m).observer? id = some o) :
    id < ((empty : Hub ρ ν).after events n).nextObserver := by
  induction hmn with
  | refl =>
      rcases mem_of_observer? ho with ⟨hmem, rfl⟩
      exact (consistent_after events m).observerBound o hmem
  | @step n _ ih =>
      rcases (empty : Hub ρ ν).after_succ_cases events n with ⟨e, -, hstep⟩ | ⟨-, hsame⟩
      · rw [hstep]
        exact Nat.lt_of_lt_of_le ih (nextObserver_step_le _ e)
      · rw [hsame]
        exact ih

/-- An observer that is there at two points of a run was there in between, at the same cell. -/
theorem cell_eq_of_observer? {id m n : Nat} {o p : Observer} (hmn : m ≤ n)
    (hp : ((empty : Hub ρ ν).after events m).observer? id = some p)
    (ho : ((empty : Hub ρ ν).after events n).observer? id = some o) : o.cell = p.cell := by
  induction hmn generalizing o with
  | refl =>
      rw [hp] at ho
      exact congrArg Observer.cell (Option.some.inj ho).symm
  | @step n hmn ih =>
      rcases (empty : Hub ρ ν).after_succ_cases events n with ⟨e, -, hstep⟩ | ⟨-, hsame⟩
      · rw [hstep] at ho
        cases observed_of_step (consistent_after events n) ho with
        | kept before _ => exact ih before
        | asked before _ _ =>
            have hcell := ih before
            exact hcell
        | new fresh _ _ =>
            -- A new one would have another number.
            exact absurd fresh (Nat.ne_of_lt (lt_nextObserver hmn hp))
      · rw [hsame] at ho
        exact ih ho

/-- Event `n` of a run asks for news on behalf of an observer, and there are some. -/
def Hears (events : List (Event ρ ν)) (id n : Nat) : Prop :=
  events[n]? = some (.poll id) ∧ ((empty : Hub ρ ν).after events n).hasChanged id = true

/-- Before event `n` of a run something was stored in cell `i` while an observer was there, and after
the observer last heard of anything. -/
def News (events : List (Event ρ ν)) (id i n : Nat) : Prop :=
  ∃ g m, m < n ∧ Stores events i g m ∧
    (∃ o, ((empty : Hub ρ ν).after events m).observer? id = some o) ∧
    ∀ k, k < n → Hears events id k → k < m

theorem Stores.ne_poll {i g n : Nat} (hs : Stores events i g n) (id : Nat) :
    events[n]? ≠ some (.poll id) := by
  rcases hs with ⟨landing, _, _, he, -⟩
  rw [he]
  simp

theorem news_succ_of_stores {id i g n : Nat} {o : Observer} (hs : Stores events i g n)
    (ho : ((empty : Hub ρ ν).after events n).observer? id = some o) : News events id i (n + 1) := by
  refine ⟨g, n, Nat.lt_succ_self n, hs, ⟨o, ho⟩, ?_⟩
  intro k hk hhears
  refine Nat.lt_of_le_of_ne (Nat.le_of_lt_succ hk) ?_
  rintro rfl
  exact hs.ne_poll id hhears.1

theorem news_succ_iff {id i n : Nat} (hnot : ∀ g, ¬ Stores events i g n)
    (hdeaf : ¬ Hears events id n) : News events id i (n + 1) ↔ News events id i n := by
  constructor
  · rintro ⟨g, m, hm, hs, ho, hlast⟩
    have hne : m ≠ n := by
      rintro rfl
      exact hnot g hs
    exact ⟨g, m, by omega, hs, ho, fun k hk => hlast k (Nat.lt_succ_of_lt hk)⟩
  · rintro ⟨g, m, hm, hs, ho, hlast⟩
    refine ⟨g, m, Nat.lt_succ_of_lt hm, hs, ho, ?_⟩
    intro k hk hhears
    have hne : k ≠ n := by
      rintro rfl
      exact hdeaf hhears
    exact hlast k (by omega) hhears

/-- After an observer has heard of something there are no news. -/
theorem not_news_succ_of_hears {id i n : Nat} (hhears : Hears events id n) :
    ¬ News events id i (n + 1) := by
  rintro ⟨g, m, hm, hs, -, hlast⟩
  have := hlast n (Nat.lt_succ_self n) hhears
  omega

/-- There are no news for an observer that was not there yet. -/
theorem not_news_of_fresh {id i n : Nat}
    (hfresh : id = ((empty : Hub ρ ν).after events n).nextObserver) :
    ¬ News events id i (n + 1) := by
  rintro ⟨g, m, hm, hstores, ⟨o, ho⟩, -⟩
  exact absurd hfresh (Nat.ne_of_lt (lt_nextObserver (Nat.le_of_lt_succ hm) ho))

/-- A store makes one more version of a cell, and nothing else makes any. -/
theorem version_succ {i n : Nat} {c c' : Cell ρ ν}
    (hc : ((empty : Hub ρ ν).after events n).cells[i]? = some c)
    (hc' : ((empty : Hub ρ ν).after events (n + 1)).cells[i]? = some c') :
    (c'.version = c.version + 1 ∧ ∃ g, Stores events i g n) ∨
      c'.version = c.version ∧ ∀ g, ¬ Stores events i g n := by
  by_cases hstores : ∃ g, Stores events i g n
  · rcases hstores with ⟨g, hs⟩
    rcases stores_iff.1 hs with ⟨v, hb⟩
    rcases hb.cells_succ with ⟨d, hd, -, hsucc⟩
    obtain rfl : d = c := Option.some.inj (hd.symm.trans hc)
    obtain rfl : (d.without g).store v = c' := Option.some.inj (hsucc.symm.trans hc')
    exact .inl ⟨rfl, g, hs⟩
  · refine .inr ⟨?_, fun g hs => hstores ⟨g, hs⟩⟩
    by_contra hne
    exact hstores (exists_stores_of_ne hc hc' (.inr hne))

theorem exists_cell_of_observer? {id n : Nat} {o : Observer}
    (ho : ((empty : Hub ρ ν).after events n).observer? id = some o) :
    ∃ c, ((empty : Hub ρ ν).after events n).cells[o.cell]? = some c :=
  ⟨_, List.getElem?_eq_getElem
    ((consistent_after events n).observedCells o (mem_of_observer? ho).1)⟩

theorem hasChanged_iff {h : Hub ρ ν} {id : Nat} {o : Observer} {c : Cell ρ ν}
    (ho : h.observer? id = some o) (hc : h.cells[o.cell]? = some c) (hle : o.seen ≤ c.version) :
    h.hasChanged id = true ↔ o.seen < c.version := by
  simp only [hasChanged, ho, hc, Option.any_some, bne_iff_ne, ne_eq]
  omega

/-- An observer has seen no more versions of its cell than there are, and not all of them if and only
if there are news for it. -/
theorem seen_after {id n : Nat} {o : Observer} {c : Cell ρ ν}
    (ho : ((empty : Hub ρ ν).after events n).observer? id = some o)
    (hc : ((empty : Hub ρ ν).after events n).cells[o.cell]? = some c) :
    o.seen ≤ c.version ∧ (o.seen < c.version ↔ News events id o.cell n) := by
  induction n generalizing o c with
  | zero => simp [after_zero, empty, observer?] at ho
  | succ n ih =>
      rcases (empty : Hub ρ ν).after_succ_cases events n with ⟨e, he, hstep⟩ | ⟨he, hsame⟩
      · have ho' := ho
        rw [hstep] at ho'
        cases observed_of_step (consistent_after events n) ho' with
        | kept before event =>
            rcases exists_cell_of_observer? before with ⟨d, hd⟩
            rcases ih before hd with ⟨hle, hiff⟩
            rcases version_succ hd hc with ⟨hversion, g, hs⟩ | ⟨hversion, hnot⟩
            · have hnews := news_succ_of_stores hs before
              exact ⟨by omega, fun _ => hnews, fun _ => by omega⟩
            · have hdeaf : ¬ Hears events id n := by
                rintro ⟨hpoll, -⟩
                exact event (Option.some.inj (he.symm.trans hpoll))
              rw [hversion, news_succ_iff hnot hdeaf]
              exact ⟨hle, hiff⟩
        | @asked p d before event cell =>
            rcases ih before cell with ⟨hle, hiff⟩
            rw [event] at he
            rcases version_succ cell hc with ⟨-, g, hs⟩ | ⟨hversion, hnot⟩
            · exact absurd he (hs.ne_poll id)
            · -- Whether or not there were news, there are none after this.
              have hnone : ¬ News events id p.cell (n + 1) := by
                by_cases hchanged : ((empty : Hub ρ ν).after events n).hasChanged id = true
                · exact not_news_succ_of_hears ⟨he, hchanged⟩
                · rw [news_succ_iff hnot fun hhears => hchanged hhears.2, ← hiff,
                    ← hasChanged_iff before cell hle]
                  exact hchanged
              refine ⟨Nat.le_of_eq hversion.symm, ?_⟩
              constructor
              · intro hlt
                exact absurd hversion (Nat.ne_of_gt hlt)
              · intro hnews
                exact absurd hnews hnone
        | @new i request d fresh event cell =>
            rcases version_succ cell hc with ⟨-, g, hs⟩ | ⟨hversion, hnot⟩
            · rcases hs with ⟨landing, _, _, hland, -⟩
              rw [he, event] at hland
              cases hland
            · have hnone := not_news_of_fresh (i := i) fresh
              refine ⟨Nat.le_of_eq hversion.symm, ?_⟩
              constructor
              · intro hlt
                exact absurd hversion (Nat.ne_of_gt hlt)
              · intro hnews
                exact absurd hnews hnone
      · have hnot : ∀ g, ¬ Stores events o.cell g n := by
          rintro g ⟨_, _, _, hland, -⟩
          rw [he] at hland
          cases hland
        have hdeaf : ¬ Hears events id n := by
          rintro ⟨hpoll, -⟩
          rw [he] at hpoll
          cases hpoll
        rw [hsame] at ho hc
        rw [news_succ_iff hnot hdeaf]
        exact ih ho hc

/-- Event `n` of a run tells an observer the value `v`, which the fetch `g` brought. -/
structure Gets (events : List (Event ρ ν)) (id g : Nat) (v : ν) (n : Nat) : Prop where
  hears : Hears events id n
  sees : ((empty : Hub ρ ν).after events n).observedValue id = some v
  brought : ∃ o, ((empty : Hub ρ ν).after events n).observer? id = some o ∧
    BroughtLast events o.cell g v n

/-- What an observer is told and sees before event `n` of a run.  It has no say in what it sees, and
looking is no event: what it is told depends on what is stored and on what it was told before. -/
structure Informed (events : List (Event ρ ν)) (id : Nat) (o : Observer) (n : Nat) : Prop where
  ready : ((empty : Hub ρ ν).after events n).hasChanged id = true ↔ News events id o.cell n
  newest : ((empty : Hub ρ ν).after events n).hasChanged id = true →
    ∃ g v, ((empty : Hub ρ ν).after events n).observedValue id = some v ∧
      BroughtLast events o.cell g v n
  sees : ∀ v, ((empty : Hub ρ ν).after events n).observedValue id = some v ↔
    ∃ g, BroughtLast events o.cell g v n
  newer : ∀ g v k g' v' k', k < k' → Gets events id g v k → Gets events id g' v' k' → g < g'

theorem observedValue_eq {h : Hub ρ ν} {id : Nat} {o : Observer} {c : Cell ρ ν}
    (ho : h.observer? id = some o) (hc : h.cells[o.cell]? = some c) :
    h.observedValue id = c.value := by
  simp [observedValue, ho, hc]

/-- What an observer is told comes from newer and newer fetches. -/
theorem Gets.lt {id g k g' k' : Nat} {v v' : ν} (h : Gets events id g v k)
    (h' : Gets events id g' v' k') (hlt : k < k') : g < g' := by
  rcases h.brought with ⟨o, ho, hlast⟩
  rcases h'.brought with ⟨o', ho', hlast'⟩
  have hcell : o'.cell = o.cell := cell_eq_of_observer? (Nat.le_of_lt hlt) ho ho'
  rcases exists_cell_of_observer? ho' with ⟨c, hc⟩
  rcases seen_after ho' hc with ⟨hle, hiff⟩
  -- The later time there were news, so that something was stored in between.
  rcases hiff.1 ((hasChanged_iff ho' hc hle).1 h'.hears.2) with ⟨g'', m, hm, hs, -, hafter⟩
  rcases stores_iff.1 hs with ⟨w, hw⟩
  rcases hlast.brought with ⟨m₀, hm₀, hb₀⟩
  have hkm : k < m := hafter k hlt h.hears
  rw [← hcell] at hb₀
  calc g < g'' := brings_lt_brings hb₀ hw (Nat.lt_trans hm₀ hkm)
    _ ≤ g' := hlast'.newest g'' w m hm hw

/-- At every point of every run there are news for an observer if and only if a value was stored since
it began or last got one, whichever is later.  If it asks then, it gets the newest value, and never
none, whoever let go of the cell and whatever is on its way.  What one observer gets comes from newer
and newer fetches, and looking at the value in between takes nothing from it. -/
theorem observers_informed (events : List (Event ρ ν)) (id n : Nat) (o : Observer)
    (ho : ((empty : Hub ρ ν).after events n).observer? id = some o) : Informed events id o n := by
  rcases exists_cell_of_observer? ho with ⟨c, hc⟩
  rcases seen_after ho hc with ⟨hle, hiff⟩
  have hready := hasChanged_iff ho hc hle
  have hvalue := observedValue_eq ho hc
  refine ⟨hready.trans hiff, ?_, ?_, fun g v k g' v' k' hlt h h' => h.lt h' hlt⟩
  · intro hchanged
    rcases hiff.1 (hready.1 hchanged) with ⟨g, m, hm, hs, -, -⟩
    rcases stores_iff.1 hs with ⟨w, hw⟩
    -- Something was brought, so that the cell keeps something.
    rcases keepsLast_after hc with ⟨-, hno⟩ | ⟨_, v, _, -, -, hv, -⟩
    · exact absurd hw (hno g w m hm)
    · rcases (value_iff_broughtLast hc v).1 hv with ⟨g', hlast⟩
      exact ⟨g', v, hvalue.trans hv, hlast⟩
  · intro v
    rw [hvalue]
    exact value_iff_broughtLast hc v

end Run

/-- An observer that asks in vain, and then for a value that was stored before the owner let go. -/
def askedTwice : List (Event Unit Nat) :=
  [.create .user false, .observe 0 (), .poll 0, .update 0 (), .land 0 2 (.value 7), .disown 0,
    .land 0 1 (.value 5), .poll 0]

theorem observers_informed_askedTwice :
    ∃ o, ((empty : Hub Unit Nat).after askedTwice 7).observer? 0 = some o ∧
      ((empty : Hub Unit Nat).after askedTwice 7).hasChanged 0 = true ∧
      ((empty : Hub Unit Nat).after askedTwice 7).observedValue 0 = some 7 ∧
      Informed askedTwice 0 o 7 :=
  ⟨_, rfl, rfl, rfl, observers_informed askedTwice 0 7 _ rfl⟩

end Hub

end LiveFeed
