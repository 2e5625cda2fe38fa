import Mathlib.Data.Nat.Find
import LiveFeed.Proofs.GivenUpFetches
import LiveFeed.Proofs.FanOuts

/-!
# Updates that return

A call of `update` issues a fetch and waits for it.  It returns when the fetch is not on its way any
more: it has ended, or an aborting cell gave it up for a newer one.  The newest fetch is never given
up, so when several calls have returned and nothing else issued a fetch, the newest one has ended.

* `Hub.UpdateCalled`, `Hub.Joins`, `Hub.UpdateReturns`: what a run does with a call of `update`;
* `Hub.Ends`, `Hub.GivesUp`, `Hub.flies_or_over`: a fetch is on its way until either happens to it;
* `Hub.waits_of_step`, `Hub.exists_called_of_waits`: whoever waits has called;
* `Hub.Settled`, `Hub.AllReturned`, `Hub.updates_settle`: what is so when calls have returned.
-/

namespace LiveFeed

variable {ρ ν : Type}

namespace Cell

@[simp] theorem awaited_issue (c : Cell ρ ν) (request : ρ) :
    (c.issue request).awaited = c.awaited := by
  unfold issue without
  split <;> rfl

theorem awaited_land (c : Cell ρ ν) (generation : Nat) (landing : Landing ν) :
    (c.land generation landing).awaited = c.awaited := by
  cases h : c.isFlying generation with
  | false => rw [land_of_not_isFlying h]
  | true => rcases land_of_isFlying h landing with hl | ⟨v, -, -, hl⟩ <;> rw [hl] <;> rfl

end Cell

namespace Hub

/-! ## The end of a fetch -/

/-- Event `n` of a run ends the fetch `g` of cell `i`. -/
structure Ends (events : List (Event ρ ν)) (i g : Nat) (landing : Landing ν) (n : Nat) : Prop where
  event : events[n]? = some (.land i g landing)
  flies : ((empty : Hub ρ ν).after events n).Flies i g

/-- With event `n` of a run cell `i`, which is aborting, issues a fetch and gives up its fetch `g`. -/
structure GivesUp (events : List (Event ρ ν)) (i g n : Nat) : Prop where
  aborting : ∃ c, ((empty : Hub ρ ν).after events n).cells[i]? = some c ∧ c.aborting = true
  issues : Issues ((empty : Hub ρ ν).after events n) ((empty : Hub ρ ν).after events (n + 1)) i
  flies : ((empty : Hub ρ ν).after events n).Flies i g
  gone : ¬ ((empty : Hub ρ ν).after events (n + 1)).Flies i g

/-- Before event `n` of a run the fetch `g` of cell `i` ended, whether well or not, or was given up. -/
def OverBefore (events : List (Event ρ ν)) (i g n : Nat) : Prop :=
  ∃ m, m < n ∧ ((∃ landing, Ends events i g landing m) ∨ GivesUp events i g m)

theorem endedBefore_iff {events : List (Event ρ ν)} {i g n : Nat} :
    EndedBefore events i g n ↔ ∃ landing m, m < n ∧ Ends events i g landing m :=
  ⟨fun ⟨m, landing, hm, he, hf⟩ => ⟨landing, m, hm, he, hf⟩,
    fun ⟨landing, m, hm, hends⟩ => ⟨m, landing, hm, hends.event, hends.flies⟩⟩

/-- A fetch on its way still is after an event, or the event ends it or makes the cell give it up. -/
theorem flies_succ {events : List (Event ρ ν)} {i g n : Nat}
    (hf : ((empty : Hub ρ ν).after events n).Flies i g) :
    ((empty : Hub ρ ν).after events (n + 1)).Flies i g ∨
      (∃ landing, Ends events i g landing n) ∨ GivesUp events i g n := by
  rcases (empty : Hub ρ ν).after_succ_cases events n with ⟨e, he, hstep⟩ | ⟨-, hsame⟩
  · by_cases hf' : ((empty : Hub ρ ν).after events (n + 1)).Flies i g
    · exact .inl hf'
    · obtain ⟨c, hc, hfly⟩ := hf
      obtain ⟨f, hmem, rfl⟩ := Cell.isFlying_iff.1 hfly
      obtain ⟨c', hc', hchange⟩ := exists_change hc e
      rw [← hstep] at hc'
      have hnot : f ∉ c'.flights := fun hmem' =>
        hf' ⟨c', hc', Cell.isFlying_iff.2 ⟨f, hmem', rfl⟩⟩
      refine .inr ?_
      cases hchange with
      | keep alike _ => exact absurd (alike.flights ▸ hmem) hnot
      | issue request alike =>
          -- What a new fetch does not leave on its way is given up.
          have haborting : c.aborting = true := by
            refine Classical.byContradiction fun ha => hnot ?_
            rw [alike.flights, Cell.mem_flights_issue]
            exact .inr ⟨hmem, fun h => absurd h ha⟩
          refine .inr ⟨⟨c, hc, haborting⟩, ⟨c, c', hc, hc', ?_⟩, ⟨c, hc, hfly⟩, hf'⟩
          rw [alike.generation, Cell.generation_issue]
          exact Nat.lt_succ_self _
      | land generation landing hevent =>
          have hgen : generation = f.generation := by
            refine Classical.byContradiction fun hne => hnot ?_
            exact (Cell.mem_flights_land c _ _ f).2 ⟨hmem, Ne.symm hne⟩
          exact .inl ⟨landing, by rw [he, hevent, hgen], c, hc, hfly⟩
  · rw [hsame]
    exact .inl hf

/-- A fetch that was on its way at some point still is, or it is over. -/
theorem flies_or_over {events : List (Event ρ ν)} {i g m n : Nat} (hmn : m ≤ n)
    (hf : ((empty : Hub ρ ν).after events m).Flies i g) :
    ((empty : Hub ρ ν).after events n).Flies i g ∨ OverBefore events i g n := by
  induction hmn with
  | refl => exact .inl hf
  | @step n _ ih =>
      rcases ih with hn | ⟨k, hk, hover⟩
      · exact (flies_succ hn).imp_right fun hover => ⟨n, Nat.lt_succ_self n, hover⟩
      · exact .inr ⟨k, Nat.lt_succ_of_lt hk, hover⟩

/-- What was issued and is not on its way never is again, and never stores anything. -/
theorem spent_forever {events : List (Event ρ ν)} {i g n : Nat} {c : Cell ρ ν}
    (hc : ((empty : Hub ρ ν).after events n).cells[i]? = some c) (hspent : c.Spent g) (n' : Nat)
    (hn : n ≤ n') :
    ¬ ((empty : Hub ρ ν).after events n').Flies i g ∧ ¬ Stores events i g n' := by
  obtain ⟨d, hd, -, hnot⟩ := exists_after_of_stable (P := fun c => c.Spent g)
    (fun _ _ _ hchange => hchange.spent) (empty : Hub ρ ν) events hn ⟨c, hc, hspent⟩
  have hground : ¬ ((empty : Hub ρ ν).after events n').Flies i g := by
    rintro ⟨d', hd', hfly⟩
    obtain rfl : d' = d := Option.some.inj (hd'.symm.trans hd)
    obtain ⟨f, hf, hg⟩ := Cell.isFlying_iff.1 hfly
    exact hnot f hf hg
  refine ⟨hground, fun hstores => ?_⟩
  obtain ⟨v, hbrings⟩ := stores_iff.1 hstores
  exact hground hbrings.flies

/-- As long as no newer fetch is issued, a cell keeps what its newest one brought. -/
theorem value_of_ends {events : List (Event ρ ν)} {i m n : Nat} {c : Cell ρ ν} {v : ν}
    (hc : ((empty : Hub ρ ν).after events n).cells[i]? = some c) (hm : m < n)
    (hends : Ends events i c.generation (.value v) m) : c.value = some v := by
  have hissued : ∀ {g k : Nat}, k ≤ n → IssuedBefore events i g k → g ≤ c.generation := by
    -- The count at `n` bounds whatever was issued before.
    rintro g k hk ⟨l, hl, hf⟩
    exact generation_le_of_issuedBefore hc ⟨l, Nat.le_trans hl hk, hf⟩
  have hbrings : BringsNewest events i c.generation v m :=
    ⟨hends.event, hends.flies, fun g hg => hissued (Nat.le_of_lt hm) hg⟩
  refine (value_iff_broughtLast hc v).2 ⟨c.generation, ⟨m, hm, hbrings⟩, ?_⟩
  intro g w k hk hb
  exact hissued (Nat.le_of_lt hk) ⟨k, Nat.le_refl k, hb.flies⟩

/-! ## Calls of `update` -/

/-- Event `n` of a run calls `update` on cell `i`, which issues the fetch `g`. -/
def UpdateCalled (events : List (Event ρ ν)) (i g n : Nat) : Prop :=
  ∃ request c, events[n]? = some (.update i request) ∧
    ((empty : Hub ρ ν).after events n).cells[i]? = some c ∧ c.owned = true ∧ g = c.generation + 1

/-- From one state to another a call of `update` on cell `i` returned: one less waits. -/
def Joins (h h' : Hub ρ ν) (i : Nat) : Prop :=
  ∃ c c', h.cells[i]? = some c ∧ h'.cells[i]? = some c' ∧ c'.awaited.length < c.awaited.length

/-- With event `n` of a run the call of `update` returns that waits for the fetch `g` of cell `i`. -/
def UpdateReturns (events : List (Event ρ ν)) (i g n : Nat) : Prop :=
  events[n]? = some (.join i g) ∧
    Joins ((empty : Hub ρ ν).after events n) ((empty : Hub ρ ν).after events (n + 1)) i

/-- A call of `update` waits for the fetch `g` of cell `i`. -/
def Waits (h : Hub ρ ν) (i g : Nat) : Prop :=
  ∃ c, h.cells[i]? = some c ∧ g ∈ c.awaited

theorem Waits.congr {h h' : Hub ρ ν} {i g : Nat} (hw : h'.Waits i g) (hcells : h'.cells = h.cells) :
    h.Waits i g := by
  unfold Waits at hw ⊢
  rwa [hcells] at hw

/-- A change of a cell that nobody begins to wait with leaves those who wait. -/
theorem Waits.of_modifyCell {h : Hub ρ ν} {i j g : Nat} {f : Cell ρ ν → Cell ρ ν}
    (hw : (h.modifyCell j f).Waits i g) (hf : ∀ c, g ∈ (f c).awaited → g ∈ c.awaited) :
    h.Waits i g := by
  obtain ⟨c', hc', hg⟩ := hw
  rw [getElem?_modifyCell] at hc'
  split at hc'
  · obtain ⟨c, hc, rfl⟩ := Option.map_eq_some_iff.1 hc'
    exact ⟨c, hc, hf c hg⟩
  · exact ⟨c', hc', hg⟩

/-- Nobody begins to wait but with a call of `update`. -/
theorem waits_of_step {h : Hub ρ ν} {i g : Nat} {e : Event ρ ν} (hw : (h.step e).Waits i g) :
    h.Waits i g ∨ ∃ request c, e = .update i request ∧ h.cells[i]? = some c ∧ c.owned = true ∧
      g = c.generation + 1 := by
  cases e with
  | create topic aborting =>
      obtain ⟨c, hc, hg⟩ := hw
      cases hd : h.cells[i]? with
      | none =>
          -- A new cell has nobody wait for it.
          obtain ⟨topic, aborting, rfl⟩ := eq_create_of_step hd hc
          cases hg
      | some d =>
          have hi : i < h.cells.length := (List.getElem?_eq_some_iff.1 hd).1
          rw [step, create, List.getElem?_append_left hi, hd] at hc
          exact .inl ⟨c, hd.trans hc, hg⟩
  | disown j => exact .inl (hw.of_modifyCell fun _ => id)
  | observe j request =>
      refine .inl ?_
      rcases observe_cases h j request with heq | ⟨d, -, ⟨-, heq⟩ | ⟨-, heq⟩⟩ <;> rw [step, heq] at hw
      · exact hw
      · refine Waits.of_modifyCell (f := fun c => c.wake h.registry.nextId request) hw fun c hg => ?_
        simpa [Cell.wake] using hg
      · exact Waits.of_modifyCell (f := fun c => { c with observers := c.observers + 1 }) hw
          fun _ => id
  | unobserve id =>
      refine .inl ?_
      rcases unobserve_cases h id with
        ⟨heq, -⟩ | ⟨o, -, ⟨-, heq⟩ | ⟨d, -, ⟨-, heq⟩ | ⟨r, -, -, heq⟩⟩⟩ <;> rw [step, heq] at hw
      · exact hw
      · exact hw
      · exact Waits.of_modifyCell (f := fun c => { c with observers := c.observers - 1 }) hw
          fun _ hg => hg
      · exact Waits.of_modifyCell
          (f := fun c => { c with observers := c.observers - 1, registration := none }) hw
          fun _ hg => hg
  | poll id => exact .inl hw
  | update j request =>
      -- Whoever waits afterwards has waited before, or it is the call that is made here.
      obtain ⟨c', hc', hg⟩ := hw
      rw [step, update, getElem?_modifyCell] at hc'
      split at hc'
      · next hj =>
          obtain ⟨c, hc, rfl⟩ := Option.map_eq_some_iff.1 hc'
          split at hg
          · next ho =>
              rcases List.mem_append.1 hg with hg | hg
              · exact .inl ⟨c, hc, hg⟩
              · exact .inr ⟨request, c, by rw [hj], hc, ho, List.mem_singleton.1 hg⟩
          · exact .inl ⟨c, hc, hg⟩
      · exact .inl ⟨c', hc', hg⟩
  | land j generation landing =>
      refine .inl (hw.of_modifyCell fun c hg => ?_)
      rwa [Cell.awaited_land] at hg
  | join j generation =>
      refine .inl (hw.of_modifyCell fun c hg => ?_)
      split at hg
      · exact hg
      · exact List.mem_of_mem_erase hg
  | register topic label => exact .inl hw
  | unregister id topic =>
      refine .inl (hw.congr ?_)
      rw [step, unregister]
      split <;> rfl
  | notify topic => exact .inl hw
  | notifyAll => exact .inl hw
  | call request =>
      refine .inl ?_
      rcases call_cases h request with heq | ⟨_, _, _, _, -, ⟨j, -, heq⟩ | ⟨_, -, heq⟩⟩ <;>
        rw [step, heq] at hw
      · exact hw
      · refine Waits.of_modifyCell (f := fun c => if c.isAlive then c.issue request else c) hw
          fun c hg => ?_
        split at hg
        · rwa [Cell.awaited_issue] at hg
        · exact hg
      · exact hw
  | leave crashed =>
      refine .inl (hw.congr ?_)
      rw [step, leave]
      split <;> rfl
  | finish =>
      refine .inl (hw.congr ?_)
      rw [step, finish]
      split <;> rfl

/-- Whoever waits for a fetch has called `update` before. -/
theorem exists_called_of_waits {events : List (Event ρ ν)} {i g n : Nat}
    (hw : ((empty : Hub ρ ν).after events n).Waits i g) :
    ∃ m, m < n ∧ UpdateCalled events i g m := by
  induction n with
  | zero =>
      obtain ⟨c, hc, -⟩ := hw
      simp [after_zero, empty] at hc
  | succ n ih =>
      have earlier : (∃ m, m < n ∧ UpdateCalled events i g m) →
          ∃ m, m < n + 1 ∧ UpdateCalled events i g m := by
        rintro ⟨m, hm, hcalled⟩
        exact ⟨m, Nat.lt_succ_of_lt hm, hcalled⟩
      rcases (empty : Hub ρ ν).after_succ_cases events n with ⟨e, he, hstep⟩ | ⟨-, hsame⟩
      · rw [hstep] at hw
        rcases waits_of_step hw with hw | ⟨request, c, rfl, hc, ho, hg⟩
        · exact earlier (ih hw)
        · exact ⟨n, Nat.lt_succ_self n, request, c, he, hc, ho, hg⟩
      · rw [hsame] at hw
        exact earlier (ih hw)

/-- A call of `update` has its fetch on its way. -/
theorem UpdateCalled.cell_succ {events : List (Event ρ ν)} {i g n : Nat}
    (h : UpdateCalled events i g n) :
    ∃ c', ((empty : Hub ρ ν).after events (n + 1)).cells[i]? = some c' ∧ c'.generation = g ∧
      c'.isFlying g = true := by
  obtain ⟨request, c, he, hc, ho, rfl⟩ := h
  refine ⟨{ c.issue request with awaited := c.awaited ++ [c.generation + 1] }, ?_, rfl, ?_⟩
  · rw [(empty : Hub ρ ν).after_succ he, step, update, getElem?_modifyCell, if_pos rfl, hc]
    simp [ho]
  · exact Cell.isFlying_iff.2 ⟨_, (Cell.mem_flights_issue c request _).2 (.inl rfl), rfl⟩

theorem UpdateCalled.generation_le {events : List (Event ρ ν)} {i g m n : Nat} {c : Cell ρ ν}
    (h : UpdateCalled events i g m) (hmn : m < n)
    (hc : ((empty : Hub ρ ν).after events n).cells[i]? = some c) : g ≤ c.generation := by
  obtain ⟨d, hd, rfl, -⟩ := h.cell_succ
  obtain ⟨c', hc', hle⟩ := exists_cell_of_le hmn hd
  obtain rfl : c' = c := Option.some.inj (hc'.symm.trans hc)
  exact hle

/-- Only what asks a cell to fetch something makes it issue a fetch. -/
theorem Issues.sends {h : Hub ρ ν} {i : Nat} {e : Event ρ ν} (hissues : Issues h (h.step e) i) :
    ∃ request, h.Sends i request e := by
  obtain ⟨c, c', hc, hc', hlt⟩ := hissues
  obtain ⟨d, hd, hfate⟩ := exists_fate hc e
  obtain rfl : d = c' := Option.some.inj (hd.symm.trans hc')
  cases hfate with
  | keep alike _ _ => exact absurd alike.generation (Nat.ne_of_gt hlt)
  | issue sends _ _ => exact ⟨_, sends⟩
  | land generation landing _ => exact absurd (c.generation_land _ _) (Nat.ne_of_gt hlt)

/-- An `update` that makes a cell issue a fetch is a call that waits for it. -/
theorem exists_updateCalled {events : List (Event ρ ν)} {i n : Nat} {request : ρ}
    (he : events[n]? = some (.update i request))
    (hissues : Issues ((empty : Hub ρ ν).after events n) ((empty : Hub ρ ν).after events (n + 1)) i) :
    ∃ g, UpdateCalled events i g n := by
  obtain ⟨c, c', hc, hc', hlt⟩ := hissues
  refine ⟨c.generation + 1, request, c, he, hc, Classical.byContradiction fun ho => ?_, rfl⟩
  -- A cell that its owner let go of is left as it is.
  rw [(empty : Hub ρ ν).after_succ he, step, update, getElem?_modifyCell, if_pos rfl, hc,
    Option.map_some, if_neg ho] at hc'
  obtain rfl : c = c' := Option.some.inj hc'
  exact absurd hlt (Nat.lt_irrefl _)

/-- No two calls of `update` issue the same fetch. -/
theorem UpdateCalled.unique {events : List (Event ρ ν)} {i g m n : Nat}
    (hm : UpdateCalled events i g m) (hn : UpdateCalled events i g n) : m = n := by
  have hlt : ∀ {m n : Nat}, UpdateCalled events i g m → UpdateCalled events i g n → ¬ m < n := by
    rintro m n hm ⟨request, c, -, hc, -, rfl⟩ hmn
    exact Nat.not_succ_le_self _ (hm.generation_le hmn hc)
  exact Nat.le_antisymm (Nat.le_of_not_lt (hlt hn hm)) (Nat.le_of_not_lt (hlt hm hn))

/-! ## What is so when a call has returned -/

/-- What is so at point `n` of a run, where a call of `update` returns that issued the fetch `g` of
cell `i`, which is then `c`. -/
structure Settled (events : List (Event ρ ν)) (i g n : Nat) (c : Cell ρ ν) : Prop where
  /-- There is one such call. -/
  called : ∃ m, m < n ∧ UpdateCalled events i g m ∧ ∀ m', UpdateCalled events i g m' → m' = m
  done : OverBefore events i g n
  never : ∀ n', n ≤ n' →
    ¬ ((empty : Hub ρ ν).after events n').Flies i g ∧ ¬ Stores events i g n'
  /-- The cell has the value that the fetch brought, or it brought nothing or broke off, or a newer
  fetch has been issued. -/
  outcome : (∃ v m, m < n ∧ Ends events i g (.value v) m ∧ c.value = some v) ∨
    (∃ m, m < n ∧ Ends events i g .nothing m) ∨ (∃ m, m < n ∧ Ends events i g .crash m) ∨
    ∃ g', g < g' ∧ IssuedBefore events i g' n

/-- From point `m` to point `n` of a run nothing but calls of `update` makes cell `i` issue fetches,
there are such calls, and all of them have returned. -/
structure AllReturned (events : List (Event ρ ν)) (i m n : Nat) : Prop where
  called : ∃ k g, m ≤ k ∧ k < n ∧ UpdateCalled events i g k
  only : ∀ k, m ≤ k → k < n →
    Issues ((empty : Hub ρ ν).after events k) ((empty : Hub ρ ν).after events (k + 1)) i →
    ∃ g, UpdateCalled events i g k
  returned : ∀ k g, m ≤ k → k < n → UpdateCalled events i g k →
    ∃ k', k' < n ∧ UpdateReturns events i g k'

/-- A call that returns has waited for a fetch that is not on its way any more. -/
theorem UpdateReturns.exists_cell {events : List (Event ρ ν)} {i g n : Nat}
    (h : UpdateReturns events i g n) :
    ∃ c, ((empty : Hub ρ ν).after events n).cells[i]? = some c ∧ g ∈ c.awaited ∧
      c.isFlying g = false := by
  obtain ⟨he, c, c', hc, hc', hless⟩ := h
  rw [(empty : Hub ρ ν).after_succ he, step, join, getElem?_modifyCell, if_pos rfl, hc,
    Option.map_some] at hc'
  refine ⟨c, hc, ?_⟩
  split at hc'
  · obtain rfl : c = c' := Option.some.inj hc'
    exact absurd hless (Nat.lt_irrefl _)
  · next hfly =>
      obtain rfl := Option.some.inj hc'
      refine ⟨Classical.byContradiction fun hnot => ?_, Bool.eq_false_iff.2 hfly⟩
      rw [List.erase_of_not_mem hnot] at hless
      exact Nat.lt_irrefl _ hless

theorem UpdateReturns.spent {events : List (Event ρ ν)} {i g n : Nat} {c : Cell ρ ν}
    (h : UpdateReturns events i g n)
    (hc : ((empty : Hub ρ ν).after events n).cells[i]? = some c) :
    c.Spent g ∧ ∃ m, m < n ∧ UpdateCalled events i g m := by
  obtain ⟨c', hc', hwaits, hfly⟩ := h.exists_cell
  obtain rfl : c' = c := Option.some.inj (hc'.symm.trans hc)
  obtain ⟨m, hm, hcalled⟩ := exists_called_of_waits ⟨c', hc', hwaits⟩
  refine ⟨⟨hcalled.generation_le hm hc, fun f hf hg => ?_⟩, m, hm, hcalled⟩
  rw [Cell.isFlying_iff.2 ⟨f, hf, hg⟩] at hfly
  cases hfly

/-- The newest fetch is not given up, so it has ended if it is not on its way any more. -/
theorem UpdateCalled.exists_ends {events : List (Event ρ ν)} {i m n : Nat} {c : Cell ρ ν}
    (h : UpdateCalled events i c.generation m)
    (hc : ((empty : Hub ρ ν).after events n).cells[i]? = some c)
    (hground : ¬ c.isFlying c.generation = true) :
    ∃ landing k, k < n ∧ Ends events i c.generation landing k := by
  have hpos : c.generation ≠ 0 := by
    obtain ⟨request, b, -, -, -, hg⟩ := h
    omega
  exact endedBefore_iff.1 (((newest_flies_or_ended hc).resolve_left hpos).resolve_left hground)

theorem settled_of_returns {events : List (Event ρ ν)} {i g n : Nat} {c : Cell ρ ν}
    (h : UpdateReturns events i g n)
    (hc : ((empty : Hub ρ ν).after events n).cells[i]? = some c) : Settled events i g n c := by
  obtain ⟨hspent, m, hm, hcalled⟩ := h.spent hc
  have hnever := spent_forever hc hspent
  have hground : ¬ c.isFlying g = true := fun hfly => (hnever n (Nat.le_refl n)).1 ⟨c, hc, hfly⟩
  -- Its fetch was on its way right after the call and is not now, so it is over.
  obtain ⟨d, hd, -, hflies⟩ := hcalled.cell_succ
  refine ⟨⟨m, hm, hcalled, fun m' hm' => hm'.unique hcalled⟩, ?_, hnever, ?_⟩
  · exact (flies_or_over hm ⟨d, hd, hflies⟩).resolve_left fun ⟨c', hc', hfly⟩ =>
      hground (Option.some.inj (hc'.symm.trans hc) ▸ hfly)
  · -- Either a newer fetch was counted, or this one is the newest.
    rcases Nat.lt_or_eq_of_le hspent.1 with hlt | rfl
    · refine .inr (.inr (.inr ⟨c.generation, hlt, ?_⟩))
      exact (issuedBefore_generation hc).resolve_left (Nat.ne_of_gt (Nat.zero_lt_of_lt hlt))
    · obtain ⟨landing, k, hk, hends⟩ := hcalled.exists_ends hc hground
      cases landing with
      | value v => exact .inl ⟨v, k, hk, hends, value_of_ends hc hk hends⟩
      | nothing => exact .inr (.inl ⟨k, hk, hends⟩)
      | crash => exact .inr (.inr (.inl ⟨k, hk, hends⟩))

/-- Between two points at which nothing issues a fetch the count of fetches stays. -/
theorem generation_eq_of_not_issues {events : List (Event ρ ν)} {i m n : Nat} {c : Cell ρ ν}
    (hmn : m ≤ n) (hc : ((empty : Hub ρ ν).after events m).cells[i]? = some c)
    (hnone : ∀ k, m ≤ k → k < n →
      ¬ Issues ((empty : Hub ρ ν).after events k) ((empty : Hub ρ ν).after events (k + 1)) i) :
    ∃ c', ((empty : Hub ρ ν).after events n).cells[i]? = some c' ∧ c'.generation = c.generation := by
  induction hmn with
  | refl => exact ⟨c, hc, rfl⟩
  | @step n hmn ih =>
      obtain ⟨d, hd, hgen⟩ := ih fun k hmk hkn => hnone k hmk (Nat.lt_succ_of_lt hkn)
      obtain ⟨d', hd', hle⟩ := exists_cell_of_le (Nat.le_succ n) hd
      refine ⟨d', hd', ?_⟩
      have hnot : ¬ d.generation < d'.generation := fun hlt =>
        hnone n hmn (Nat.lt_succ_self n) ⟨d, d', hd, hd', hlt⟩
      omega

/-- Of some calls of `update` before a point one is the last. -/
theorem exists_last_called {events : List (Event ρ ν)} {i m n : Nat}
    (h : ∃ k g, m ≤ k ∧ k < n ∧ UpdateCalled events i g k) :
    ∃ k g, m ≤ k ∧ k < n ∧ UpdateCalled events i g k ∧
      ∀ l, k < l → l < n → ∀ g', ¬ UpdateCalled events i g' l := by
  classical
  obtain ⟨k, g, hmk, hkn, hcalled⟩ := h
  let P : Nat → Prop := fun k => m ≤ k ∧ k < n ∧ ∃ g, UpdateCalled events i g k
  obtain ⟨hm, hn, g', hlast⟩ : P (Nat.findGreatest P n) :=
    Nat.findGreatest_spec (Nat.le_of_lt hkn) ⟨hmk, hkn, g, hcalled⟩
  refine ⟨_, g', hm, hn, hlast, fun l hkl hln g'' hl => ?_⟩
  exact Nat.findGreatest_is_greatest hkl (Nat.le_of_lt hln)
    ⟨Nat.le_trans hm (Nat.le_of_lt hkl), hln, g'', hl⟩

/-- When all calls have returned, the newest fetch has ended, and what it brought is there. -/
theorem newest_of_allReturned {events : List (Event ρ ν)} {i m n : Nat}
    (h : AllReturned events i m n) :
    ∃ c landing k, ((empty : Hub ρ ν).after events n).cells[i]? = some c ∧ k < n ∧
      Ends events i c.generation landing k ∧ ∀ v, landing = .value v → c.value = some v := by
  obtain ⟨k, g, hmk, hkn, hcalled, hlast⟩ := exists_last_called h.called
  -- The fetch of the last call is the newest one, since nothing issues another one.
  obtain ⟨d, hd, hdg, -⟩ := hcalled.cell_succ
  obtain ⟨c, hc, hcg⟩ := generation_eq_of_not_issues (n := n) hkn hd fun l hkl hln hissues => by
    obtain ⟨g', hl⟩ := h.only l (by omega) hln hissues
    exact hlast l hkl hln g' hl
  obtain rfl : c.generation = g := hcg.trans hdg
  -- Its call has returned, so it is not on its way.
  obtain ⟨k', hk', hreturns⟩ := h.returned k c.generation hmk hkn hcalled
  obtain ⟨b, hb, -⟩ := hreturns.exists_cell
  have hground := (spent_forever hb (hreturns.spent hb).1 n (Nat.le_of_lt hk')).1
  obtain ⟨landing, l, hl, hends⟩ := hcalled.exists_ends hc fun hfly => hground ⟨c, hc, hfly⟩
  refine ⟨c, landing, l, hc, hl, hends, ?_⟩
  rintro v rfl
  exact value_of_ends hc hl hends

/-- When a call of `update` returns, its fetch has ended or was given up, is never on its way again and
never stores anything later; and the cell has what it brought, unless it brought nothing, broke off or
was overtaken.  When some calls have all returned and nothing else issued a fetch meanwhile, the newest
fetch has ended, and the cell has what it brought, if anything. -/
theorem updates_settle (events : List (Event ρ ν)) (i : Nat) :
    (∀ g n c, UpdateReturns events i g n →
      ((empty : Hub ρ ν).after events n).cells[i]? = some c → Settled events i g n c) ∧
    ∀ m n, AllReturned events i m n →
      ∃ c landing k, ((empty : Hub ρ ν).after events n).cells[i]? = some c ∧ k < n ∧
        Ends events i c.generation landing k ∧ ∀ v, landing = .value v → c.value = some v :=
  ⟨fun _ _ _ h hc => settled_of_returns h hc, fun _ _ h => newest_of_allReturned h⟩

/-- Two updates of an aborting cell, of which the first has its fetch given up and returns first. -/
def updatedTwice : List (Event Unit Nat) :=
  [.create .user true, .update 0 (), .update 0 (), .join 0 1, .land 0 2 (.value 7), .join 0 2]

theorem updateCalled_updatedTwice {g k : Nat} (h : UpdateCalled updatedTwice 0 g k) :
    k = 1 ∧ g = 1 ∨ k = 2 ∧ g = 2 := by
  obtain ⟨request, c, he, hc, -, rfl⟩ := h
  have hk : k < 6 := (List.getElem?_eq_some_iff.1 he).1
  match k, hk with
  | 1, _ =>
      cases hc
      exact .inl ⟨rfl, rfl⟩
  | 2, _ =>
      cases hc
      exact .inr ⟨rfl, rfl⟩
  | 0, _ | 3, _ | 4, _ | 5, _ => cases he

theorem allReturned_updatedTwice : AllReturned updatedTwice 0 0 6 := by
  refine ⟨⟨1, 1, Nat.zero_le 1, by decide, (), _, rfl, rfl, rfl, rfl⟩, ?_, ?_⟩
  · intro k _ hk hissues
    have he : updatedTwice[k]? = some updatedTwice[k] := List.getElem?_eq_getElem hk
    -- Only the two updates ask the cell to fetch something.
    have hupdate : updatedTwice[k] = .update 0 () := by
      have hissued := hissues
      rw [(empty : Hub Unit Nat).after_succ he] at hissued
      obtain ⟨_, hsends⟩ := hissued.sends
      have hmem := List.mem_of_getElem? he
      generalize updatedTwice[k] = e at hsends hmem
      cases hsends with
      | update => rfl
      | observe | call => simp [updatedTwice] at hmem
    rw [hupdate] at he
    exact exists_updateCalled he hissues
  · intro k g _ _ hcalled
    rcases updateCalled_updatedTwice hcalled with ⟨-, rfl⟩ | ⟨-, rfl⟩
    · exact ⟨3, by decide, rfl, _, _, rfl, rfl, by decide⟩
    · exact ⟨5, by decide, rfl, _, _, rfl, rfl, by decide⟩

theorem updates_settle_updatedTwice :
    (∃ c, UpdateReturns updatedTwice 0 1 3 ∧ Settled updatedTwice 0 1 3 c ∧ c.value = none) ∧
      ∃ c landing k, ((empty : Hub Unit Nat).after updatedTwice 6).cells[0]? = some c ∧ k < 6 ∧
        Ends updatedTwice 0 c.generation landing k ∧ ∀ v, landing = .value v → c.value = some v := by
  have hreturns : UpdateReturns updatedTwice 0 1 3 := ⟨rfl, _, _, rfl, rfl, by decide⟩
  exact ⟨⟨_, hreturns, (updates_settle updatedTwice 0).1 1 3 _ hreturns rfl, rfl⟩,
    (updates_settle updatedTwice 0).2 0 6 allReturned_updatedTwice⟩

end Hub

end LiveFeed
