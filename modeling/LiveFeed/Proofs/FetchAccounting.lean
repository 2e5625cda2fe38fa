import Mathlib.Data.Set.Card
import LiveFeed.Proofs.FanOutCalls
import LiveFeed.Proofs.ReturnedUpdates

/-!
# Where the fetches of a cell come from

A cell issues a fetch for its first observer, for a call of `update`, and for a fan-out that calls it
while something holds it.  So its fetches are counted by what they were issued for.

* `Hub.Cause`, `Hub.issues_iff_cause`: the three reasons, one step at a time;
* `Hub.Awakens`, `Hub.ReachesHeld`, `Hub.issues_iff_reason`: the reasons in a run;
* `Hub.generation_eq_ncard`, `Hub.ncard_reachesHeld`: what is counted;
* `Hub.Accounted`, `Hub.fetches_accounted`: the account, and what is no reason.
-/

namespace LiveFeed

variable {ρ ν : Type}

namespace Hub

/-! ## The reasons for a fetch -/

/-- A reason why an event makes cell `i` issue a fetch. -/
inductive Cause (h : Hub ρ ν) (i : Nat) : Event ρ ν → Prop where
  | first {request : ρ} {c : Cell ρ ν} (cell : h.cells[i]? = some c) (owned : c.owned = true)
      (unobserved : c.observers = 0) : Cause h i (.observe i request)
  | update {request : ρ} {c : Cell ρ ν} (cell : h.cells[i]? = some c) (owned : c.owned = true) :
      Cause h i (.update i request)
  | call {request : ρ} {c : Cell ρ ν} (cell : h.cells[i]? = some c) (alive : c.isAlive = true)
      {r : Registration Callee} {pending : List (Registration Callee)} {ran : Nat}
      {outer : List FanOut} (fanOuts : h.fanOuts = ⟨r :: pending, false, ran⟩ :: outer)
      (callback : r.callback = .cell i) : Cause h i (.call request)

/-- A cell issues nothing if it is left as it was, or what is done to it issues nothing. -/
theorem not_issues_of_modify {h h' : Hub ρ ν} {i j : Nat} {f : Cell ρ ν → Cell ρ ν}
    (hcells : h'.cells = h.cells.modify j f)
    (hf : ∀ c, h.cells[i]? = some c → j = i → (f c).generation = c.generation) :
    ¬ Issues h h' i := by
  rintro ⟨c, c', hc, hc', hlt⟩
  obtain rfl : (if j = i then f c else c) = c' := by
    simpa [hcells, List.getElem?_modify, hc] using hc'
  split at hlt
  · next hj => exact Nat.ne_of_gt hlt (hf c hc hj)
  · exact Nat.lt_irrefl _ hlt

theorem not_issues_of_same {h h' : Hub ρ ν} {i : Nat} (hcells : h'.cells = h.cells) :
    ¬ Issues h h' i := by
  rintro ⟨c, c', hc, hc', hlt⟩
  rw [hcells, hc] at hc'
  obtain rfl := Option.some.inj hc'
  exact Nat.lt_irrefl _ hlt

/-- The innermost fan-out calls a cell. -/
theorem call_cell {h : Hub ρ ν} {i : Nat} {r : Registration Callee}
    {pending : List (Registration Callee)} {ran : Nat} {outer : List FanOut}
    (hf : h.fanOuts = ⟨r :: pending, false, ran⟩ :: outer) (hr : r.callback = .cell i)
    (request : ρ) : h.call request =
      { h.modifyCell i (fun c => if c.isAlive then c.issue request else c) with
        fanOuts := ⟨pending, false, ran + 1⟩ :: outer } := by
  simp [call, hf, hr]

theorem Cause.of_issues {h : Hub ρ ν} {i : Nat} {e : Event ρ ν} (hissues : Issues h (h.step e) i) :
    Cause h i e := by
  obtain ⟨request, hsends⟩ := hissues.sends
  obtain ⟨c, -, hc, -⟩ := id hissues
  cases hsends with
  | observe =>
      cases ho : c.owned with
      | false =>
          have hsame : h.observe i request = h := by simp [Hub.observe, hc, ho]
          exact absurd hissues (not_issues_of_same (congrArg Hub.cells hsame))
      | true =>
          rcases observe_of_owned hc ho request with ⟨h0, -⟩ | ⟨-, heq⟩
          · exact .first hc ho h0
          · -- A further observer is counted, and that is all.
            exact absurd hissues (not_issues_of_modify (congrArg Hub.cells heq) fun _ _ _ => rfl)
  | update =>
      refine .update hc (Classical.byContradiction fun ho => ?_)
      refine not_issues_of_modify rfl (fun d hd _ => ?_) hissues
      obtain rfl : c = d := Option.some.inj (hc.symm.trans hd)
      rw [if_neg ho]
  | call next =>
      rcases call_cases h request with heq | ⟨r, pending, ran, outer, hf, ⟨j, hr, heq⟩ | ⟨_, hr, heq⟩⟩
      · exact absurd hissues (not_issues_of_same (congrArg Hub.cells heq))
      · have hj : r.callback = .cell i := by
          rw [next?, hf] at next
          exact Option.some.inj next
        refine .call hc (Classical.byContradiction fun halive => ?_) hf hj
        -- A cell that nothing holds is called in vain.
        refine not_issues_of_modify (congrArg Hub.cells heq) (fun d hd _ => ?_) hissues
        obtain rfl : c = d := Option.some.inj (hc.symm.trans hd)
        rw [if_neg halive]
      · exact absurd hissues (not_issues_of_same (congrArg Hub.cells heq :))

/-- The first observer wakes the cell. -/
theorem getElem?_observe {h : Hub ρ ν} {i : Nat} {c : Cell ρ ν} (hc : h.cells[i]? = some c)
    (ho : c.owned = true) (h0 : c.observers = 0) (request : ρ) :
    (h.observe i request).cells[i]? = some (c.wake h.registry.nextId request) := by
  rcases observe_of_owned hc ho request with ⟨-, heq⟩ | ⟨hne, -⟩
  · rw [heq]
    exact (getElem?_modifyCell h i i _).trans (by rw [if_pos rfl, hc]; rfl)
  · exact absurd h0 hne

theorem Cause.issues {h : Hub ρ ν} {i : Nat} {e : Event ρ ν} (hcause : Cause h i e) :
    Issues h (h.step e) i := by
  cases hcause with
  | @first request c hc ho h0 =>
      refine ⟨c, c.wake h.registry.nextId request, hc, getElem?_observe hc ho h0 request, ?_⟩
      rw [(c.alike_wake _ request).generation, Cell.generation_issue]
      exact Nat.lt_succ_self _
  | @update request c hc ho =>
      refine ⟨c, { c.issue request with awaited := c.awaited ++ [c.generation + 1] }, hc, ?_,
        Nat.lt_succ_self _⟩
      rw [step, Hub.update, getElem?_modifyCell, if_pos rfl, hc, Option.map_some, if_pos ho]
  | @call request c hc halive r pending ran outer hf hr =>
      refine ⟨c, c.issue request, hc, ?_, Nat.lt_succ_self _⟩
      rw [step, call_cell hf hr]
      refine (getElem?_modifyCell h i i _).trans ?_
      rw [if_pos rfl, hc, Option.map_some, if_pos halive]

theorem issues_iff_cause {h : Hub ρ ν} {i : Nat} {e : Event ρ ν} :
    Issues h (h.step e) i ↔ Cause h i e :=
  ⟨.of_issues, Cause.issues⟩

theorem observers_of_modifyCell {h : Hub ρ ν} {i j : Nat} {f : Cell ρ ν → Cell ρ ν}
    {c c' : Cell ρ ν} (hf : ∀ c, (f c).observers = c.observers) (hc : h.cells[i]? = some c)
    (hc' : (h.modifyCell j f).cells[i]? = some c') : c'.observers = c.observers := by
  rw [getElem?_modifyCell, hc] at hc'
  split at hc'
  · obtain rfl := Option.some.inj hc'
    exact hf c
  · obtain rfl := Option.some.inj hc'
    rfl

/-- Only an observation that is a reason for a fetch brings a cell its first observer. -/
theorem exists_observe_of_awakened {h : Hub ρ ν} {i : Nat} {e : Event ρ ν} {c c' : Cell ρ ν}
    (hc : h.cells[i]? = some c) (hc' : (h.step e).cells[i]? = some c') (h0 : c.observers = 0)
    (h1 : c'.observers ≠ 0) : Cause h i e ∧ ∃ request, e = .observe i request := by
  obtain ⟨d, hd, hfate⟩ := exists_fate hc e
  obtain rfl : d = c' := Option.some.inj (hd.symm.trans hc')
  cases hfate with
  | keep _ _ unobserved => exact absurd (unobserved h0) h1
  | land generation landing _ =>
      rw [(c.holders_land generation landing).2.1] at h1
      exact absurd h0 h1
  | issue sends alike _ =>
      have hcause : Cause h i e := by
        refine .of_issues ⟨c, d, hc, hc', ?_⟩
        rw [alike.generation, Cell.generation_issue]
        exact Nat.lt_succ_self _
      refine ⟨hcause, ?_⟩
      -- The other reasons are nothing to the count of observers.
      cases hcause with
      | @first request => exact ⟨request, rfl⟩
      | @update request =>
          refine absurd (observers_of_modifyCell (fun c => ?_) hc hc') (by rwa [h0])
          split
          · exact c.observers_issue request
          · rfl
      | @call request _ _ _ r pending ran outer hf hr =>
          rw [step, call_cell hf hr] at hc'
          refine absurd (observers_of_modifyCell (fun c => ?_) hc hc') (by rwa [h0])
          split
          · exact c.observers_issue request
          · rfl

/-! ## The account of a run -/

/-- Event `n` of a run brings cell `i` its first observer. -/
def Awakens (events : List (Event ρ ν)) (i n : Nat) : Prop :=
  ∃ c c', ((empty : Hub ρ ν).after events n).cells[i]? = some c ∧
    ((empty : Hub ρ ν).after events (n + 1)).cells[i]? = some c' ∧ c.observers = 0 ∧ c'.observers = 1

/-- Event `n` of a run calls cell `i`, which something still holds, on behalf of the fan-out that event
`m` begins and whose snapshot contains a registration of the cell. -/
def ReachesHeld (events : List (Event ρ ν)) (i m n : Nat) : Prop :=
  ∃ r c, Invokes events r m n ∧ r.callback = .cell i ∧
    ((empty : Hub ρ ν).after events n).cells[i]? = some c ∧ c.isAlive = true

theorem Awakens.event {events : List (Event ρ ν)} {i n : Nat} (h : Awakens events i n) :
    ∃ request, events[n]? = some (.observe i request) ∧
      Cause ((empty : Hub ρ ν).after events n) i (.observe i request) := by
  obtain ⟨c, c', hc, hc', h0, h1⟩ := h
  rcases (empty : Hub ρ ν).after_succ_cases events n with ⟨e, he, hstep⟩ | ⟨-, hsame⟩
  · rw [hstep] at hc'
    obtain ⟨hcause, request, rfl⟩ := exists_observe_of_awakened hc hc' h0 (by omega)
    exact ⟨request, he, hcause⟩
  · rw [hsame, hc] at hc'
    obtain rfl := Option.some.inj hc'
    omega

theorem ReachesHeld.event {events : List (Event ρ ν)} {i m n : Nat} (h : ReachesHeld events i m n) :
    ∃ request, events[n]? = some (.call request) ∧
      Cause ((empty : Hub ρ ν).after events n) i (.call request) := by
  obtain ⟨r, c, ⟨-, e, he, hcalled⟩, hr, hc, halive⟩ := h
  obtain ⟨request, pending, ran, outer, rfl, hf, -⟩ := called?_eq_some.1 hcalled
  exact ⟨request, he, .call hc halive hf hr⟩

theorem Cause.reason {events : List (Event ρ ν)} {i n : Nat} {e : Event ρ ν}
    (he : events[n]? = some e) (hcause : Cause ((empty : Hub ρ ν).after events n) i e) :
    Awakens events i n ∨ (∃ g, UpdateCalled events i g n) ∨ ∃ m, ReachesHeld events i m n := by
  cases hcause with
  | @first request c hc ho h0 =>
      refine .inl ⟨c, c.wake ((empty : Hub ρ ν).after events n).registry.nextId request, hc, ?_, h0,
        by simp [Cell.wake, h0]⟩
      rw [(empty : Hub ρ ν).after_succ he]
      exact getElem?_observe hc ho h0 request
  | @update request c hc ho => exact .inr (.inl ⟨_, request, c, he, hc, ho, rfl⟩)
  | @call request c hc halive r pending ran outer hf hr =>
      obtain ⟨m, hm⟩ := exists_invokes he hf
      exact .inr (.inr ⟨m, r, c, hm, hr, hc, halive⟩)

theorem issues_iff_reason {events : List (Event ρ ν)} {i n : Nat} :
    Issues ((empty : Hub ρ ν).after events n) ((empty : Hub ρ ν).after events (n + 1)) i ↔
      Awakens events i n ∨ (∃ g, UpdateCalled events i g n) ∨ ∃ m, ReachesHeld events i m n := by
  constructor
  · intro hissues
    rcases (empty : Hub ρ ν).after_succ_cases events n with ⟨e, he, hstep⟩ | ⟨-, hsame⟩
    · exact Cause.reason he (issues_iff_cause.1 (hstep ▸ hissues))
    · exact absurd hissues (not_issues_of_same (congrArg Hub.cells hsame))
  · have hissues : ∀ {e : Event ρ ν}, events[n]? = some e →
        Cause ((empty : Hub ρ ν).after events n) i e →
        Issues ((empty : Hub ρ ν).after events n) ((empty : Hub ρ ν).after events (n + 1)) i :=
      fun he hcause => (empty : Hub ρ ν).after_succ he ▸ hcause.issues
    rintro (hawakens | ⟨g, request, c, he, hc, ho, -⟩ | ⟨m, hreaches⟩)
    · obtain ⟨request, he, hcause⟩ := hawakens.event
      exact hissues he hcause
    · exact hissues he (.update hc ho)
    · obtain ⟨request, he, hcause⟩ := hreaches.event
      exact hissues he hcause

/-- An event makes a cell issue a fetch if the cell counts one more. -/
theorem exists_fetches_iff {events : List (Event ρ ν)} {i n : Nat} :
    (∃ f, Fetches events i f n) ↔
      Issues ((empty : Hub ρ ν).after events n) ((empty : Hub ρ ν).after events (n + 1)) i := by
  constructor
  · rintro ⟨f, c', hc', hf, hgen, hnew⟩
    cases hc : ((empty : Hub ρ ν).after events n).cells[i]? with
    | some c => exact ⟨c, c', hc, hc', hgen ▸ hnew c hc⟩
    | none =>
        rcases (empty : Hub ρ ν).after_succ_cases events n with ⟨e, -, hstep⟩ | ⟨-, hsame⟩
        · -- A new cell has no fetch on its way.
          rw [hstep] at hc'
          obtain ⟨topic, aborting, rfl⟩ := eq_create_of_step hc hc'
          cases hf
        · rw [hsame, hc] at hc'
          cases hc'
  · rintro ⟨c, c', hc, hc', hlt⟩
    rcases (empty : Hub ρ ν).after_succ_cases events n with ⟨e, -, hstep⟩ | ⟨-, hsame⟩
    · obtain ⟨d, hd, hchange⟩ := exists_change hc e
      rw [← hstep] at hd
      obtain rfl : d = c' := Option.some.inj (hd.symm.trans hc')
      cases hchange with
      | keep alike _ => exact absurd alike.generation (Nat.ne_of_gt hlt)
      | issue request alike =>
          refine ⟨⟨c.generation + 1, request⟩, d, hc', ?_, ?_, fun b hb => ?_⟩
          · rw [alike.flights]
            exact (Cell.mem_flights_issue c request _).2 (.inl rfl)
          · rw [alike.generation, Cell.generation_issue]
          · obtain rfl : b = c := Option.some.inj (hb.symm.trans hc)
            exact Nat.lt_succ_self _
      | land generation landing _ => exact absurd (c.generation_land _ _) (Nat.ne_of_gt hlt)
    · rw [hsame, hc] at hc'
      obtain rfl := Option.some.inj hc'
      exact absurd hlt (Nat.lt_irrefl _)

/-! ## The count -/

theorem finite_before (N : Nat) (p : Nat → Prop) : {n | n < N ∧ p n}.Finite :=
  (Set.finite_lt_nat N).subset fun _ hn => hn.1

theorem ncard_before_succ {p : Nat → Prop} {N : Nat} (h : p N) :
    {n | n < N + 1 ∧ p n}.ncard = {n | n < N ∧ p n}.ncard + 1 := by
  have hinsert : {n | n < N + 1 ∧ p n} = insert N {n | n < N ∧ p n} := by
    ext n
    simp only [Set.mem_ofPred_eq, Set.mem_insert_iff, Nat.lt_succ_iff_lt_or_eq]
    constructor
    · rintro ⟨hlt | rfl, hp⟩
      · exact .inr ⟨hlt, hp⟩
      · exact .inl rfl
    · rintro (rfl | ⟨hlt, hp⟩)
      · exact ⟨.inr rfl, h⟩
      · exact ⟨.inl hlt, hp⟩
  rw [hinsert, Set.ncard_insert_of_notMem (fun hmem => Nat.lt_irrefl N hmem.1) (finite_before N p)]

theorem ncard_before_same {p : Nat → Prop} {N : Nat} (h : ¬ p N) :
    {n | n < N + 1 ∧ p n}.ncard = {n | n < N ∧ p n}.ncard := by
  congr 1
  ext n
  refine ⟨fun ⟨hlt, hp⟩ => ⟨?_, hp⟩, fun ⟨hlt, hp⟩ => ⟨Nat.lt_succ_of_lt hlt, hp⟩⟩
  exact Nat.lt_of_le_of_ne (Nat.le_of_lt_succ hlt) (by rintro rfl; exact h hp)

/-- The count that a cell keeps is the number of events that made it issue a fetch. -/
theorem generation_eq_ncard {events : List (Event ρ ν)} {i N : Nat} {c : Cell ρ ν}
    (hc : ((empty : Hub ρ ν).after events N).cells[i]? = some c) :
    c.generation = {n | n < N ∧ ∃ f, Fetches events i f n}.ncard := by
  have hnone : ∀ {n : Nat} {c c' : Cell ρ ν},
      ((empty : Hub ρ ν).after events n).cells[i]? = some c →
      ((empty : Hub ρ ν).after events (n + 1)).cells[i]? = some c' → c'.generation = c.generation →
      ¬ ∃ f, Fetches events i f n := by
    intro n c c' hc hc' hgen hfetches
    obtain ⟨d, d', hd, hd', hlt⟩ := exists_fetches_iff.1 hfetches
    obtain rfl := Option.some.inj (hd.symm.trans hc)
    obtain rfl := Option.some.inj (hd'.symm.trans hc')
    omega
  -- The induction is on the events since the cell was made, each of which adds one to both or to
  -- neither.
  refine cell_induction
    (motive := fun N c => c.generation = {n | n < N ∧ ∃ f, Fetches events i f n}.ncard) ?_ ?_ ?_ hc
  · intro N topic aborting hfresh
    have hempty : {n | n < N + 1 ∧ ∃ f, Fetches events i f n} = ∅ := by
      refine Set.eq_empty_iff_forall_notMem.2 fun n ⟨hn, hfetches⟩ => ?_
      obtain ⟨d, -, hd, -⟩ := exists_fetches_iff.1 hfetches
      obtain ⟨d', hd', -⟩ := exists_cell_of_le (Nat.le_of_lt_succ hn) hd
      rw [hfresh] at hd'
      cases hd'
    rw [hempty, Set.ncard_empty]
    rfl
  · intro N e c c' he hc hc' hchange hold
    cases hchange with
    | keep alike _ => rw [alike.generation, hold, ncard_before_same (hnone hc hc' alike.generation)]
    | issue request alike =>
        have hgen : c'.generation = c.generation + 1 := alike.generation
        have hfetches : ∃ f, Fetches events i f N :=
          exists_fetches_iff.2 ⟨c, c', hc, hc', hgen ▸ Nat.lt_succ_self _⟩
        rw [hgen, hold, ncard_before_succ hfetches]
    | land generation landing _ =>
        have hgen := c.generation_land generation landing
        rw [hgen, hold, ncard_before_same (hnone hc hc' hgen)]
  · intro N c he hold
    refine hold.trans (ncard_before_same fun hfetches => ?_).symm
    rcases (empty : Hub ρ ν).after_succ_cases events N with ⟨e, he', -⟩ | ⟨-, hsame⟩
    · rw [he] at he'
      cases he'
    · exact not_issues_of_same (congrArg Hub.cells hsame) (exists_fetches_iff.1 hfetches)

theorem ReachesHeld.unique {events : List (Event ρ ν)} {i m n n' : Nat}
    (h : ReachesHeld events i m n) (h' : ReachesHeld events i m n') : n = n' := by
  obtain ⟨r, -, hinvokes, hr, -⟩ := h
  obtain ⟨r', -, hinvokes', hr', -⟩ := h'
  exact hinvokes.unique hinvokes' hr hr'

theorem ReachesHeld.begins_unique {events : List (Event ρ ν)} {i m m' n : Nat}
    (h : ReachesHeld events i m n) (h' : ReachesHeld events i m' n) : m = m' := by
  obtain ⟨r, -, hinvokes, -⟩ := h
  obtain ⟨r', -, hinvokes', -⟩ := h'
  exact hinvokes.begins_unique hinvokes'

/-- There are as many calls of a cell as there are fan-outs that call it. -/
theorem ncard_reachesHeld (events : List (Event ρ ν)) (i N : Nat) :
    {n | n < N ∧ ∃ m, ReachesHeld events i m n}.ncard =
      {m | ∃ n, n < N ∧ ReachesHeld events i m n}.ncard := by
  -- Each call goes to the fan-out that it belongs to.
  refine Set.ncard_congr (fun n hn => hn.2.choose) ?_ ?_ ?_
  · intro n hn
    exact ⟨n, hn.1, hn.2.choose_spec⟩
  · intro n n' hn hn' heq
    have hreaches : ReachesHeld events i hn.2.choose n' := by
      rw [heq]
      exact hn'.2.choose_spec
    exact hn.2.choose_spec.unique hreaches
  · rintro m ⟨n, hn, hreaches⟩
    have hsome : ∃ m, ReachesHeld events i m n := ⟨m, hreaches⟩
    exact ⟨n, ⟨hn, hsome⟩, hsome.choose_spec.begins_unique hreaches⟩

/-- Each event that makes cell `i` issue a fetch does so for one reason. -/
theorem ncard_fetches (events : List (Event ρ ν)) (i N : Nat) :
    {n | n < N ∧ ∃ f, Fetches events i f n}.ncard =
      {n | n < N ∧ Awakens events i n}.ncard +
        {n | n < N ∧ ∃ g, UpdateCalled events i g n}.ncard +
        {n | n < N ∧ ∃ m, ReachesHeld events i m n}.ncard := by
  have hunion : {n | n < N ∧ ∃ f, Fetches events i f n} =
      ({n | n < N ∧ Awakens events i n} ∪ {n | n < N ∧ ∃ g, UpdateCalled events i g n}) ∪
        {n | n < N ∧ ∃ m, ReachesHeld events i m n} := by
    ext n
    simp only [Set.mem_ofPred_eq, Set.mem_union, exists_fetches_iff, issues_iff_reason, ← and_or_left,
      or_assoc]
  -- The reasons are events of different kinds.
  have hfirst : Disjoint {n | n < N ∧ Awakens events i n}
      {n | n < N ∧ ∃ g, UpdateCalled events i g n} := by
    refine Set.disjoint_left.2 fun n ⟨_, hawakens⟩ ⟨_, g, request, c, he, _⟩ => ?_
    obtain ⟨request', he', -⟩ := hawakens.event
    rw [he] at he'
    cases he'
  have hsecond : Disjoint
      ({n | n < N ∧ Awakens events i n} ∪ {n | n < N ∧ ∃ g, UpdateCalled events i g n})
      {n | n < N ∧ ∃ m, ReachesHeld events i m n} := by
    refine Set.disjoint_left.2 fun n hn ⟨_, m, hreaches⟩ => ?_
    obtain ⟨request', he', -⟩ := hreaches.event
    rcases hn with ⟨-, hawakens⟩ | ⟨-, g, request, c, he, -⟩
    · obtain ⟨request, he, -⟩ := hawakens.event
      rw [he] at he'
      cases he'
    · rw [he] at he'
      cases he'
  have hfinite := finite_before N
  rw [hunion, Set.ncard_union_eq hsecond ((hfinite _).union (hfinite _)) (hfinite _),
    Set.ncard_union_eq hfirst (hfinite _) (hfinite _)]

/-- The fetches of cell `i` in a run are accounted for. -/
structure Accounted (events : List (Event ρ ν)) (i : Nat) : Prop where
  /-- Up to any point there are as many fetches as there are events that bring the cell its first
  observer, calls of `update`, and fan-outs over a registration of the cell that have called it while
  something held it. -/
  count : ∀ N, {n | n < N ∧ ∃ f, Fetches events i f n}.ncard =
    {n | n < N ∧ Awakens events i n}.ncard +
      {n | n < N ∧ ∃ g, UpdateCalled events i g n}.ncard +
      {m | ∃ n, n < N ∧ ReachesHeld events i m n}.ncard
  /-- The cell has counted them, so that none of these events issued more than one. -/
  counted : ∀ N c, ((empty : Hub ρ ν).after events N).cells[i]? = some c →
    c.generation = {n | n < N ∧ ∃ f, Fetches events i f n}.ncard
  reason : ∀ n, (∃ f, Fetches events i f n) ↔
    Awakens events i n ∨ (∃ g, UpdateCalled events i g n) ∨ ∃ m, ReachesHeld events i m n
  /-- A further observer is no reason. -/
  observe : ∀ n request c, events[n]? = some (.observe i request) →
    ((empty : Hub ρ ν).after events n).cells[i]? = some c → c.observers ≠ 0 →
    ¬ ∃ f, Fetches events i f n
  /-- Neither is the end of an observation, -/
  unobserve : ∀ n id, events[n]? = some (.unobserve id) → ¬ ∃ f, Fetches events i f n
  /-- nor that of a fetch. -/
  land : ∀ n j g landing, events[n]? = some (.land j g landing) → ¬ ∃ f, Fetches events i f n
  /-- A fan-out that calls the cell was begun over its topic, or over all of them, while somebody
  observed it. -/
  fanOut : ∀ m n, ReachesHeld events i m n →
    ∃ c, ((empty : Hub ρ ν).after events m).cells[i]? = some c ∧ 0 < c.observers ∧
      (events[m]? = some (.notify c.topic) ∨ events[m]? = some .notifyAll)

/-- In every run the fetches of every cell are those for its first observers, for calls of `update` and
for the fan-outs that call it while something holds it, one for each; and nothing else makes it issue
one. -/
theorem fetches_accounted (events : List (Event ρ ν)) (i : Nat) : Accounted events i := by
  -- What is no reason is seen from the event.
  have hcause : ∀ {n : Nat} {e : Event ρ ν}, events[n]? = some e → (∃ f, Fetches events i f n) →
      Cause ((empty : Hub ρ ν).after events n) i e := by
    intro n e he hfetches
    rw [exists_fetches_iff, (empty : Hub ρ ν).after_succ he] at hfetches
    exact .of_issues hfetches
  refine ⟨fun N => ?_, fun N c hc => generation_eq_ncard hc, fun n => ?_, ?_, ?_, ?_, ?_⟩
  · rw [ncard_fetches, ncard_reachesHeld]
  · rw [exists_fetches_iff, issues_iff_reason]
  · intro n request c he hc hne hfetches
    cases hcause he hfetches with
    | first hd _ h0 => exact hne (Option.some.inj (hc.symm.trans hd) ▸ h0)
  · intro n id he hfetches
    cases hcause he hfetches
  · intro n j g landing he hfetches
    cases hcause he hfetches
  · rintro m n ⟨r, c, hinvokes, hr, -⟩
    exact hinvokes.observed hr

/-- The first callback of a fan-out drops the only observer of a cell that nothing else holds, and the
fan-out reaches the cell in vain. -/
example :
    ((empty : Hub Unit Nat).run [.register .user 0, .create .user false, .observe 0 (), .disown 0,
      .land 0 1 .nothing, .notify .user, .call (), .unobserve 0, .leave false, .call (),
      .finish]).cells.map (·.generation) = [1] := by
  decide

end Hub

end LiveFeed
