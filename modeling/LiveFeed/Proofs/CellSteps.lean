import LiveFeed.Proofs.Points

/-!
# What a step of the hub does to a cell

Whatever happens to a hub, a given cell is left alone in what concerns its fetches, or it issues one
fetch, or one of its fetches comes to its end.

* `Cell.Alike`: two cells with the same fetches and the same value;
* `Hub.Sends`, `Hub.Fate`, `Hub.exists_fate`: the three things a step can do to a cell, with what is
  asked for;
* `Hub.Change`, `Hub.exists_change`: the same, whatever is asked for.
-/

namespace LiveFeed

variable {ρ ν : Type}

namespace Cell

/-- Two cells that differ in nothing but who holds them. -/
structure Alike (c c' : Cell ρ ν) : Prop where
  topic : c'.topic = c.topic
  aborting : c'.aborting = c.aborting
  generation : c'.generation = c.generation
  flights : c'.flights = c.flights
  value : c'.value = c.value
  version : c'.version = c.version

theorem Alike.refl (c : Cell ρ ν) : Alike c c := ⟨rfl, rfl, rfl, rfl, rfl, rfl⟩

@[simp] theorem topic_issue (c : Cell ρ ν) (request : ρ) : (c.issue request).topic = c.topic := by
  unfold issue without
  split <;> rfl

@[simp] theorem generation_issue (c : Cell ρ ν) (request : ρ) :
    (c.issue request).generation = c.generation + 1 := rfl

@[simp] theorem version_issue (c : Cell ρ ν) (request : ρ) :
    (c.issue request).version = c.version := by
  unfold issue without
  split <;> rfl

@[simp] theorem observers_issue (c : Cell ρ ν) (request : ρ) :
    (c.issue request).observers = c.observers := by
  unfold issue without
  split <;> rfl

@[simp] theorem registration_issue (c : Cell ρ ν) (request : ρ) :
    (c.issue request).registration = c.registration := by
  unfold issue without
  split <;> rfl

theorem owned_issue (c : Cell ρ ν) (request : ρ) : (c.issue request).owned = c.owned := by
  unfold issue without
  split <;> rfl

/-- A new fetch is on its way, and beside it only fetches that were so before. -/
theorem mem_flights_issue (c : Cell ρ ν) (request : ρ) (f : Flight ρ) :
    f ∈ (c.issue request).flights ↔
      f = ⟨c.generation + 1, request⟩ ∨
        f ∈ c.flights ∧ (c.aborting = true → f.generation ≠ c.generation) := by
  unfold issue without
  by_cases h : c.aborting = true
  · simp [h, or_comm]
  · simp [h, or_comm]

theorem land_of_not_isFlying {c : Cell ρ ν} {generation : Nat} (h : c.isFlying generation = false)
    (landing : Landing ν) : c.land generation landing = c := by
  simp [land, h]

/-- Only the value of the newest fetch is kept. -/
theorem land_of_isFlying {c : Cell ρ ν} {generation : Nat} (h : c.isFlying generation = true)
    (landing : Landing ν) :
    c.land generation landing = c.without generation ∨
      ∃ v, landing = .value v ∧ generation = c.generation ∧
        c.land generation landing = (c.without generation).store v := by
  cases landing with
  | value v =>
      by_cases e : generation = c.generation
      · exact .inr ⟨v, rfl, e, by simp [land, h, e.symm]⟩
      · exact .inl (by simp [land, h, e])
  | nothing => exact .inl (by simp [land, h])
  | crash => exact .inl (by simp [land, h])

theorem land_newest {c : Cell ρ ν} (h : c.isFlying c.generation = true) (v : ν) :
    c.land c.generation (.value v) = (c.without c.generation).store v := by
  simp [land, h]

/-- The end of a fetch is nothing to those who hold the cell. -/
theorem holders_land (c : Cell ρ ν) (generation : Nat) (landing : Landing ν) :
    (c.land generation landing).topic = c.topic ∧
      (c.land generation landing).observers = c.observers ∧
      (c.land generation landing).registration = c.registration := by
  cases h : c.isFlying generation with
  | false => simp [land_of_not_isFlying h]
  | true =>
      rcases land_of_isFlying h landing with hl | ⟨v, -, -, hl⟩
      · simp [hl, without]
      · simp [hl, without, store]

theorem owned_land (c : Cell ρ ν) (generation : Nat) (landing : Landing ν) :
    (c.land generation landing).owned = c.owned := by
  cases h : c.isFlying generation with
  | false => rw [land_of_not_isFlying h]
  | true => rcases land_of_isFlying h landing with hl | ⟨v, -, -, hl⟩ <;> rw [hl] <;> rfl

/-- A fetch that ends is not on its way any more; the others still are. -/
theorem mem_flights_land (c : Cell ρ ν) (generation : Nat) (landing : Landing ν) (f : Flight ρ) :
    f ∈ (c.land generation landing).flights ↔ f ∈ c.flights ∧ f.generation ≠ generation := by
  cases h : c.isFlying generation with
  | false =>
      have hne : ∀ f ∈ c.flights, f.generation ≠ generation := by
        simpa [isFlying] using h
      rw [land_of_not_isFlying h]
      exact ⟨fun hf => ⟨hf, hne f hf⟩, fun hf => hf.1⟩
  | true =>
      rcases land_of_isFlying h landing with hl | ⟨v, -, -, hl⟩
      · simp [hl, without]
      · simp [hl, without, store]

/-- The first observer wakes a cell: it is registered under a number and issues a fetch. -/
def wake (c : Cell ρ ν) (id : Nat) (request : ρ) : Cell ρ ν :=
  let issued := { c with registration := some id }.issue request
  { issued with observers := issued.observers + 1 }

theorem alike_wake (c : Cell ρ ν) (id : Nat) (request : ρ) :
    (c.issue request).Alike (c.wake id request) := by
  unfold wake issue without
  by_cases h : c.aborting = true
  · constructor <;> simp [h]
  · constructor <;> simp [h]

theorem owned_wake (c : Cell ρ ν) (id : Nat) (request : ρ) : (c.wake id request).owned = c.owned :=
  owned_issue _ request

end Cell

namespace Hub

theorem getElem?_modifyCell (h : Hub ρ ν) (i j : Nat) (f : Cell ρ ν → Cell ρ ν) :
    (h.modifyCell j f).cells[i]? = if j = i then (h.cells[i]?).map f else h.cells[i]? := by
  rw [modifyCell]
  simp only [List.getElem?_modify]
  split <;> simp [*]

/-- When one cell changes, what is said of every cell is to be shown of that one and of the
others. -/
theorem forall_modifyCell {h : Hub ρ ν} {i : Nat} {c : Cell ρ ν} {f : Cell ρ ν → Cell ρ ν}
    {P : Nat → Cell ρ ν → Prop} (hget : h.cells[i]? = some c) (changed : P i (f c))
    (others : ∀ j d, i ≠ j → h.cells[j]? = some d → P j d) :
    ∀ j d, (h.modifyCell i f).cells[j]? = some d → P j d := by
  intro j d hd
  rw [getElem?_modifyCell] at hd
  by_cases hij : i = j
  · subst hij
    rw [if_pos rfl, hget] at hd
    obtain rfl : f c = d := Option.some.inj hd
    exact changed
  · rw [if_neg hij] at hd
    exact others j d hij hd

/-! ## Operations by cases -/

/-- Somebody begins to observe a cell, and the first one has it registered. -/
theorem observe_of_owned {h : Hub ρ ν} {i : Nat} {c : Cell ρ ν} (hc : h.cells[i]? = some c)
    (ho : c.owned = true) (request : ρ) :
    c.observers = 0 ∧ h.observe i request =
        { h.modifyCell i (fun c => c.wake h.registry.nextId request) with
          registry := h.registry.register c.topic (.cell i)
          observers := h.observers ++ [⟨h.nextObserver, i, c.version⟩]
          nextObserver := h.nextObserver + 1 } ∨
      c.observers ≠ 0 ∧ h.observe i request =
        { h.modifyCell i (fun c => { c with observers := c.observers + 1 }) with
          observers := h.observers ++ [⟨h.nextObserver, i, c.version⟩]
          nextObserver := h.nextObserver + 1 } := by
  by_cases h0 : c.observers = 0
  · refine .inl ⟨h0, ?_⟩
    simp [observe, hc, ho, h0, awaken, modifyCell, List.modify_modify_eq, Cell.wake,
      Function.comp_def]
  · refine .inr ⟨h0, ?_⟩
    simp [observe, hc, ho, h0]

/-- An observation begins, and the cell is registered if it is the first one. -/
theorem observe_cases (h : Hub ρ ν) (i : Nat) (request : ρ) :
    h.observe i request = h ∨
      ∃ c, h.cells[i]? = some c ∧
        (c.observers = 0 ∧ h.observe i request =
            { h.modifyCell i (fun c => c.wake h.registry.nextId request) with
              registry := h.registry.register c.topic (.cell i)
              observers := h.observers ++ [⟨h.nextObserver, i, c.version⟩]
              nextObserver := h.nextObserver + 1 } ∨
          c.observers ≠ 0 ∧ h.observe i request =
            { h.modifyCell i (fun c => { c with observers := c.observers + 1 }) with
              observers := h.observers ++ [⟨h.nextObserver, i, c.version⟩]
              nextObserver := h.nextObserver + 1 }) := by
  cases hc : h.cells[i]? with
  | none => exact .inl (by simp [observe, hc])
  | some c =>
      cases ho : c.owned with
      | false => exact .inl (by simp [observe, hc, ho])
      | true => exact .inr ⟨c, rfl, observe_of_owned hc ho request⟩

/-- An observation ends, and the cell is taken off the registry if it was the last one. -/
theorem unobserve_cases (h : Hub ρ ν) (id : Nat) :
    h.unobserve id = h ∧ h.observer? id = none ∨
      ∃ o, h.observer? id = some o ∧
        (h.cells[o.cell]? = none ∧
            h.unobserve id = { h with observers := h.observers.filter fun p => p.id ≠ id } ∨
          ∃ c, h.cells[o.cell]? = some c ∧
            ((2 ≤ c.observers ∨ c.registration = none) ∧ h.unobserve id =
                { h.modifyCell o.cell (fun c => { c with observers := c.observers - 1 }) with
                  observers := h.observers.filter fun p => p.id ≠ id } ∨
              ∃ r, c.observers ≤ 1 ∧ c.registration = some r ∧ h.unobserve id =
                { h.modifyCell o.cell (fun c =>
                    { c with observers := c.observers - 1, registration := none }) with
                  registry := h.registry.unregister r c.topic
                  observers := h.observers.filter fun p => p.id ≠ id })) := by
  cases ho : h.observer? id with
  | none => exact .inl ⟨by simp [unobserve, ho], rfl⟩
  | some o =>
      refine .inr ⟨o, rfl, ?_⟩
      cases hc : h.cells[o.cell]? with
      | none => exact .inl ⟨rfl, by simp [unobserve, ho, hc]⟩
      | some c =>
          refine .inr ⟨c, rfl, ?_⟩
          by_cases h1 : c.observers ≤ 1
          · cases hr : c.registration with
            | none =>
                refine .inl ⟨.inr rfl, ?_⟩
                simp [unobserve, ho, hc, h1, retire, hr, modifyCell]
            | some r =>
                refine .inr ⟨r, h1, rfl, ?_⟩
                simp [unobserve, ho, hc, h1, retire, hr, modifyCell, List.modify_modify_eq,
                  Function.comp_def]
          · refine .inl ⟨.inl (by omega), ?_⟩
            simp [unobserve, ho, hc, h1, modifyCell]

/-- The next callback of the innermost fan-out is a cell's, which may issue a fetch, or a plain one,
which begins to run; or there is none to call. -/
theorem call_cases (h : Hub ρ ν) (request : ρ) :
    h.call request = h ∨
      ∃ r pending ran outer, h.fanOuts = ⟨r :: pending, false, ran⟩ :: outer ∧
        ((∃ i, r.callback = .cell i ∧ h.call request =
            { h.modifyCell i (fun c => if c.isAlive then c.issue request else c) with
              fanOuts := ⟨pending, false, ran + 1⟩ :: outer }) ∨
          (∃ label, r.callback = .plain label ∧ h.call request =
            { h with fanOuts := ⟨pending, true, ran⟩ :: outer })) := by
  rcases hf : h.fanOuts with _ | ⟨⟨_ | ⟨r, pending⟩, busy, ran⟩, outer⟩
  · exact .inl (by simp [call, hf])
  · exact .inl (by simp [call, hf])
  · cases busy with
    | true => exact .inl (by simp [call, hf])
    | false =>
        refine .inr ⟨r, pending, ran, outer, rfl, ?_⟩
        cases hr : r.callback with
        | cell i => exact .inl ⟨i, rfl, by simp [call, hf, hr]⟩
        | plain label => exact .inr ⟨label, rfl, by simp [call, hf, hr]⟩

/-! ## The inversion of a step -/

/-- An event asks a cell to fetch something. -/
inductive Sends (h : Hub ρ ν) (i : Nat) (request : ρ) : Event ρ ν → Prop where
  | observe : Sends h i request (.observe i request)
  | update : Sends h i request (.update i request)
  | call (next : h.next? = some (.cell i)) : Sends h i request (.call request)

theorem Sends.of_observe {h : Hub ρ ν} {i j : Nat} {request request' : ρ}
    (hsends : Sends h i request (.observe j request')) : j = i ∧ request = request' := by
  cases hsends
  exact ⟨rfl, rfl⟩

theorem Sends.of_update {h : Hub ρ ν} {i j : Nat} {request request' : ρ}
    (hsends : Sends h i request (.update j request')) : j = i ∧ request = request' := by
  cases hsends
  exact ⟨rfl, rfl⟩

theorem Sends.of_call {h : Hub ρ ν} {i : Nat} {request request' : ρ}
    (hsends : Sends h i request (.call request')) :
    h.next? = some (.cell i) ∧ request = request' := by
  cases hsends with
  | call next => exact ⟨next, rfl⟩

/-- What an event makes of a cell, with what is asked for if it issues a fetch. -/
inductive Fate (h : Hub ρ ν) (i : Nat) (e : Event ρ ν) (c : Cell ρ ν) : Cell ρ ν → Prop where
  /-- Nothing is issued or ended, and nobody begins to observe a cell that nobody observed. -/
  | keep {c' : Cell ρ ν} (alike : c.Alike c') (owned : e ≠ .disown i → c'.owned = c.owned)
      (unobserved : c.observers = 0 → c'.observers = 0) : Fate h i e c c'
  | issue {c' : Cell ρ ν} {request : ρ} (sends : h.Sends i request e)
      (alike : (c.issue request).Alike c') (owned : c'.owned = c.owned) : Fate h i e c c'
  | land (generation : Nat) (landing : Landing ν) (event : e = .land i generation landing) :
      Fate h i e c (c.land generation landing)

theorem Fate.refl (h : Hub ρ ν) (i : Nat) (e : Event ρ ν) (c : Cell ρ ν) : Fate h i e c c :=
  .keep (.refl c) (fun _ => rfl) id

/-- An event that changes one cell changes this cell if it is that one. -/
theorem exists_fate_modifyCell {h : Hub ρ ν} {i j : Nat} {e : Event ρ ν} {c : Cell ρ ν}
    {f : Cell ρ ν → Cell ρ ν} (hc : h.cells[i]? = some c) (hf : j = i → Fate h i e c (f c)) :
    ∃ c', (h.modifyCell j f).cells[i]? = some c' ∧ Fate h i e c c' := by
  rw [getElem?_modifyCell, hc]
  by_cases hj : j = i
  · exact ⟨f c, by simp [hj], hf hj⟩
  · exact ⟨c, by simp [hj], .refl h i e c⟩

theorem exists_fate_observe {h : Hub ρ ν} {i : Nat} {c : Cell ρ ν} (hc : h.cells[i]? = some c)
    (j : Nat) (request : ρ) : ∃ c', (h.observe j request).cells[i]? = some c' ∧
      Fate h i (.observe j request) c c' := by
  rcases observe_cases h j request with hsame | ⟨d, hd, ⟨h0, heq⟩ | ⟨h0, heq⟩⟩
  · exact ⟨c, by rw [hsame, hc], .refl _ _ _ c⟩
  · -- The first observer makes the cell issue a fetch.
    rw [heq]
    refine exists_fate_modifyCell hc ?_
    rintro rfl
    exact .issue .observe (Cell.alike_wake c _ request) (Cell.owned_wake c _ request)
  · rw [heq]
    refine exists_fate_modifyCell hc ?_
    -- A further one finds the cell observed, so nobody begins to.
    rintro rfl
    obtain rfl : d = c := Option.some.inj (hd.symm.trans hc)
    exact .keep ⟨rfl, rfl, rfl, rfl, rfl, rfl⟩ (fun _ => rfl) fun hz => absurd hz h0

theorem exists_fate_unobserve {h : Hub ρ ν} {i : Nat} {c : Cell ρ ν} (hc : h.cells[i]? = some c)
    (id : Nat) : ∃ c', (h.unobserve id).cells[i]? = some c' ∧ Fate h i (.unobserve id) c c' := by
  have hless : c.observers = 0 → c.observers - 1 = 0 := fun h0 => by rw [h0]
  rcases unobserve_cases h id with ⟨hsame, -⟩ | ⟨o, -, ⟨-, heq⟩ | ⟨d, -, ⟨-, heq⟩ | ⟨r, -, -, heq⟩⟩⟩
  · exact ⟨c, by rw [hsame, hc], .refl _ _ _ c⟩
  · exact ⟨c, by rw [heq]; exact hc, .refl _ _ _ c⟩
  · rw [heq]
    exact exists_fate_modifyCell hc fun _ =>
      .keep ⟨rfl, rfl, rfl, rfl, rfl, rfl⟩ (fun _ => rfl) hless
  · rw [heq]
    exact exists_fate_modifyCell hc fun _ =>
      .keep ⟨rfl, rfl, rfl, rfl, rfl, rfl⟩ (fun _ => rfl) hless

theorem exists_fate_call {h : Hub ρ ν} {i : Nat} {c : Cell ρ ν} (hc : h.cells[i]? = some c)
    (request : ρ) : ∃ c', (h.call request).cells[i]? = some c' ∧ Fate h i (.call request) c c' := by
  rcases call_cases h request with hsame | ⟨r, pending, ran, outer, hf, ⟨j, hr, heq⟩ | ⟨_, -, heq⟩⟩
  · exact ⟨c, by rw [hsame, hc], .refl _ _ _ c⟩
  · rw [heq]
    refine exists_fate_modifyCell hc ?_
    rintro rfl
    split
    · have hnext : h.next? = some (.cell j) := by simp [next?, hf, hr]
      exact .issue (.call hnext) (.refl _) (Cell.owned_issue c request)
    · -- A cell that nothing holds any more is called in vain.
      exact .refl _ _ _ c
  · exact ⟨c, by rw [heq]; exact hc, .refl _ _ _ c⟩

/-- A cell is never lost, and a step changes it in one of three ways. -/
theorem exists_fate {h : Hub ρ ν} {i : Nat} {c : Cell ρ ν} (hc : h.cells[i]? = some c)
    (e : Event ρ ν) : ∃ c', (h.step e).cells[i]? = some c' ∧ Fate h i e c c' := by
  -- Most events leave the list of cells alone.
  have hsame : ∀ h' : Hub ρ ν, h'.cells = h.cells →
      ∃ c', h'.cells[i]? = some c' ∧ Fate h i e c c' :=
    fun h' hcells => ⟨c, by rw [hcells, hc], .refl h i e c⟩
  cases e with
  | create topic aborting =>
      have hi : i < h.cells.length := (List.getElem?_eq_some_iff.1 hc).1
      exact ⟨c, by rw [step, create, List.getElem?_append_left hi, hc], .refl _ _ _ c⟩
  | disown j =>
      refine exists_fate_modifyCell hc ?_
      rintro rfl
      exact .keep ⟨rfl, rfl, rfl, rfl, rfl, rfl⟩ (fun held => absurd rfl held) id
  | observe j request => exact exists_fate_observe hc j request
  | unobserve id => exact exists_fate_unobserve hc id
  | poll id => exact hsame _ rfl
  | update j request =>
      refine exists_fate_modifyCell hc ?_
      rintro rfl
      split
      · exact .issue .update ⟨rfl, rfl, rfl, rfl, rfl, rfl⟩ (Cell.owned_issue c request)
      · exact .refl _ _ _ c
  | land j generation landing =>
      refine exists_fate_modifyCell hc ?_
      rintro rfl
      exact .land generation landing rfl
  | join j generation =>
      refine exists_fate_modifyCell hc fun _ => ?_
      split
      · exact .refl _ _ _ c
      · exact .keep ⟨rfl, rfl, rfl, rfl, rfl, rfl⟩ (fun _ => rfl) id
  | register topic label => exact hsame _ rfl
  | unregister id topic =>
      refine hsame _ ?_
      rw [step, unregister]
      split <;> rfl
  | notify topic => exact hsame _ rfl
  | notifyAll => exact hsame _ rfl
  | call request => exact exists_fate_call hc request
  | leave crashed =>
      refine hsame _ ?_
      rw [step, leave]
      split <;> rfl
  | finish =>
      refine hsame _ ?_
      rw [step, finish]
      split <;> rfl

/-- What an event can make of a cell, whatever is asked for and whoever holds it. -/
inductive Change (i : Nat) (e : Event ρ ν) (c : Cell ρ ν) : Cell ρ ν → Prop where
  | keep {c' : Cell ρ ν} (alike : c.Alike c') (unobserved : c.observers = 0 → c'.observers = 0) :
      Change i e c c'
  | issue {c' : Cell ρ ν} (request : ρ) (alike : (c.issue request).Alike c') : Change i e c c'
  | land (generation : Nat) (landing : Landing ν) (event : e = .land i generation landing) :
      Change i e c (c.land generation landing)

theorem Fate.change {h : Hub ρ ν} {i : Nat} {e : Event ρ ν} {c c' : Cell ρ ν} :
    Fate h i e c c' → Change i e c c'
  | keep alike _ unobserved => .keep alike unobserved
  | issue _ alike _ => .issue _ alike
  | land generation landing event => .land generation landing event

theorem exists_change {h : Hub ρ ν} {i : Nat} {c : Cell ρ ν} (hc : h.cells[i]? = some c)
    (e : Event ρ ν) : ∃ c', (h.step e).cells[i]? = some c' ∧ Change i e c c' := by
  obtain ⟨c', hc', hfate⟩ := exists_fate hc e
  exact ⟨c', hc', hfate.change⟩

/-- What every change of a cell keeps is kept to the end of a run. -/
theorem exists_after_of_stable {P : Cell ρ ν → Prop} {i : Nat}
    (stable : ∀ e c c', Change i e c c' → P c → P c') (h : Hub ρ ν) (events : List (Event ρ ν))
    {m n : Nat} (hmn : m ≤ n) (hm : ∃ c, (h.after events m).cells[i]? = some c ∧ P c) :
    ∃ c, (h.after events n).cells[i]? = some c ∧ P c := by
  induction hmn with
  -- The induction is on the events between the two points.
  | refl => exact hm
  | @step n _ ih =>
      obtain ⟨c, hc, hP⟩ := ih
      rcases h.after_succ_cases events n with ⟨e, -, hstep⟩ | ⟨-, hsame⟩
      · obtain ⟨c', hc', hchange⟩ := exists_change hc e
        exact ⟨c', by rw [hstep, hc'], stable e c c' hchange hP⟩
      · exact ⟨c, by rw [hsame, hc], hP⟩

/-- Only a new cell makes the hub longer. -/
theorem length_cells_step (h : Hub ρ ν) {e : Event ρ ν}
    (he : ∀ topic aborting, e ≠ .create topic aborting) :
    (h.step e).cells.length = h.cells.length := by
  cases e with
  | create topic aborting => exact absurd rfl (he topic aborting)
  | disown j => simp [step, disown, modifyCell]
  | observe j request =>
      rcases observe_cases h j request with heq | ⟨d, -, ⟨-, heq⟩ | ⟨-, heq⟩⟩ <;>
        simp [step, heq, modifyCell]
  | unobserve id =>
      rcases unobserve_cases h id with
        ⟨heq, -⟩ | ⟨o, -, ⟨-, heq⟩ | ⟨d, -, ⟨-, heq⟩ | ⟨r, -, -, heq⟩⟩⟩ <;>
        simp [step, heq, modifyCell]
  | poll id => rfl
  | update j request => simp [step, update, modifyCell]
  | land j generation landing => simp [step, land, modifyCell]
  | join j generation => simp [step, join, modifyCell]
  | register topic label => rfl
  | unregister id topic =>
      rw [step, unregister]
      split <;> rfl
  | notify topic => rfl
  | notifyAll => rfl
  | call request =>
      rcases call_cases h request with heq | ⟨_, _, _, _, -, ⟨j, -, heq⟩ | ⟨_, -, heq⟩⟩ <;>
        simp [step, heq, modifyCell]
  | leave crashed =>
      rw [step, leave]
      split <;> rfl
  | finish =>
      rw [step, finish]
      split <;> rfl

/-- A cell that was not there before a step is a new one. -/
theorem eq_create_of_step {h : Hub ρ ν} {i : Nat} {e : Event ρ ν} {c : Cell ρ ν}
    (hnone : h.cells[i]? = none) (hc : (h.step e).cells[i]? = some c) :
    ∃ topic aborting, c = .create topic aborting := by
  by_cases he : ∃ topic aborting, e = .create topic aborting
  · obtain ⟨topic, aborting, rfl⟩ := he
    have hi : h.cells.length ≤ i := List.getElem?_eq_none_iff.1 hnone
    rw [step, create, List.getElem?_append_right hi] at hc
    have hmem := List.mem_of_getElem? hc
    exact ⟨topic, aborting, by simpa using hmem⟩
  · -- Any other event leaves as many cells as there were, and the place stays empty.
    have hlen := h.length_cells_step (e := e) fun topic aborting heq => he ⟨topic, aborting, heq⟩
    rw [List.getElem?_eq_none (by rw [hlen]; exact List.getElem?_eq_none_iff.1 hnone)] at hc
    cases hc

/-- Induction over the points of a run from the empty hub, for one cell: it appears as a new one and
is changed by events from then on. -/
theorem cell_induction {events : List (Event ρ ν)} {i : Nat} {motive : Nat → Cell ρ ν → Prop}
    (fresh : ∀ n topic aborting, ((empty : Hub ρ ν).after events n).cells[i]? = none →
      motive (n + 1) (.create topic aborting))
    (change : ∀ n e c c', events[n]? = some e →
      ((empty : Hub ρ ν).after events n).cells[i]? = some c →
      ((empty : Hub ρ ν).after events (n + 1)).cells[i]? = some c' →
      Change i e c c' → motive n c → motive (n + 1) c')
    (ended : ∀ n c, events[n]? = none → motive n c → motive (n + 1) c) {n : Nat} {c : Cell ρ ν}
    (hc : ((empty : Hub ρ ν).after events n).cells[i]? = some c) : motive n c := by
  induction n generalizing c with
  | zero => simp [after_zero, empty] at hc
  | succ n ih =>
      rcases (empty : Hub ρ ν).after_succ_cases events n with ⟨e, he, hstep⟩ | ⟨he, hsame⟩
      · cases hd : ((empty : Hub ρ ν).after events n).cells[i]? with
        | none =>
            -- The cell has just been made.
            rw [hstep] at hc
            rcases eq_create_of_step hd hc with ⟨topic, aborting, rfl⟩
            exact fresh n topic aborting hd
        | some d =>
            rcases exists_change hd e with ⟨d', hd', hchange⟩
            rw [← hstep] at hd'
            obtain rfl : d' = c := Option.some.inj (hd'.symm.trans hc)
            exact change n e d d' he hd hd' hchange (ih hd)
      · rw [hsame] at hc
        exact ended n c he (ih hc)

end Hub

end LiveFeed
