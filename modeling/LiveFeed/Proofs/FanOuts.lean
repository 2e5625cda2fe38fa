import LiveFeed.Proofs.Subscriptions

/-!
# What a fan-out owes

A fan-out calls what was registered when it began.  A cell that was observed then is called before the
outermost fan-out ends, and issues a fetch, unless nobody observes it any more by that time; and
whoever observes it again makes it issue one.

* `Hub.Owes`: the outermost fan-out is still to call a cell;
* `Hub.owes_step`: what becomes of that.
-/

namespace LiveFeed

variable {ρ ν : Type}

namespace Hub

/-- The outermost fan-out in progress is still to call cell `i`. -/
def Owes (h : Hub ρ ν) (i : Nat) : Prop :=
  ∃ f r, h.fanOuts.getLast? = some f ∧ r ∈ f.pending ∧ r.callback = .cell i

/-- Nobody observes cell `i`, if there is one. -/
def Unobserved (h : Hub ρ ν) (i : Nat) : Prop :=
  ∀ c, h.cells[i]? = some c → c.observers = 0

/-- From one state to another cell `i` issued a fetch. -/
def Issues (h h' : Hub ρ ν) (i : Nat) : Prop :=
  ∃ c c', h.cells[i]? = some c ∧ h'.cells[i]? = some c' ∧ c.generation < c'.generation

theorem not_owes_of_idle {h : Hub ρ ν} {i : Nat} (idle : h.fanOuts = []) : ¬ h.Owes i := by
  rintro ⟨f, r, hf, -, -⟩
  rw [idle] at hf
  cases hf

theorem Owes.congr {h h' : Hub ρ ν} {i : Nat} (ho : h.Owes i) (hf : h'.fanOuts = h.fanOuts) :
    h'.Owes i := by
  unfold Owes
  rw [hf]
  exact ho

theorem Owes.push {h h' : Hub ρ ν} {i : Nat} {f : FanOut} (ho : h.Owes i)
    (hf : h'.fanOuts = f :: h.fanOuts) : h'.Owes i := by
  rcases ho with ⟨last, r, hlast, hr⟩
  refine ⟨last, r, ?_, hr⟩
  rw [hf, List.getLast?_cons, hlast]
  rfl

/-- What a fan-out owes is among what the innermost one has pending, if it is the only one, and
otherwise is nothing to the innermost one. -/
theorem Owes.cons_cases {h : Hub ρ ν} {i : Nat} {f : FanOut} {outer : List FanOut} (ho : h.Owes i)
    (hf : h.fanOuts = f :: outer) :
    (outer = [] ∧ ∃ r ∈ f.pending, r.callback = .cell i) ∨
      ∀ (h' : Hub ρ ν) (f' : FanOut), h'.fanOuts = f' :: outer ∨ h'.fanOuts = outer → h'.Owes i := by
  rcases ho with ⟨last, r, hlast, hr⟩
  rw [hf, List.getLast?_cons] at hlast
  cases houter : outer.getLast? with
  | none =>
      -- The innermost fan-out is the outermost one only if there is no other.
      rw [houter] at hlast
      obtain rfl : f = last := Option.some.inj hlast
      exact .inl ⟨List.getLast?_eq_none_iff.1 houter, r, hr⟩
  | some last' =>
      rw [houter] at hlast
      obtain rfl : last' = last := Option.some.inj hlast
      refine .inr fun h' f' heq => ⟨last', r, ?_, hr⟩
      rcases heq with heq | heq
      · rw [heq, List.getLast?_cons, houter]
        rfl
      · rw [heq, houter]

theorem owes_call {h : Hub ρ ν} {i : Nat} (ho : h.Owes i) (request : ρ) :
    (h.call request).Owes i ∨ h.Unobserved i ∨ Issues h (h.call request) i := by
  rcases call_cases h request with hsame | ⟨r, pending, ran, outer, hf, hcases⟩
  · rw [hsame]
    exact .inl ho
  · rcases ho.cons_cases hf with ⟨rfl, r', hr', hcell⟩ | hkept
    · rcases hcases with ⟨j, hj, heq⟩ | ⟨label, hlabel, heq⟩
      · rcases List.mem_cons.1 hr' with rfl | hmem
        · -- The cell's turn has come.
          obtain rfl : j = i := Callee.cell.inj (hj.symm.trans hcell)
          cases hc : h.cells[j]? with
          | none =>
              refine .inr (.inl ?_)
              intro c hget
              rw [hc] at hget
              cases hget
          | some c =>
              by_cases h0 : c.observers = 0
              · refine .inr (.inl ?_)
                intro d hd
                obtain rfl : c = d := Option.some.inj (hc.symm.trans hd)
                exact h0
              · -- An observed cell is alive, so the call makes it issue a fetch.
                refine .inr (.inr ⟨c, c.issue request, hc, ?_, Nat.lt_succ_self _⟩)
                have halive : c.isAlive = true := by simp [Cell.isAlive, h0]
                rw [heq]
                simp [modifyCell, hc, halive]
        · refine .inl ⟨⟨pending, false, ran + 1⟩, r', ?_, hmem, hcell⟩
          rw [heq]
          rfl
      · rcases List.mem_cons.1 hr' with rfl | hmem
        · -- The callback that begins to run is not the cell.
          rw [hlabel] at hcell
          cases hcell
        · refine .inl ⟨⟨pending, true, ran⟩, r', ?_, hmem, hcell⟩
          rw [heq]
          rfl
    · rcases hcases with ⟨j, -, heq⟩ | ⟨label, -, heq⟩
      · rw [heq]
        exact .inl (hkept _ _ (.inl rfl))
      · rw [heq]
        exact .inl (hkept _ _ (.inl rfl))

theorem owes_leave {h : Hub ρ ν} {i : Nat} (ho : h.Owes i) (crashed : Bool) :
    (h.leave crashed).Owes i := by
  unfold leave
  split
  · next pending ran outer hf =>
      rcases ho.cons_cases hf with ⟨rfl, r, hr, hcell⟩ | hkept
      · exact ⟨_, r, rfl, hr, hcell⟩
      · exact hkept _ _ (.inl rfl)
  · exact ho

theorem owes_finish {h : Hub ρ ν} {i : Nat} (ho : h.Owes i) : h.finish.Owes i := by
  unfold finish
  split
  · next ran outer hf =>
      rcases ho.cons_cases hf with ⟨-, r, hr, -⟩ | hkept
      · -- A fan-out with nothing pending owes nothing, so it is not the outermost one.
        cases hr
      · exact hkept { h with fanOuts := outer } ⟨[], false, ran⟩ (.inr rfl)
  · exact ho

theorem fanOuts_observe (h : Hub ρ ν) (j : Nat) (request : ρ) :
    (h.observe j request).fanOuts = h.fanOuts := by
  rcases observe_cases h j request with heq | ⟨c, -, ⟨-, heq⟩ | ⟨-, heq⟩⟩ <;> rw [heq] <;> rfl

theorem fanOuts_unobserve (h : Hub ρ ν) (id : Nat) : (h.unobserve id).fanOuts = h.fanOuts := by
  rcases unobserve_cases h id with
    ⟨heq, -⟩ | ⟨o, -, ⟨-, heq⟩ | ⟨d, -, ⟨-, heq⟩ | ⟨r, -, -, heq⟩⟩⟩ <;> rw [heq] <;> rfl

theorem fanOuts_unregister (h : Hub ρ ν) (id : Nat) (topic : Topic) :
    (h.unregister id topic).fanOuts = h.fanOuts := by
  rw [unregister]
  split <;> rfl

/-- As long as a fan-out owes a cell its call, a step keeps that so, or the cell is not observed, or it
issues a fetch. -/
theorem owes_step {h : Hub ρ ν} {i : Nat} (ho : h.Owes i) (e : Event ρ ν) :
    (h.step e).Owes i ∨ h.Unobserved i ∨ Issues h (h.step e) i := by
  cases e with
  | create topic aborting => exact .inl (ho.congr rfl)
  | disown j => exact .inl (ho.congr rfl)
  | observe j request => exact .inl (ho.congr (fanOuts_observe h j request))
  | unobserve id => exact .inl (ho.congr (fanOuts_unobserve h id))
  | poll id => exact .inl (ho.congr rfl)
  | update j request => exact .inl (ho.congr rfl)
  | land j generation landing => exact .inl (ho.congr rfl)
  | join j generation => exact .inl (ho.congr rfl)
  | register topic label => exact .inl (ho.congr rfl)
  | unregister id topic => exact .inl (ho.congr (fanOuts_unregister h id topic))
  | notify topic => exact .inl (ho.push rfl)
  | notifyAll => exact .inl (ho.push rfl)
  | call request => exact owes_call ho request
  | leave crashed => exact .inl (owes_leave ho crashed)
  | finish => exact .inl (owes_finish ho)

/-- Nobody begins to observe a cell without making it issue a fetch. -/
theorem unobserved_step {h : Hub ρ ν} {i : Nat} (hu : h.Unobserved i) (e : Event ρ ν) :
    (h.step e).Unobserved i ∨ Issues h (h.step e) i := by
  cases hc : h.cells[i]? with
  | none =>
      refine .inl fun c hget => ?_
      rcases eq_create_of_step hc hget with ⟨topic, aborting, rfl⟩
      rfl
  | some c =>
      rcases exists_change hc e with ⟨c', hc', hchange⟩
      have h0 := hu c hc
      cases hchange with
      | keep alike unobserved =>
          refine .inl fun d hget => ?_
          obtain rfl : c' = d := Option.some.inj (hc'.symm.trans hget)
          exact unobserved h0
      | issue request alike =>
          refine .inr ⟨c, c', hc, hc', ?_⟩
          rw [alike.generation, Cell.generation_issue]
          exact Nat.lt_succ_self _
      | land generation landing _ =>
          refine .inl fun d hget => ?_
          obtain rfl : c.land generation landing = d := Option.some.inj (hc'.symm.trans hget)
          rw [(c.holders_land generation landing).2.1, h0]

/-! ## Who is called -/

/-- An observed cell is registered under its topic. -/
theorem Consistent.exists_entry {h : Hub ρ ν} (hh : Consistent h) {i : Nat} {c : Cell ρ ν}
    (hc : h.cells[i]? = some c) (hpos : 0 < c.observers) :
    ∃ r, (c.topic, r) ∈ h.registry.entries ∧ r.callback = .cell i := by
  have hs := hh.cells i c hc
  rcases Option.isSome_iff_exists.1 (hs.observed.2 hpos) with ⟨id, hid⟩
  refine ⟨⟨id, .cell i⟩, ?_, rfl⟩
  have hmem : (c.topic, ⟨id, .cell i⟩) ∈ h.registrationsOf i := by
    rw [hs.registered.mem_iff, remembered, hid]
    exact List.mem_singleton_self _
  exact (List.mem_filter.1 hmem).1

/-- A fan-out over everything, begun while no other is in progress, owes every observed cell a
call. -/
theorem owes_notifyAll {h : Hub ρ ν} (hh : Consistent h) (idle : h.fanOuts = []) {i : Nat}
    {c : Cell ρ ν} (hc : h.cells[i]? = some c) (hpos : 0 < c.observers) :
    (h.step .notifyAll).Owes i := by
  rcases hh.exists_entry hc hpos with ⟨r, hr, hcell⟩
  refine ⟨⟨h.registry.all, false, 0⟩, r, ?_, Registry.mem_all_of_mem_entries hr, hcell⟩
  rw [step, fanOut, idle]
  rfl

/-- A fan-out over a topic, begun while no other is in progress, owes every observed cell of the topic
a call. -/
theorem owes_notify {h : Hub ρ ν} (hh : Consistent h) (idle : h.fanOuts = []) {i : Nat}
    {c : Cell ρ ν} (hc : h.cells[i]? = some c) (hpos : 0 < c.observers) :
    (h.step (.notify c.topic)).Owes i := by
  rcases hh.exists_entry hc hpos with ⟨r, hr, hcell⟩
  refine ⟨⟨h.registry.under c.topic, false, 0⟩, r, ?_, Registry.mem_under hh.registry hr, hcell⟩
  rw [step, fanOut, idle]
  rfl

end Hub

end LiveFeed
