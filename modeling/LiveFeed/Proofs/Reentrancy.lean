import LiveFeed.Proofs.Points
import LiveFeed.Proofs.FanOuts

/-!
# Fan-outs whose callbacks call back

A fan-out goes over what was registered when it began.  Its callbacks may register, remove, observe
and begin fan-outs of their own, and they may break off; all of that happens on top of the fan-out
and changes nothing in what it calls.

* `Hub.called?`, `Hub.ended?`, `Hub.returned?`: what a fan-out does with an event;
* `Hub.Advance`, `Hub.advance_step`, `Hub.advance_run`: a fan-out calls what it has pending, one after
  the other, under whatever stands on top of it;
* `Hub.exists_returns`: a fan-out never gets stuck;
* `Hub.Exact`, `Hub.reentrant_fanOuts`: every fan-out of every reachable hub begins, calls its
  snapshot and returns.
-/

namespace LiveFeed

variable {ρ ν : Type}

namespace Hub

/-! ## What a fan-out does -/

/-- The registration that an event calls, if it is the fan-out with `depth` others below it that
calls. -/
def called? (depth : Nat) (h : Hub ρ ν) : Event ρ ν → Option (Registration Callee)
  | .call _ =>
    match h.fanOuts with
    | ⟨r :: _, false, _⟩ :: outer => if outer.length = depth then some r else none
    | _ => none
  | _ => none

/-- Whether a callback breaks off with an event, if one of the fan-out with `depth` others below it
ends. A cell is done as soon as it is called. -/
def ended? (depth : Nat) (h : Hub ρ ν) : Event ρ ν → Option Bool
  | .call _ =>
    match h.fanOuts with
    | ⟨⟨_, .cell _⟩ :: _, false, _⟩ :: outer => if outer.length = depth then some false else none
    | _ => none
  | .leave crashed =>
    match h.fanOuts with
    | ⟨_, true, _⟩ :: outer => if outer.length = depth then some crashed else none
    | _ => none
  | _ => none

/-- The count with which the fan-out with `depth` others below it returns, if an event lets it
return. -/
def returned? (depth : Nat) (h : Hub ρ ν) : Event ρ ν → Option Nat
  | .finish =>
    match h.fanOuts with
    | ⟨[], false, ran⟩ :: outer => if outer.length = depth then some ran else none
    | _ => none
  | _ => none

theorem returned?_finish {depth : Nat} {h : Hub ρ ν} {count : Nat} :
    returned? depth h .finish = some count ↔
      ∃ outer, h.fanOuts = ⟨[], false, count⟩ :: outer ∧ outer.length = depth := by
  rcases hf : h.fanOuts with _ | ⟨⟨_ | ⟨r, pending⟩, busy, ran⟩, outer⟩
  · simp [returned?, hf]
  · cases busy with
    | true => simp [returned?, hf]
    | false => simp [returned?, hf, and_comm]
  · simp [returned?, hf]

/-- What the fan-out with `depth` others below it calls in a run. -/
def calls (depth : Nat) (h : Hub ρ ν) (events : List (Event ρ ν)) : List (Registration Callee) :=
  seen step (fun h e => (called? depth h e).toList) h events

/-- How the callbacks end that it calls: whether each breaks off. -/
def endings (depth : Nat) (h : Hub ρ ν) (events : List (Event ρ ν)) : List Bool :=
  seen step (fun h e => (ended? depth h e).toList) h events

/-- The fan-out with `depth` others below it is in progress at every point of a run. -/
def Within (depth : Nat) (h : Hub ρ ν) (events : List (Event ρ ν)) : Prop :=
  ∀ n ≤ events.length, depth < (h.after events n).fanOuts.length

instance (depth : Nat) (h : Hub ρ ν) (events : List (Event ρ ν)) :
    Decidable (Within depth h events) :=
  inferInstanceAs (Decidable (∀ n ≤ events.length, depth < (h.after events n).fanOuts.length))

/-- After a run in which it is in progress, the fan-out returns a count with the next event. -/
structure Returns (depth : Nat) (h : Hub ρ ν) (events : List (Event ρ ν)) (count : Nat) : Prop where
  within : Within depth h events
  returned : returned? depth (h.run events) .finish = some count

/-! ## One step of a fan-out -/

/-- The fan-out with `depth` others below it is `f`. -/
def Stands (depth : Nat) (h : Hub ρ ν) (f : FanOut) : Prop :=
  ∃ above outer, h.fanOuts = above ++ f :: outer ∧ outer.length = depth

/-- What becomes of a fan-out that calls some of what it has pending: it has the rest pending, and
it counted the callbacks that ended and did not break off. -/
structure Advance (f f' : FanOut) (called : List (Registration Callee)) (ended : List Bool) :
    Prop where
  pending : called ++ f'.pending = f.pending
  ran : f'.ran = f.ran + ended.count false
  /-- What was called has ended, or is running. -/
  busy : called.length + f.busy.toNat = ended.length + f'.busy.toNat

theorem Advance.refl (f : FanOut) : Advance f f [] [] :=
  ⟨rfl, rfl, rfl⟩

theorem Advance.trans {f f' f'' : FanOut} {called called' : List (Registration Callee)}
    {ended ended' : List Bool} (h : Advance f f' called ended) (h' : Advance f' f'' called' ended') :
    Advance f f'' (called ++ called') (ended ++ ended') := by
  refine ⟨?_, ?_, ?_⟩
  · rw [List.append_assoc, h'.pending, h.pending]
  · rw [h'.ran, h.ran, List.count_append, Nat.add_assoc]
  · have hbusy := h.busy
    have hbusy' := h'.busy
    rw [List.length_append, List.length_append]
    omega

/-- An event that does nothing to the fan-outs that were there leaves this one as it is. -/
theorem advance_of_suffix {depth : Nat} {h h' : Hub ρ ν} {f : FanOut} (hs : Stands depth h f)
    {e : Event ρ ν} (hf : ∃ new, h'.fanOuts = new ++ h.fanOuts) (hcalled : called? depth h e = none)
    (hended : ended? depth h e = none) :
    ∃ f', Stands depth h' f' ∧
      Advance f f' (called? depth h e).toList (ended? depth h e).toList := by
  rcases hs with ⟨above, outer, heq, hlen⟩
  rcases hf with ⟨new, hnew⟩
  refine ⟨f, ⟨new ++ above, outer, by rw [hnew, heq, List.append_assoc], hlen⟩, ?_⟩
  rw [hcalled, hended]
  exact .refl f

/-- Either the innermost fan-out is the one with `depth` others below it, or that one is further
out. -/
theorem Stands.cases {depth : Nat} {h : Hub ρ ν} {f top : FanOut} {rest : List FanOut}
    (hs : Stands depth h f) (hf : h.fanOuts = top :: rest) :
    (top = f ∧ rest.length = depth) ∨
      rest.length ≠ depth ∧ ∃ above outer, rest = above ++ f :: outer ∧ outer.length = depth := by
  rcases hs with ⟨above, outer, heq, hlen⟩
  rw [hf] at heq
  cases above with
  | nil =>
      obtain ⟨rfl, rfl⟩ := List.cons.inj heq
      exact .inl ⟨rfl, hlen⟩
  | cons a above =>
      have hrest : rest = above ++ f :: outer := (List.cons.inj heq).2
      refine .inr ⟨?_, above, outer, hrest, hlen⟩
      rw [hrest, List.length_append, List.length_cons]
      omega

theorem advance_call {depth : Nat} {h : Hub ρ ν} {f : FanOut} (hs : Stands depth h f)
    (request : ρ) :
    ∃ f', Stands depth (h.call request) f' ∧
      Advance f f' (called? depth h (.call request)).toList
        (ended? depth h (.call request)).toList := by
  rcases hf : h.fanOuts with _ | ⟨⟨_ | ⟨r, pending⟩, busy, ran⟩, rest⟩
  · exact advance_of_suffix hs ⟨[], by simp [call, hf]⟩ (by simp [called?, hf]) (by simp [ended?, hf])
  · exact advance_of_suffix hs ⟨[], by simp [call, hf]⟩ (by simp [called?, hf]) (by simp [ended?, hf])
  · cases busy with
    | true =>
        exact advance_of_suffix hs ⟨[], by simp [call, hf]⟩ (by simp [called?, hf])
          (by simp [ended?, hf])
    | false =>
        rcases hs.cases hf with ⟨rfl, hlen⟩ | ⟨hne, above, outer, hrest, hlen⟩
        · -- It is this fan-out that calls.
          obtain ⟨id, callback⟩ := r
          cases callback with
          | cell i =>
              refine ⟨⟨pending, false, ran + 1⟩, ⟨[], rest, by simp [call, hf], hlen⟩, ?_⟩
              simp only [called?, ended?, hf, hlen, if_pos, Option.toList_some]
              exact ⟨rfl, rfl, rfl⟩
          | plain label =>
              refine ⟨⟨pending, true, ran⟩, ⟨[], rest, by simp [call, hf], hlen⟩, ?_⟩
              simp only [called?, ended?, hf, hlen, if_pos, Option.toList_some, Option.toList_none]
              exact ⟨rfl, rfl, rfl⟩
        · -- A fan-out on top of it calls.
          have hcalled : called? depth h (.call request) = none := by simp [called?, hf, hne]
          have hended : ended? depth h (.call request) = none := by
            obtain ⟨id, callback⟩ := r
            cases callback <;> simp [ended?, hf, hne]
          refine ⟨f, ?_, ?_⟩
          · rcases call_cases h request with hsame | ⟨_, _, _, _, hf', ⟨_, -, heq⟩ | ⟨_, -, heq⟩⟩
            · exact ⟨_ :: above, outer, by rw [hsame, hf, hrest]; rfl, hlen⟩
            · rw [hf] at hf'
              cases hf'
              exact ⟨_ :: above, outer, by rw [heq, hrest]; rfl, hlen⟩
            · rw [hf] at hf'
              cases hf'
              exact ⟨_ :: above, outer, by rw [heq, hrest]; rfl, hlen⟩
          · rw [hcalled, hended]
            exact .refl f

theorem advance_leave {depth : Nat} {h : Hub ρ ν} {f : FanOut} (hs : Stands depth h f)
    (crashed : Bool) :
    ∃ f', Stands depth (h.leave crashed) f' ∧
      Advance f f' (called? depth h (.leave crashed)).toList
        (ended? depth h (.leave crashed)).toList := by
  rcases hf : h.fanOuts with _ | ⟨⟨pending, busy, ran⟩, rest⟩
  · exact advance_of_suffix hs ⟨[], by simp [leave, hf]⟩ rfl (by simp [ended?, hf])
  · cases busy with
    | false => exact advance_of_suffix hs ⟨[], by simp [leave, hf]⟩ rfl (by simp [ended?, hf])
    | true =>
        rcases hs.cases hf with ⟨rfl, hlen⟩ | ⟨hne, above, outer, hrest, hlen⟩
        · -- The callback is one of this fan-out.
          refine ⟨⟨pending, false, if crashed then ran else ran + 1⟩,
            ⟨[], rest, by simp [leave, hf], hlen⟩, ?_⟩
          simp only [called?, ended?, hf, hlen, if_pos, Option.toList_some, Option.toList_none]
          cases crashed with
          | true => exact ⟨rfl, rfl, rfl⟩
          | false => exact ⟨rfl, rfl, rfl⟩
        · refine ⟨f, ⟨_ :: above, outer, by simp [leave, hf, hrest]; rfl, hlen⟩, ?_⟩
          have hended : ended? depth h (.leave crashed) = none := by simp [ended?, hf, hne]
          rw [hended]
          exact .refl f

/-- A fan-out that is on top of this one ends, and this one does not. -/
theorem advance_finish {depth : Nat} {h : Hub ρ ν} {f : FanOut} (hs : Stands depth h f)
    (hin : depth < h.finish.fanOuts.length) :
    ∃ f', Stands depth h.finish f' ∧ Advance f f' [] [] := by
  rcases hf : h.fanOuts with _ | ⟨⟨_ | ⟨r, pending⟩, busy, ran⟩, rest⟩
  · have hsame : h.finish = h := by simp [finish, hf]
    exact ⟨f, by rw [hsame]; exact hs, .refl f⟩
  · cases busy with
    | true =>
        have hsame : h.finish = h := by simp [finish, hf]
        exact ⟨f, by rw [hsame]; exact hs, .refl f⟩
    | false =>
        have hrest : h.finish.fanOuts = rest := by simp [finish, hf]
        rcases hs.cases hf with ⟨-, hlen⟩ | ⟨-, above, outer, heq, hlen⟩
        · rw [hrest, hlen] at hin
          exact absurd hin (Nat.lt_irrefl depth)
        · exact ⟨f, ⟨above, outer, by rw [hrest, heq], hlen⟩, .refl f⟩
  · have hsame : h.finish = h := by simp [finish, hf]
    exact ⟨f, by rw [hsame]; exact hs, .refl f⟩

/-- A step during which a fan-out stays in progress calls what it has pending next, or nothing. -/
theorem advance_step {depth : Nat} {h : Hub ρ ν} {f : FanOut} (hs : Stands depth h f)
    (e : Event ρ ν) (hin : depth < (h.step e).fanOuts.length) :
    ∃ f', Stands depth (h.step e) f' ∧
      Advance f f' (called? depth h e).toList (ended? depth h e).toList := by
  have hkept : ∀ {h' : Hub ρ ν}, h'.fanOuts = h.fanOuts → ∃ new, h'.fanOuts = new ++ h.fanOuts :=
    fun heq => ⟨[], heq⟩
  cases e with
  | create topic aborting => exact advance_of_suffix hs (hkept rfl) rfl rfl
  | disown i => exact advance_of_suffix hs (hkept rfl) rfl rfl
  | observe i request => exact advance_of_suffix hs (hkept (fanOuts_observe h i request)) rfl rfl
  | unobserve id => exact advance_of_suffix hs (hkept (fanOuts_unobserve h id)) rfl rfl
  | poll id => exact advance_of_suffix hs (hkept rfl) rfl rfl
  | update i request => exact advance_of_suffix hs (hkept rfl) rfl rfl
  | land i generation landing => exact advance_of_suffix hs (hkept rfl) rfl rfl
  | join i generation => exact advance_of_suffix hs (hkept rfl) rfl rfl
  | register topic label => exact advance_of_suffix hs (hkept rfl) rfl rfl
  | unregister id topic => exact advance_of_suffix hs (hkept (fanOuts_unregister h id topic)) rfl rfl
  | notify topic => exact advance_of_suffix hs ⟨[_], rfl⟩ rfl rfl
  | notifyAll => exact advance_of_suffix hs ⟨[_], rfl⟩ rfl rfl
  | call request => exact advance_call hs request
  | leave crashed => exact advance_leave hs crashed
  | finish => exact advance_finish hs hin

/-! ## A whole fan-out -/

theorem Stands.lt_length {depth : Nat} {h : Hub ρ ν} {f : FanOut} (hs : Stands depth h f) :
    depth < h.fanOuts.length := by
  rcases hs with ⟨above, outer, heq, hlen⟩
  rw [heq, List.length_append, List.length_cons]
  omega

theorem within_nil {depth : Nat} {h : Hub ρ ν} : Within depth h [] ↔ depth < h.fanOuts.length := by
  constructor
  · intro hin
    exact hin 0 (Nat.le_refl 0)
  · rintro hlt n -
    rw [after, List.take_nil]
    exact hlt

theorem within_cons {depth : Nat} {h : Hub ρ ν} {e : Event ρ ν} {events : List (Event ρ ν)} :
    Within depth h (e :: events) ↔ depth < h.fanOuts.length ∧ Within depth (h.step e) events := by
  constructor
  · intro hin
    refine ⟨hin 0 (Nat.zero_le _), ?_⟩
    intro n hn
    exact hin (n + 1) (Nat.succ_le_succ hn)
  · rintro ⟨hlt, hin⟩ n hn
    cases n with
    | zero => exact hlt
    | succ n => exact hin n (Nat.le_of_succ_le_succ hn)

theorem Within.append {depth : Nat} {h : Hub ρ ν} {events more : List (Event ρ ν)}
    (hin : Within depth h events) (hmore : Within depth (h.run events) more) :
    Within depth h (events ++ more) := by
  induction events generalizing h with
  | nil => exact hmore
  | cons e events ih =>
      rw [within_cons] at hin
      rw [List.cons_append, within_cons]
      exact ⟨hin.1, ih hin.2 hmore⟩

/-- As long as it is in progress, a fan-out has called some of its snapshot and has the rest
pending. -/
theorem advance_run {depth : Nat} {h : Hub ρ ν} {f : FanOut} (hs : Stands depth h f)
    (events : List (Event ρ ν)) (hin : Within depth h events) :
    ∃ f', Stands depth (h.run events) f' ∧
      Advance f f' (calls depth h events) (endings depth h events) := by
  induction events generalizing h f with
  | nil => exact ⟨f, hs, .refl f⟩
  | cons e events ih =>
      have hin' := (within_cons.1 hin).2
      rcases advance_step hs e (hin' 0 (Nat.zero_le _)) with ⟨f', hs', hstep⟩
      rcases ih hs' hin' with ⟨f'', hs'', hrun⟩
      exact ⟨f'', hs'', hstep.trans hrun⟩

/-! ## A fan-out never gets stuck -/

/-- A bound on the steps that some fan-outs take when their callbacks do nothing more. -/
def work : List FanOut → Nat
  | [] => 0
  | f :: outer => 2 * f.pending.length + f.busy.toNat + 1 + work outer

theorem Returns.cons {depth : Nat} {h : Hub ρ ν} {e : Event ρ ν} {events : List (Event ρ ν)}
    {count : Nat} (hlt : depth < h.fanOuts.length) (hr : Returns depth (h.step e) events count) :
    Returns depth h (e :: events) count :=
  ⟨within_cons.2 ⟨hlt, hr.within⟩, hr.returned⟩

/-- Whatever stands on top of it, a fan-out returns after some more steps of fan-outs. -/
theorem exists_returns {depth : Nat} {h : Hub ρ ν} {f : FanOut} (hs : Stands depth h f)
    (request : ρ) : ∃ events count, Returns depth h events count ∧
      ∀ e ∈ events, e = .call request ∨ e = .leave false ∨ e = .finish := by
  -- The induction is on the work that is left, which every step of the innermost fan-out lessens.
  induction hn : work h.fanOuts using Nat.strongRecOn generalizing h f with
  | ind n ih =>
      have hlt := hs.lt_length
      have hgo : ∀ e : Event ρ ν, e = .call request ∨ e = .leave false ∨ e = .finish →
          depth < (h.step e).fanOuts.length → work (h.step e).fanOuts < work h.fanOuts →
          ∃ events count, Returns depth h events count ∧
            ∀ e ∈ events, e = .call request ∨ e = .leave false ∨ e = .finish := by
        intro e he hin hless
        rcases advance_step hs e hin with ⟨f', hs', -⟩
        rcases ih _ (hn ▸ hless) hs' rfl with ⟨events, count, hr, hevents⟩
        exact ⟨e :: events, count, hr.cons hlt, List.forall_mem_cons.2 ⟨he, hevents⟩⟩
      rcases hf : h.fanOuts with _ | ⟨⟨pending, busy, ran⟩, rest⟩
      · rw [hf] at hlt
        cases hlt
      · rw [hf, List.length_cons] at hlt
        cases busy with
        | true =>
            have hleave : (h.step (.leave false)).fanOuts = ⟨pending, false, ran + 1⟩ :: rest := by
              simp [step, leave, hf]
            refine hgo (.leave false) (.inr (.inl rfl)) ?_ ?_
            · rw [hleave]
              exact hlt
            · rw [hleave, hf]
              simp [work]
        | false =>
            cases pending with
            | nil =>
                rcases hs.cases hf with ⟨-, hlen⟩ | ⟨-, above, outer, hrest, hlen⟩
                · refine ⟨[], ran, ⟨?_, returned?_finish.2 ⟨rest, hf, hlen⟩⟩, ?_⟩
                  · rw [within_nil, hf]
                    exact hlt
                  · simp
                · have hfinish : (h.step .finish).fanOuts = rest := by simp [step, finish, hf]
                  refine hgo .finish (.inr (.inr rfl)) ?_ ?_
                  · rw [hfinish, hrest, List.length_append, List.length_cons]
                    omega
                  · rw [hfinish, hf]
                    simp [work]
            | cons r pending =>
                have hcall : ∃ busy ran', (h.step (.call request)).fanOuts =
                    ⟨pending, busy, ran'⟩ :: rest := by
                  cases hr : r.callback with
                  | cell i => exact ⟨false, ran + 1, by simp [step, call, hf, hr]⟩
                  | plain label => exact ⟨true, ran, by simp [step, call, hf, hr]⟩
                rcases hcall with ⟨busy, ran', hcall⟩
                refine hgo (.call request) (.inl rfl) ?_ ?_
                · rw [hcall]
                  exact hlt
                · have hbusy : busy.toNat ≤ 1 := Bool.toNat_le busy
                  rw [hcall, hf]
                  simp only [work, List.length_cons, Bool.toNat_false]
                  omega

/-! ## The registry of a reachable hub -/

/-- An event leaves the registry as it is, or registers something, or removes something. -/
theorem registry_step_cases (h : Hub ρ ν) (e : Event ρ ν) :
    (h.step e).registry = h.registry ∨
      (∃ topic callee, (h.step e).registry = h.registry.register topic callee) ∨
      ∃ id topic, (h.step e).registry = h.registry.unregister id topic := by
  cases e with
  | observe i request =>
      rcases observe_cases h i request with heq | ⟨c, -, ⟨-, heq⟩ | ⟨-, heq⟩⟩
      · exact .inl (by rw [step, heq])
      · exact .inr (.inl ⟨c.topic, .cell i, by rw [step, heq]⟩)
      · exact .inl (by rw [step, heq]; rfl)
  | unobserve id =>
      rcases unobserve_cases h id with
        ⟨heq, -⟩ | ⟨o, -, ⟨-, heq⟩ | ⟨c, -, ⟨-, heq⟩ | ⟨r, -, -, heq⟩⟩⟩
      · exact .inl (by rw [step, heq])
      · exact .inl (by rw [step, heq])
      · exact .inl (by rw [step, heq]; rfl)
      · exact .inr (.inr ⟨r, c.topic, by rw [step, heq]⟩)
  | register topic label => exact .inr (.inl ⟨topic, .plain label, rfl⟩)
  | unregister id topic =>
      rw [step, unregister]
      split
      · exact .inr (.inr ⟨id, topic, rfl⟩)
      · exact .inl rfl
  | call request =>
      rcases call_cases h request with heq | ⟨_, _, _, _, -, ⟨i, -, heq⟩ | ⟨_, -, heq⟩⟩
      · exact .inl (by rw [step, heq])
      · exact .inl (by rw [step, heq]; rfl)
      · exact .inl (by rw [step, heq])
  | leave crashed =>
      rw [step, leave]
      split <;> exact .inl rfl
  | finish =>
      rw [step, finish]
      split <;> exact .inl rfl
  | _ => exact .inl rfl

theorem ordered_run {h : Hub ρ ν} (hc : Consistent h) (ho : h.registry.Ordered)
    (events : List (Event ρ ν)) : (h.run events).registry.Ordered := by
  induction events generalizing h with
  | nil => exact ho
  | cons e events ih =>
      refine ih (consistent_step hc e) ?_
      rcases registry_step_cases h e with heq | ⟨topic, callee, heq⟩ | ⟨id, topic, heq⟩
      · rw [heq]
        exact ho
      · rw [heq]
        exact ho.register hc.registry topic callee
      · rw [heq]
        exact ho.unregister hc.registry id topic

/-! ## Every fan-out is exact -/

/-- A fan-out has just begun on top of `depth` others, and this is what it does, whatever happens
while it is in progress. -/
structure Exact (depth : Nat) (h : Hub ρ ν) (snapshot : List (Registration Callee)) : Prop where
  /-- It is in progress, and it is the innermost one. -/
  begun : h.fanOuts.length = depth + 1
  /-- It calls the snapshot from its front. -/
  inOrder : ∀ events, Within depth h events → calls depth h events <+: snapshot
  /-- When it returns it has called the whole snapshot and nothing else, each call has ended, and it
  returns the count of those that did not break off. -/
  complete : ∀ events count, Returns depth h events count →
    calls depth h events = snapshot ∧ (endings depth h events).length = snapshot.length ∧
      count = (endings depth h events).count false
  /-- At any time, if the running callbacks do nothing more and those that are called do nothing, it
  goes on until it returns, whatever the cells ask for. -/
  returns : ∀ events, Within depth h events → ∀ request : ρ, ∃ more count,
    Returns depth h (events ++ more) count ∧
      ∀ e ∈ more, e = .call request ∨ e = .leave false ∨ e = .finish

/-- Every notification begins a fan-out, which calls exactly what is registered, and this is known of
what is registered: under each topic it stands in the order of registration, and together with what
is registered under other topics in the same order; no number stands for two registrations, nor for
a later one. -/
structure FansOut (h : Hub ρ ν) : Prop where
  notify : ∀ topic, Exact h.fanOuts.length (h.step (.notify topic)) (h.registry.under topic)
  notifyAll : Exact h.fanOuts.length (h.step .notifyAll) h.registry.all
  ordered : ∀ topic, (h.registry.under topic).Pairwise fun a b => a.id < b.id
  sublist : ∀ topic, (h.registry.under topic).Sublist h.registry.all
  mem : ∀ r, r ∈ h.registry.all ↔ ∃ topic, r ∈ h.registry.under topic
  nodup : (h.registry.all.map (·.id)).Nodup
  later : ∀ r ∈ h.registry.all, r.id < h.registry.nextId

/-- A fan-out is exact as it begins. -/
theorem exact_fanOut (h : Hub ρ ν) (snapshot : List (Registration Callee)) :
    Exact h.fanOuts.length (h.fanOut snapshot) snapshot := by
  have hs : Stands h.fanOuts.length (h.fanOut snapshot) ⟨snapshot, false, 0⟩ := ⟨[], _, rfl, rfl⟩
  refine ⟨List.length_cons, ?_, ?_, ?_⟩
  · intro events hin
    rcases advance_run hs events hin with ⟨f, -, hadvance⟩
    exact ⟨f.pending, hadvance.pending⟩
  · intro events count hreturns
    rcases advance_run hs events hreturns.within with ⟨f, hstands, hadvance⟩
    -- What returns is this fan-out, with nothing pending.
    have hf : f = ⟨[], false, count⟩ := by
      rcases returned?_finish.1 hreturns.returned with ⟨outer, hfanOuts, hlen⟩
      rcases hstands.cases hfanOuts with ⟨heq, -⟩ | ⟨hne, -⟩
      · exact heq.symm
      · exact absurd hlen hne
    have hpending := hadvance.pending
    have hran := hadvance.ran
    have hbusy := hadvance.busy
    rw [hf] at hpending hran hbusy
    have hcalls : calls h.fanOuts.length (h.fanOut snapshot) events = snapshot := by
      simpa using hpending
    refine ⟨hcalls, ?_, by simpa using hran⟩
    rw [hcalls] at hbusy
    simpa using hbusy.symm
  · intro events hin request
    rcases advance_run hs events hin with ⟨f, hstands, -⟩
    rcases exists_returns hstands request with ⟨more, count, hreturns, hmore⟩
    refine ⟨more, count, ⟨hin.append hreturns.within, ?_⟩, hmore⟩
    rw [run, List.foldl_append]
    exact hreturns.returned

/-- Whatever was registered and removed before, every notification begins a fan-out; it calls what is
registered when it begins, each once and in the order of registration, however its callbacks register,
remove and begin fan-outs of their own or break off; and it returns the count of those that did not
break off. -/
theorem reentrant_fanOuts (before : List (Event ρ ν)) : FansOut ((empty : Hub ρ ν).run before) := by
  have hc := consistent_run (consistent_empty (ρ := ρ) (ν := ν)) before
  have ho := ordered_run (consistent_empty (ρ := ρ) (ν := ν)) Registry.ordered_empty before
  generalize (empty : Hub ρ ν).run before = h at hc ho
  refine ⟨?_, ?_, ho, ?_, ?_, ?_, ?_⟩
  · intro topic
    exact exact_fanOut h _
  · exact exact_fanOut h _
  · exact Registry.sublist_under_all hc.registry
  · intro r
    exact Registry.mem_all_iff hc.registry
  · rw [← Registry.map_entries, List.map_map]
    exact hc.registry.ids
  · intro r hr
    rw [← Registry.map_entries] at hr
    rcases List.mem_map.1 hr with ⟨e, he, rfl⟩
    exact hc.registry.bound e he

/-- The first of two callbacks is called, removes the second one and registers another. -/
def meddling : List (Event Unit Nat) :=
  [.call (), .unregister 1 .user, .register .user 2]

/-- Two callbacks are called and return. -/
def twoCalls : List (Event Unit Nat) :=
  [.call (), .leave false, .call (), .leave false]

/-- The first callback begins a fan-out of its own before it breaks off.  The outer fan-out still calls
the callback that was removed, and not the one that was registered meanwhile; the inner one calls what
is registered by then.  The outer one counts only the second callback. -/
theorem reentrant_fanOuts_calledBack :
    let outer : Hub Unit Nat :=
      (empty.run [.register .user 0, .register .user 1]).step (.notify .user)
    let inner := (outer.run meddling).step (.notify .user)
    let during := meddling ++ .notify .user :: (twoCalls ++
      [.finish, .leave true, .call (), .leave false])
    (outer.fanOuts.length = 1 ∧ Returns 0 outer during 1 ∧
        calls 0 outer during = [⟨0, .plain 0⟩, ⟨1, .plain 1⟩]) ∧
      inner.fanOuts.length = 2 ∧ Returns 1 inner twoCalls 2 ∧
        calls 1 inner twoCalls = [⟨0, .plain 0⟩, ⟨2, .plain 2⟩] := by
  intro outer inner during
  have houter : Exact 0 outer [⟨0, .plain 0⟩, ⟨1, .plain 1⟩] :=
    (reentrant_fanOuts [.register .user 0, .register .user 1]).notify .user
  have hinner : Exact 1 inner [⟨0, .plain 0⟩, ⟨2, .plain 2⟩] :=
    (reentrant_fanOuts
      (.register .user 0 :: .register .user 1 :: .notify .user :: meddling)).notify .user
  have hduring : Returns 0 outer during 1 := ⟨by decide, rfl⟩
  have htwoCalls : Returns 1 inner twoCalls 2 := ⟨by decide, rfl⟩
  exact ⟨⟨houter.begun, hduring, (houter.complete during 1 hduring).1⟩,
    hinner.begun, htwoCalls, (hinner.complete twoCalls 2 htwoCalls).1⟩

end Hub

end LiveFeed
