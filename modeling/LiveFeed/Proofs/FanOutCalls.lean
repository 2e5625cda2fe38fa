import Mathlib.Data.Nat.Find
import LiveFeed.Proofs.Announcements
import LiveFeed.Proofs.Reentrancy

/-!
# The fan-out of a call

Every call of a run is made on behalf of one fan-out, which some event began over a snapshot of the
registry.  A cell is never registered twice, so a fan-out calls it once at most.

* `Hub.FansOver`, `Hub.exists_fansOver`: every fan-out in progress was begun by some event;
* `Hub.callsTo`, `Hub.FansOver.prefix_snapshot`: what it has called is the front of its snapshot;
* `Hub.Invokes`, `Hub.exists_invokes`: the fan-out that a call belongs to;
* `Hub.Invokes.unique`, `Hub.Invokes.begins_unique`, `Hub.Invokes.observed`: it is one, calls a cell
  once, and was begun while the cell was observed.
-/

namespace LiveFeed

variable {ρ ν : Type}

namespace Hub

/-! ## Where a fan-out begins -/

/-- What a fan-out is going to call that an event begins. -/
def snapshot? (h : Hub ρ ν) : Event ρ ν → Option (List (Registration Callee))
  | .notify topic => some (h.registry.under topic)
  | .notifyAll => some h.registry.all
  | _ => none

theorem step_of_snapshot {h : Hub ρ ν} {e : Event ρ ν} {snapshot : List (Registration Callee)}
    (hs : h.snapshot? e = some snapshot) : h.step e = h.fanOut snapshot := by
  cases e with
  | notify topic =>
      obtain rfl := Option.some.inj hs
      rfl
  | notifyAll =>
      obtain rfl := Option.some.inj hs
      rfl
  | _ => cases hs

/-- Only where a fan-out begins are there more of them than before, and then by one. -/
theorem length_fanOuts_step (h : Hub ρ ν) (e : Event ρ ν) :
    (h.step e).fanOuts.length ≤ h.fanOuts.length ∨ ∃ snapshot, h.snapshot? e = some snapshot := by
  have hsame : ∀ {h' : Hub ρ ν}, h'.fanOuts = h.fanOuts → h'.fanOuts.length ≤ h.fanOuts.length :=
    fun heq => Nat.le_of_eq (congrArg List.length heq)
  cases e with
  | observe i request => exact .inl (hsame (fanOuts_observe h i request))
  | unobserve id => exact .inl (hsame (fanOuts_unobserve h id))
  | unregister id topic => exact .inl (hsame (fanOuts_unregister h id topic))
  | notify topic => exact .inr ⟨_, rfl⟩
  | notifyAll => exact .inr ⟨_, rfl⟩
  | call request =>
      refine .inl ?_
      rcases call_cases h request with heq | ⟨_, _, _, _, hf, ⟨_, -, heq⟩ | ⟨_, -, heq⟩⟩
      · exact hsame (by rw [step, heq])
      · rw [step, heq, hf]
        exact Nat.le_refl _
      · rw [step, heq, hf]
        exact Nat.le_refl _
  | leave crashed =>
      refine .inl ?_
      rw [step, leave]
      split
      · next hf =>
          rw [hf]
          exact Nat.le_refl _
      · exact Nat.le_refl _
  | finish =>
      refine .inl ?_
      rw [step, finish]
      split
      · next hf =>
          rw [hf]
          exact Nat.le_succ _
      · exact Nat.le_refl _
  | _ => exact .inl (hsame rfl)

/-- Event `m` of a run begins a fan-out over a snapshot, which is in progress until point `n`. -/
structure FansOver (events : List (Event ρ ν)) (snapshot : List (Registration Callee)) (m n : Nat) :
    Prop where
  lt : m < n
  begins : ∃ e, events[m]? = some e ∧ ((empty : Hub ρ ν).after events m).snapshot? e = some snapshot
  within : ∀ k, m < k → k ≤ n → ((empty : Hub ρ ν).after events m).fanOuts.length <
    ((empty : Hub ρ ν).after events k).fanOuts.length

/-- Every fan-out in progress was begun by some event. -/
theorem exists_fansOver {events : List (Event ρ ν)} {n depth : Nat}
    (hdepth : depth < ((empty : Hub ρ ν).after events n).fanOuts.length) :
    ∃ m snapshot, FansOver events snapshot m n ∧
      ((empty : Hub ρ ν).after events m).fanOuts.length = depth := by
  classical
  -- It was begun at the last point at which no more than the fan-outs below it were in progress.
  let P : Nat → Prop := fun k => ((empty : Hub ρ ν).after events k).fanOuts.length ≤ depth
  obtain ⟨m, hm⟩ : ∃ m, Nat.findGreatest P n = m := ⟨_, rfl⟩
  -- There is such a point, since at the beginning of the run no fan-out is in progress.
  have hP : P m := hm ▸ Nat.findGreatest_spec (Nat.zero_le n) (Nat.zero_le depth)
  have hle : m ≤ n := hm ▸ Nat.findGreatest_le n
  have hlt : m < n := Nat.lt_of_le_of_ne hle (by rintro rfl; exact absurd hP (Nat.not_le.2 hdepth))
  have hwithin : ∀ k, m < k → k ≤ n →
      depth < ((empty : Hub ρ ν).after events k).fanOuts.length := fun k hmk hkn =>
    Nat.lt_of_not_le (Nat.findGreatest_is_greatest (P := P) (hm.symm ▸ hmk) hkn)
  have hnext := hwithin (m + 1) (Nat.lt_succ_self m) hlt
  rcases (empty : Hub ρ ν).after_succ_cases events m with ⟨e, he, hstep⟩ | ⟨-, hsame⟩
  · rw [hstep] at hnext
    rcases length_fanOuts_step ((empty : Hub ρ ν).after events m) e with hless | ⟨snapshot, hs⟩
    · exact absurd (Nat.lt_of_lt_of_le hnext hless) (Nat.not_lt.2 hP)
    · have hlength : ((empty : Hub ρ ν).after events m).fanOuts.length = depth := by
        rw [step_of_snapshot hs, fanOut, List.length_cons] at hnext
        exact Nat.le_antisymm hP (Nat.le_of_lt_succ hnext)
      exact ⟨m, snapshot, ⟨hlt, ⟨e, he, hs⟩, fun k hmk hkn => hlength ▸ hwithin k hmk hkn⟩, hlength⟩
  · rw [hsame] at hnext
    exact absurd hnext (Nat.not_lt.2 hP)

/-! ## What a fan-out has called -/

/-- What the fan-out calls from point `m + 1` of a run to point `n` that event `m` begins. -/
def callsTo (events : List (Event ρ ν)) (m n : Nat) : List (Registration Callee) :=
  calls ((empty : Hub ρ ν).after events m).fanOuts.length ((empty : Hub ρ ν).after events (m + 1))
    ((events.drop (m + 1)).take (n - (m + 1)))

/-- A fan-out calls its snapshot from the front. -/
theorem FansOver.prefix_snapshot {events : List (Event ρ ν)} {snapshot : List (Registration Callee)}
    {m n : Nat} (h : FansOver events snapshot m n) : callsTo events m n <+: snapshot := by
  obtain ⟨e, he, hs⟩ := h.begins
  have hexact := exact_fanOut ((empty : Hub ρ ν).after events m) snapshot
  rw [← step_of_snapshot hs, ← (empty : Hub ρ ν).after_succ he] at hexact
  -- What is left to show is that it is in progress at every point up to `n`.
  refine hexact.inOrder _ fun k hk => ?_
  have hkn : k ≤ n - (m + 1) := Nat.le_trans hk (List.length_take_le _ _)
  have hlt := h.lt
  have hpoint : ((empty : Hub ρ ν).after events (m + 1)).after
      ((events.drop (m + 1)).take (n - (m + 1))) k = (empty : Hub ρ ν).after events (m + 1 + k) := by
    rw [after_add empty events (m + 1) k]
    exact congrArg (run _) (by rw [List.take_take, Nat.min_eq_left hkn])
  rw [hpoint]
  exact h.within _ (by omega) (by omega)

theorem callsTo_succ {events : List (Event ρ ν)} {m n : Nat} {e : Event ρ ν} (hmn : m < n)
    (he : events[n]? = some e) : callsTo events m (n + 1) = callsTo events m n ++
      (called? ((empty : Hub ρ ν).after events m).fanOuts.length
        ((empty : Hub ρ ν).after events n) e).toList := by
  obtain ⟨j, rfl⟩ : ∃ j, n = m + 1 + j := ⟨n - (m + 1), by omega⟩
  have hj : (events.drop (m + 1))[j]? = some e := by rw [List.getElem?_drop, he]
  have hsub : m + 1 + j + 1 - (m + 1) = j + 1 := by omega
  rw [callsTo, callsTo, calls, calls, hsub, Nat.add_sub_cancel_left, List.take_add_one, hj,
    Option.toList_some, seen_concat, after_add empty events (m + 1) j]
  rfl

theorem callsTo_prefix {events : List (Event ρ ν)} {m n n' : Nat} (hn : n ≤ n') :
    callsTo events m n <+: callsTo events m n' := by
  obtain ⟨more, hmore⟩ : (events.drop (m + 1)).take (n - (m + 1)) <+:
      (events.drop (m + 1)).take (n' - (m + 1)) :=
    List.take_prefix_take_left (Nat.sub_le_sub_right hn _)
  rw [callsTo, callsTo, ← hmore, calls, calls, seen_append]
  exact List.prefix_append _ _

/-! ## The fan-out of a call -/

/-- Event `n` of a run calls the registration `r`, on behalf of the fan-out that event `m` begins and
whose snapshot contains it. -/
structure Invokes (events : List (Event ρ ν)) (r : Registration Callee) (m n : Nat) : Prop where
  fanOut : ∃ snapshot, FansOver events snapshot m n ∧ r ∈ snapshot
  called : ∃ e, events[n]? = some e ∧
    called? ((empty : Hub ρ ν).after events m).fanOuts.length ((empty : Hub ρ ν).after events n) e =
      some r

theorem called?_eq_some {depth : Nat} {h : Hub ρ ν} {e : Event ρ ν} {r : Registration Callee} :
    called? depth h e = some r ↔ ∃ request pending ran outer, e = .call request ∧
      h.fanOuts = ⟨r :: pending, false, ran⟩ :: outer ∧ outer.length = depth := by
  constructor
  · intro hcalled
    cases e with
    | call request =>
        rw [called?] at hcalled
        split at hcalled
        · next hf =>
            split at hcalled
            · next hlen =>
                cases hcalled
                exact ⟨request, _, _, _, rfl, hf, hlen⟩
            · cases hcalled
        · cases hcalled
    | _ => cases hcalled
  · rintro ⟨request, pending, ran, outer, rfl, hf, hlen⟩
    simp [called?, hf, hlen]

/-- A fan-out that calls is still in progress afterwards. -/
theorem FansOver.succ {events : List (Event ρ ν)} {snapshot : List (Registration Callee)} {m n : Nat}
    (h : FansOver events snapshot m n) {request : ρ} (he : events[n]? = some (.call request)) :
    FansOver events snapshot m (n + 1) := by
  refine ⟨Nat.lt_succ_of_lt h.lt, h.begins, fun k hmk hkn => ?_⟩
  rcases Nat.lt_or_eq_of_le hkn with hlt | rfl
  · exact h.within k hmk (Nat.le_of_lt_succ hlt)
  · have hn := h.within n h.lt (Nat.le_refl n)
    rw [(empty : Hub ρ ν).after_succ he, step]
    rcases call_cases ((empty : Hub ρ ν).after events n) request with
      heq | ⟨_, _, _, _, hf, ⟨_, -, heq⟩ | ⟨_, -, heq⟩⟩
    · rwa [heq]
    · rw [hf] at hn
      rw [heq]
      exact hn
    · rw [hf] at hn
      rw [heq]
      exact hn

/-- Every call is made on behalf of a fan-out whose snapshot contains what is called. -/
theorem exists_invokes {events : List (Event ρ ν)} {n : Nat} {request : ρ}
    {r : Registration Callee} {pending : List (Registration Callee)} {ran : Nat}
    {outer : List FanOut} (he : events[n]? = some (.call request))
    (hf : ((empty : Hub ρ ν).after events n).fanOuts = ⟨r :: pending, false, ran⟩ :: outer) :
    ∃ m, Invokes events r m n := by
  have hdepth : outer.length < ((empty : Hub ρ ν).after events n).fanOuts.length := by
    rw [hf]
    exact Nat.lt_succ_self _
  obtain ⟨m, snapshot, hover, hlength⟩ := exists_fansOver hdepth
  have hcalled : called? outer.length ((empty : Hub ρ ν).after events n) (.call request) = some r :=
    called?_eq_some.2 ⟨request, pending, ran, outer, rfl, hf, rfl⟩
  refine ⟨m, ⟨snapshot, hover, ?_⟩, .call request, he, hlength ▸ hcalled⟩
  -- What it calls is among what it has called at the next point.
  refine (hover.succ he).prefix_snapshot.subset ?_
  rw [callsTo_succ hover.lt he, hlength, hcalled]
  exact List.mem_append_right _ (List.mem_singleton_self r)

/-- No snapshot contains two registrations of a cell. -/
theorem countP_snapshot {h : Hub ρ ν} (hh : Consistent h) {e : Event ρ ν}
    {snapshot : List (Registration Callee)} (hs : h.snapshot? e = some snapshot) (i : Nat) :
    snapshot.countP (fun r => r.callback = .cell i) ≤ 1 := by
  have hall : h.registry.all.countP (fun r => r.callback = .cell i) ≤ 1 := by
    have hlength := length_registrationsOf hh i
    rw [registrationsOf, ← List.countP_eq_length_filter] at hlength
    rw [← Registry.map_entries, List.countP_map]
    exact hlength
  cases e with
  | notify topic =>
      obtain rfl := Option.some.inj hs
      exact Nat.le_trans (Registry.sublist_under_all hh.registry topic).countP_le hall
  | notifyAll =>
      obtain rfl := Option.some.inj hs
      exact hall
  | _ => cases hs

/-- A fan-out calls a cell once at most. -/
theorem Invokes.unique {events : List (Event ρ ν)} {r r' : Registration Callee} {i m n n' : Nat}
    (h : Invokes events r m n) (h' : Invokes events r' m n') (hr : r.callback = .cell i)
    (hr' : r'.callback = .cell i) : n = n' := by
  -- Otherwise its snapshot would contain the registration that is called first and the other one.
  have hnot : ∀ {r r' : Registration Callee} {n n' : Nat}, Invokes events r m n →
      Invokes events r' m n' → r.callback = .cell i → r'.callback = .cell i → ¬ n < n' := by
    rintro r r' n n' ⟨⟨snapshot, hover, -⟩, e, he, hcalled⟩ ⟨⟨snapshot', hover', -⟩, e', he', hcalled'⟩
      hr hr' hlt
    obtain ⟨request, -, -, -, rfl, -⟩ := called?_eq_some.1 hcalled'
    obtain ⟨more, hmore⟩ : callsTo events m (n + 1) <+: callsTo events m n' := callsTo_prefix hlt
    have hfront := (hover'.succ he').prefix_snapshot
    rw [callsTo_succ hover'.lt he', hcalled', ← hmore, callsTo_succ hover.lt he, hcalled] at hfront
    obtain ⟨b, -, hs⟩ := hover'.begins
    have hconsistent : Consistent ((empty : Hub ρ ν).after events m) :=
      consistent_run consistent_empty _
    have hcount := Nat.le_trans (hfront.sublist.countP_le
      (p := fun r => r.callback = .cell i)) (countP_snapshot hconsistent hs i)
    simp [hr, hr'] at hcount
    omega
  exact Nat.le_antisymm (Nat.le_of_not_lt (hnot h' h hr' hr)) (Nat.le_of_not_lt (hnot h h' hr hr'))

/-- A call belongs to one fan-out. -/
theorem Invokes.begins_unique {events : List (Event ρ ν)} {r r' : Registration Callee} {m m' n : Nat}
    (h : Invokes events r m n) (h' : Invokes events r' m' n) : m = m' := by
  obtain ⟨⟨_, hover, -⟩, e, he, hcalled⟩ := h
  obtain ⟨⟨_, hover', -⟩, e', he', hcalled'⟩ := h'
  obtain ⟨_, _, _, outer, -, hf, hlength⟩ := called?_eq_some.1 hcalled
  obtain ⟨_, _, _, outer', -, hf', hlength'⟩ := called?_eq_some.1 hcalled'
  -- Both stand on the same fan-outs, and each was in progress from its beginning on.
  obtain rfl : outer' = outer := (List.cons.inj (hf'.symm.trans hf)).2
  refine Nat.le_antisymm (Nat.le_of_not_lt fun hlt => ?_) (Nat.le_of_not_lt fun hlt => ?_)
  · have := hover'.within m hlt (Nat.le_of_lt hover.lt)
    omega
  · have := hover.within m' hlt (Nat.le_of_lt hover'.lt)
    omega

/-- A fan-out that calls a cell was begun over everything, or over the topic of the cell, while the
cell was observed. -/
theorem Invokes.observed {events : List (Event ρ ν)} {r : Registration Callee} {i m n : Nat}
    (h : Invokes events r m n) (hr : r.callback = .cell i) :
    ∃ c, ((empty : Hub ρ ν).after events m).cells[i]? = some c ∧ 0 < c.observers ∧
      (events[m]? = some (.notify c.topic) ∨ events[m]? = some .notifyAll) := by
  obtain ⟨⟨snapshot, ⟨-, ⟨e, he, hs⟩, -⟩, hmem⟩, -⟩ := h
  have hh : Consistent ((empty : Hub ρ ν).after events m) := consistent_run consistent_empty _
  have hcell : ∀ t, (t, r) ∈ ((empty : Hub ρ ν).after events m).registry.entries →
      ∃ c, ((empty : Hub ρ ν).after events m).cells[i]? = some c ∧ 0 < c.observers ∧
        c.topic = t := by
    intro t ht
    have hc := List.getElem?_eq_getElem (hh.registeredCells _ ht i hr)
    exact ⟨_, hc, (exists_entry_iff hh hc t).1 ⟨r, ht, hr⟩⟩
  cases e with
  | notify topic =>
      obtain rfl := Option.some.inj hs
      obtain ⟨c, hc, hpos, rfl⟩ := hcell topic (Registry.mem_entries_of_mem_under hh.registry hmem)
      exact ⟨c, hc, hpos, .inl he⟩
  | notifyAll =>
      obtain rfl := Option.some.inj hs
      obtain ⟨t, ht⟩ := (Registry.mem_all_iff hh.registry).1 hmem
      obtain ⟨c, hc, hpos, -⟩ := hcell t (Registry.mem_entries_of_mem_under hh.registry ht)
      exact ⟨c, hc, hpos, .inr he⟩
  | _ => cases hs

end Hub

end LiveFeed
