import LiveFeed.Proofs.RetryPolicy

/-!
# Retries without a limit

A link that sets no limit gives up at permanent errors only, and every other failure is followed by another
attempt.  Its failures in a row are counted all the same, and the count has an end: the failure that can
no longer be counted breaks off the loop, and the status still says that an attempt is under way.

* `Link.refusal_none`: what follows from a failed attempt, when any number of them is allowed;
* `System.Stumbles`: attempts that fail for a reason that may pass;
* `System.endless_retries`: how long such attempts are followed by others;
* `System.retries_break_off`: a run with more failures in a row than can be counted.
-/

namespace LiveFeed

variable {ρ ν : Type}

namespace Link

/-- Without a limit, a failure that may pass is followed by another attempt if and only if it can be
counted. -/
theorem refusal_none (failures : UInt32) {e : SocketError} (h : e.isPermanent = false) :
    (failures.toNat + 1 < UInt32.size ∧ ∃ failures', refusal none failures e = .retry failures') ∨
      (failures.toNat + 1 = UInt32.size ∧ refusal none failures e = .crash) := by
  by_cases hlast : failures.toNat + 1 = UInt32.size
  · exact .inr ⟨hlast, by simp [refusal, h, hlast]⟩
  · exact .inl ⟨Nat.lt_of_le_of_ne failures.toNat_lt hlast, failures + 1, by simp [refusal, h, hlast]⟩

/-- Nothing moves a loop that is done. -/
theorem Trial.eq_of_isDone {l l' : Link} {now : Nat} {c : Option Event} {r : RunLoop}
    (h : l.Trial now c l') (hr : l.loops = [r]) (hdone : r.stage.isDone = true) : l' = l := by
  cases h with
  | rest quiet => rfl
  | spawn loopless | refuse loopless =>
      rw [hr] at loopless
      cases loopless
  | @move c r₁ r' effects loop move =>
      obtain rfl : r₁ = r := by simpa [loop] using hr
      rw [move.not_done] at hdone
      cases hdone

/-- Without a limit, a link gives up at the permanent errors. -/
theorem Trial.fails_iff_of_none {l l' : Link} {now limit missed : Nat} {c : Option Event}
    (h : l.Trial now c l') (hl : l.Retries limit missed) (hnone : l.config.limit = none) :
    l'.status.hasFailed = true ∧ l.status.hasFailed = false ↔
      ∃ e, c.bind l.outcome? = some (.error e) ∧ e.isPermanent = true := by
  constructor
  · rintro ⟨hafter, hbefore⟩
    rcases h.outcome_of_fails hafter hbefore with ⟨e, hout⟩
    refine ⟨e, hout, ?_⟩
    rcases h.refused hl hout with ⟨-, -, failures, -, hrefusal⟩
    rw [hnone] at hrefusal
    cases hpermanent : e.isPermanent with
    | true => rfl
    | false =>
        -- What may pass leads to a pause, or it breaks off the loop, and neither is a failure.
        rcases refusal_none failures hpermanent with ⟨-, failures', heq⟩ | ⟨-, heq⟩
        all_goals
          rw [heq] at hrefusal
          rw [hrefusal.1] at hafter
          cases hafter
  · rintro ⟨e, hout, hpermanent⟩
    rcases h.refused hl hout with ⟨hbefore, -, failures, -, hrefusal⟩
    rw [refusal_of_isPermanent hpermanent] at hrefusal
    exact ⟨hrefusal, hbefore⟩

end Link

namespace System

variable (s : System ρ ν) (events : List (Event ρ ν))

/-- With event `n` of a run an attempt fails, for a reason that may pass. -/
def Stumbles (n : Nat) : Prop :=
  ∃ e error, events[n]? = some e ∧ (s.after events n).outcome? e = some (.error error) ∧
    error.isPermanent = false

/-- At point `n` of a run the only loop is broken off in an attempt, and the status does not say so. -/
def BrokenOff (n : Nat) : Prop :=
  (s.after events n).link.status = .connecting ∧
    ∃ r, (s.after events n).link.loops = [r] ∧ r.stage = .crashed

variable {s events}

theorem Steady.fails_iff {limit : Nat} (h : Steady limit s events)
    (hnone : s.link.config.limit = none) (n : Nat) :
    s.Fails events n ↔ ∃ e error, events[n]? = some e ∧
      (s.after events n).outcome? e = some (.error error) ∧ error.isPermanent = true := by
  refine fails_iff_of_events fun e he => ?_
  rcases h.trial he with ⟨hpoint, htrial⟩
  exact htrial.fails_iff_of_none hpoint.retries (hpoint.config ▸ hnone)

theorem untried_create (config : LinkConfig) (scheme : String) :
    (create config scheme : System ρ ν).link.Untried 0 :=
  ⟨⟨rfl, rfl, rfl, .inl rfl⟩, rfl, nofun, fun _ => rfl⟩

/-- The count of a loop that has not come to its end is the number of failures in a row. -/
theorem Steady.counter {limit : Nat} (h : Steady limit s events) {n : Nat} (hn : n ≤ events.length)
    {r : RunLoop} (hr : r ∈ (s.after events n).link.loops) (hdone : r.stage.isDone = false) :
    r.failures.toNat = s.misses events n := by
  cases (h.point hn).retries with
  | untried hu =>
      rw [hu.unstarted.loops] at hr
      cases hr
  | trying r' ht =>
      rw [ht.loops] at hr
      obtain rfl := List.mem_singleton.1 hr
      exact ht.failures hdone

/-- A failure that may pass is one more in a row, and is followed by a pause or breaks off the loop. -/
theorem Steady.stumbles {limit : Nat} (h : Steady limit s events)
    (hnone : s.link.config.limit = none) {n : Nat} (hstumbles : s.Stumbles events n) :
    s.misses events (n + 1) = s.misses events n + 1 ∧
      (s.misses events n + 1 < UInt32.size ∧
          (s.after events (n + 1)).link.status = .reconnecting ∧
          s.PausesUntil events (n + 1) ((s.after events n).now + s.link.config.pause) ∨
        s.misses events n + 1 = UInt32.size ∧ s.BrokenOff events (n + 1)) := by
  rcases hstumbles with ⟨e, error, he, hout, hpass⟩
  rcases h.trial he with ⟨hpoint, htrial⟩
  rcases htrial.refused hpoint.retries hout with ⟨-, -, failures, hfailures, hrefusal⟩
  rw [hpoint.config, hnone] at hrefusal
  rw [← hfailures]
  refine ⟨?_, ?_⟩
  · rw [misses_succ he, Link.missedAfter]
    rw [System.outcome?] at hout
    simp [hout, countFailures, hpass, hfailures]
  · rcases Link.refusal_none failures hpass with ⟨hlt, failures', heq⟩ | ⟨hlast, heq⟩
    · rw [heq] at hrefusal
      rcases hrefusal with ⟨hstatus, r, hr, stage⟩
      rw [hpoint.config] at stage
      refine .inl ⟨hlt, hstatus, ?_, r, hr, stage⟩
      -- The clock stands still while the attempt fails.
      have hnow : (s.after events (n + 1)).now = (s.after events n).now := by
        rw [s.after_succ he]
        refine (change_step _ e).now_eq ?_
        rintro time rfl
        cases hout
      rw [hnow]
      exact Nat.le_add_right _ _
    · rw [heq] at hrefusal
      exact .inr ⟨hlast, hrefusal⟩

/-- What was broken off stays so. -/
theorem Steady.brokenOff {limit : Nat} (h : Steady limit s events) {m n : Nat} (hmn : m ≤ n)
    (hbroken : s.BrokenOff events m) : s.BrokenOff events n ∧ ¬ s.Begins events n := by
  have hafter : ∀ k, m ≤ k → s.BrokenOff events k := by
    intro k hmk
    refine after_induction (motive := fun s => s.link.status = .connecting ∧
      ∃ r, s.link.loops = [r] ∧ r.stage = .crashed) hmk hbroken ?_
    rintro k e - - he ⟨hstatus, r, hr, stage⟩
    have hsame := (h.trial he).2.eq_of_isDone hr (by rw [stage]; rfl)
    rw [← s.after_succ he, hsame]
    exact ⟨hstatus, r, hr, stage⟩
  refine ⟨hafter n hmn, ?_⟩
  rintro ⟨-, hattempts⟩
  rcases hafter (n + 1) (Nat.le_succ_of_le hmn) with ⟨-, r, hr, stage⟩
  rcases (Link.attempts_iff hr).1 hattempts with ⟨since, hsince⟩
  rw [stage] at hsince
  cases hsince

/-- What becomes of the failed attempts of a link that sets no limit. -/
structure EndlessRetries (s : System ρ ν) (events : List (Event ρ ν)) : Prop where
  /-- It gives up at an error that is permanent, and never otherwise. -/
  fails : ∀ n, s.Fails events n ↔ ∃ e error, events[n]? = some e ∧
    (s.after events n).outcome? e = some (.error error) ∧ error.isPermanent = true
  /-- The loop counts the failures in a row. -/
  counter : ∀ n, n ≤ events.length → ∀ r ∈ (s.after events n).link.loops,
    r.stage.isDone = false → r.failures.toNat = s.misses events n
  /-- Every other failure is one more of these, and there are never more than the counter has values. -/
  counted : ∀ n, s.Stumbles events n → s.misses events (n + 1) = s.misses events n + 1 ∧
    s.misses events (n + 1) ≤ UInt32.size
  /-- As long as they can be counted, the next attempt begins when the pause is over. -/
  again : ∀ m n, s.Stumbles events m → s.misses events (m + 1) < UInt32.size → m < n →
    n ≤ events.length → (s.after events (m + 1)).link.status = .reconnecting ∧
      ((s.PausesUntil events n ((s.after events m).now + s.link.config.pause) ∧
          ∀ k, m < k → k < n → ¬ s.Begins events k) ∨
        ∃ k, m < k ∧ k < n ∧ s.Begins events k ∧
          (s.after events k).now = (s.after events m).now + s.link.config.pause)
  /-- When they can no longer be counted, the loop is broken off, and no attempt begins any more. -/
  breaksOff : ∀ m n, s.Stumbles events m → s.misses events (m + 1) = UInt32.size → m < n →
    s.BrokenOff events n ∧ ¬ s.Begins events n

/-- Without a limit, and as long as nobody disposes of the link or lets go of it, failures that may pass
are followed by further attempts until they can no longer be counted. -/
theorem endless_retries (config : LinkConfig) (scheme : String) (hlimit : config.limit = none)
    (events : List (Event ρ ν)) (hevents : Undisturbed events) :
    EndlessRetries (create config scheme) events := by
  have hnone : (create config scheme : System ρ ν).link.config.limit = none := hlimit
  have h : Steady UInt32.size (create config scheme) events :=
    ⟨.untried (untried_create config scheme), by rw [hnone]; rfl, hevents⟩
  refine ⟨h.fails_iff hnone, fun n hn r => h.counter hn, ?_, ?_, ?_⟩
  · intro n hstumbles
    rcases h.stumbles hnone hstumbles with ⟨hsucc, ⟨hlt, -⟩ | ⟨hlast, -⟩⟩
    · exact ⟨hsucc, by omega⟩
    · exact ⟨hsucc, by omega⟩
  · intro m n hstumbles hlt hmn hn
    rcases h.stumbles hnone hstumbles with ⟨hsucc, ⟨-, hstatus, hpause⟩ | ⟨hlast, -⟩⟩
    · exact ⟨hstatus, h.waits_or_begins hpause hmn hn⟩
    · omega
  · intro m n hstumbles hlast hmn
    rcases h.stumbles hnone hstumbles with ⟨hsucc, ⟨hlt, -⟩ | ⟨-, hbroken⟩⟩
    · omega
    · exact h.brokenOff hmn hbroken

/-- Two failures, a session that ends, and another failure. -/
def stumbling : List (Event Unit Nat) :=
  [.connect, .start 0, .deny 0 .closed, .pass 1000, .resume 0, .deny 0 .closed, .pass 2000, .resume 0,
    .grant 0, .hub .finish, .follow 0, .close 0, .read 0, .pass 3000, .resume 0, .deny 0 .closed]

theorem endless_retries_stumbling : LinkConfig.default.limit = none ∧ Undisturbed stumbling ∧
    EndlessRetries (create LinkConfig.default "ws" : System Unit Nat) stumbling ∧
      ((create LinkConfig.default "ws" : System Unit Nat).run stumbling).published =
        [.reconnecting, .connecting, .reconnecting, .connected, .connecting, .reconnecting,
          .connecting, .reconnecting, .connecting] := by
  have hevents : Undisturbed stumbling := by simp [Undisturbed, stumbling]
  exact ⟨rfl, hevents, endless_retries LinkConfig.default "ws" rfl stumbling hevents, by decide⟩

/-! ## More failures than can be counted -/

theorem step_deny (hidle : s.hub.fanOuts = []) {since : Nat} {failures : UInt32}
    (hloops : s.link.loops = [⟨.attempting since, failures, false⟩]) (e : SocketError) :
    s.step (.deny 0 e) = { s with attempts := s.attempts + 1 }.turn (.refused 0 e) := by
  simp [step, whenIdle, hidle, deny, isAttempting, Link.stageOf, hloops]

theorem step_deny_of_retry (hidle : s.hub.fanOuts = []) {since : Nat} {failures failures' : UInt32}
    (hloops : s.link.loops = [⟨.attempting since, failures, false⟩]) {e : SocketError}
    (hretry : Link.refusal s.link.config.limit failures e = .retry failures') :
    s.step (.deny 0 e) =
      { s with
        attempts := s.attempts + 1
        link := { s.link with
          status := .reconnecting
          loops := [⟨.pausing (s.now + s.link.config.pause), failures', false⟩] }
        published := .reconnecting :: s.published } := by
  rw [step_deny hidle hloops]
  simp [turn, Link.step, Link.refused, Link.stageOf, hloops, hretry, Link.modifyLoop, Link.publish,
    cause]

theorem step_deny_of_crash (hidle : s.hub.fanOuts = []) {since : Nat} {failures : UInt32}
    (hloops : s.link.loops = [⟨.attempting since, failures, false⟩]) {e : SocketError}
    (hcrash : Link.refusal s.link.config.limit failures e = .crash) :
    s.step (.deny 0 e) =
      { s with
        attempts := s.attempts + 1
        link := { s.link with loops := [⟨.crashed, failures, false⟩] } } := by
  rw [step_deny hidle hloops]
  simp [turn, Link.step, Link.refused, Link.stageOf, hloops, hcrash, Link.modifyLoop, Link.moveTo]

/-- When the pause is over, the next attempt begins. -/
theorem run_pass_resume (hidle : s.hub.fanOuts = []) {due : Nat} {failures : UInt32}
    (hloops : s.link.loops = [⟨.pausing due, failures, false⟩]) (hnow : s.now ≤ due) :
    s.run [.pass due, .resume 0] =
      { s with
        now := due
        link := { s.link with
          status := .connecting
          loops := [⟨.attempting due, failures, false⟩] }
        published := .connecting :: s.published } := by
  have hpass : s.step (.pass due) = { s with now := due } := by
    simp [step, pass, hloops, Stage.due?, hnow]
  have hrun : s.run [.pass due, .resume 0] = (s.step (.pass due)).step (.resume 0) := rfl
  rw [hrun, hpass]
  simp [step, whenIdle, hidle, turn, Link.step, Link.resume, Link.stageOf, hloops, Link.moveTo,
    Link.modifyLoop, Link.publish, cause]

/-- A denied attempt, and the pause up to the next one. -/
def futileRound (i : Nat) : List (Event Unit Nat) :=
  [.deny 0 .closed, .pass (1000 * (i + 1)), .resume 0]

/-- So many denied attempts one after the other. -/
def futileRounds (n : Nat) : List (Event Unit Nat) :=
  [.connect, .start 0] ++ (List.range n).flatMap futileRound

/-- After so many denied attempts a link with the defaults is in the next one. -/
structure Futile (n : Nat) (s : System Unit Nat) : Prop where
  idle : s.hub.fanOuts = []
  now : s.now = 1000 * n
  attempts : s.attempts = n
  config : s.link.config = LinkConfig.default
  status : s.link.status = .connecting
  loops : ∃ since failures, s.link.loops = [⟨.attempting since, failures, false⟩] ∧ failures.toNat = n

theorem Futile.round {n : Nat} {s : System Unit Nat} (h : Futile n s) (hn : n + 1 < UInt32.size) :
    Futile (n + 1) (s.run (futileRound n)) := by
  obtain ⟨since, failures, hloops, hfailures⟩ := h.loops
  have hlimit : s.link.config.limit = none := by rw [h.config]; rfl
  have hpause : s.now + s.link.config.pause = 1000 * (n + 1) := by rw [h.now, h.config]; rfl
  rcases Link.refusal_none failures (e := .closed) rfl with ⟨-, failures', hretry⟩ | ⟨hlast, -⟩
  · have hcount := (Link.refusal_retry hretry).2.1
    rw [← hlimit] at hretry
    have hdeny := step_deny_of_retry h.idle hloops hretry
    rw [hpause] at hdeny
    have hrun : s.run (futileRound n) =
        (s.step (.deny 0 .closed)).run [.pass (1000 * (n + 1)), .resume 0] := rfl
    have hidle : (s.step (.deny 0 .closed)).hub.fanOuts = [] := by rw [hdeny]; exact h.idle
    have hnow : (s.step (.deny 0 .closed)).now ≤ 1000 * (n + 1) := by
      rw [hdeny, ← hpause]
      exact Nat.le_add_right _ _
    rw [hrun, run_pass_resume hidle (by rw [hdeny]) hnow]
    refine ⟨hidle, rfl, ?_, ?_, rfl, _, failures', rfl, by rw [hcount, hfailures]⟩
    · rw [hdeny]
      exact congrArg (· + 1) h.attempts
    · rw [hdeny]
      exact h.config
  · omega

theorem futile_futileRounds {n : Nat} (hn : n < UInt32.size) :
    Futile n ((create LinkConfig.default "ws").run (futileRounds n)) := by
  induction n with
  | zero => exact ⟨rfl, rfl, rfl, rfl, rfl, 0, 0, rfl, rfl⟩
  | succ n ih =>
      have hround := (ih (Nat.lt_of_succ_lt hn)).round hn
      have hrounds : futileRounds (n + 1) = futileRounds n ++ futileRound n := by
        simp [futileRounds, List.range_succ]
      rw [hrounds, run, List.foldl_append]
      exact hround

theorem undisturbed_futileRounds (n : Nat) : Undisturbed (futileRounds n) := by
  intro e he
  rcases List.mem_append.1 he with hfirst | hround
  · simp only [List.mem_cons, List.not_mem_nil, or_false] at hfirst
    rcases hfirst with rfl | rfl <;> simp
  · rcases List.mem_flatMap.1 hround with ⟨i, -, hi⟩
    simp only [futileRound, List.mem_cons, List.not_mem_nil, or_false] at hi
    rcases hi with rfl | rfl | rfl <;> simp

/-- The denial that can no longer be counted breaks off the loop. -/
theorem Futile.breakOff {n : Nat} {s : System Unit Nat} (h : Futile n s) (hn : n + 1 = UInt32.size) :
    (s.step (.deny 0 .closed)).attempts = n + 1 ∧
      (s.step (.deny 0 .closed)).link.status = .connecting ∧
      ∃ r, (s.step (.deny 0 .closed)).link.loops = [r] ∧ r.stage = .crashed := by
  obtain ⟨since, failures, hloops, hfailures⟩ := h.loops
  have hlimit : s.link.config.limit = none := by rw [h.config]; rfl
  rcases Link.refusal_none failures (e := .closed) rfl with ⟨hlt, -⟩ | ⟨-, hcrash⟩
  · omega
  · rw [← hlimit] at hcrash
    rw [step_deny_of_crash h.idle hloops hcrash]
    exact ⟨congrArg (· + 1) h.attempts, h.status, _, rfl, rfl⟩

theorem futile_brokenOff {n : Nat} (hn : n + 1 = UInt32.size) :
    let events := futileRounds n ++ [.deny 0 .closed]
    Undisturbed events ∧ ((create LinkConfig.default "ws").run events).attempts = UInt32.size ∧
      ∀ more, Undisturbed more →
        (create LinkConfig.default "ws").BrokenOff (events ++ more) (events ++ more).length := by
  intro events
  have hevents : Undisturbed events := by
    refine List.forall_mem_append.2 ⟨undisturbed_futileRounds n, ?_⟩
    exact List.forall_mem_singleton.2 (by simp)
  have hrun : (create LinkConfig.default "ws").run events =
      ((create LinkConfig.default "ws").run (futileRounds n)).step (.deny 0 .closed) := by
    rw [run, List.foldl_append]
    rfl
  rcases (futile_futileRounds (n := n) (by omega)).breakOff hn with ⟨hattempts, hbroken⟩
  rw [← hrun] at hattempts hbroken
  refine ⟨hevents, hattempts.trans hn, fun more hmore => ?_⟩
  have hsteady : Steady UInt32.size (create LinkConfig.default "ws") (events ++ more) :=
    ⟨.untried (untried_create _ _), rfl, List.forall_mem_append.2 ⟨hevents, hmore⟩⟩
  have hthen : (create LinkConfig.default "ws").BrokenOff (events ++ more) events.length := by
    rw [BrokenOff, after, List.take_left]
    exact hbroken
  exact (hsteady.brokenOff (by simp) hthen).1

/-- The link's defaults set no limit, and still it is broken off for good after as many denials in a row
as a counter has values, whatever happens then. -/
theorem retries_break_off :
    let events := futileRounds (UInt32.size - 1) ++ [.deny 0 .closed]
    LinkConfig.default.limit = none ∧ Undisturbed events ∧
      ((create LinkConfig.default "ws").run events).attempts = UInt32.size ∧
      ∀ more, Undisturbed more →
        (create LinkConfig.default "ws").BrokenOff (events ++ more) (events ++ more).length :=
  ⟨rfl, futile_brokenOff (by decide)⟩

end System

end LiveFeed
