import LiveFeed.Proofs.LinkTrials
import LiveFeed.Proofs.Turns

/-!
# When the link tries again, and when it gives up

A link that is neither disposed of nor let go of gives up at the first permanent error, or when so
many attempts failed in a row as its configuration allows.  Until then every failed attempt and every
end of a session is followed by one attempt, as soon as the pause is over.

* `System.outcome?`, `System.misses`: the outcomes of attempts, and how many failed in a row;
* `System.Fails`, `System.Setback`, `System.Begins`: events of a run that matter here;
* `System.Point`, `System.Steady.point`: what holds of the link at every point of a run;
* `System.retry_policy`: when the link gives up, and when it tries again.
-/

namespace LiveFeed

variable {ρ ν : Type}

namespace System

/-- The outcome of an attempt that an event tells of. -/
def outcome? (s : System ρ ν) (e : Event ρ ν) : Option (Except SocketError Unit) :=
  (s.turn? e).bind s.link.outcome?

variable (s : System ρ ν) (events : List (Event ρ ν))

/-- How many attempts failed in a row before event `n` of a run. -/
def misses (n : Nat) : Nat :=
  (seen step (fun s e => (outcome? s e).toList) s (events.take n)).foldl countFailures 0

/-- The link gives up with event `n` of a run. -/
def Fails (n : Nat) : Prop :=
  (s.after events (n + 1)).link.status.hasFailed = true ∧
    (s.after events n).link.status.hasFailed = false

/-- A session ends with event `n` of a run, by its stream or by its sink. -/
def Ends (n : Nat) : Prop :=
  ∃ e c, events[n]? = some e ∧ (s.after events n).turn? e = some c ∧ c.ends = true

/-- With event `n` of a run a loop meets an error of the session that it follows: the stream yields
one, or a sign of life that is due cannot be sent. -/
def MeetsError (n : Nat) : Prop :=
  (s.after events n).hub.fanOuts = [] ∧
    ∃ loop k due x, (s.after events n).link.stageOf loop = .live k due ∧
      (s.after events n).sessions[k]? = some x ∧
      (events[n]? = some (.read loop) ∧ (∃ error rest, x.inbound = .error error :: rest) ∨
        events[n]? = some (.beat loop) ∧ due ≤ (s.after events n).now ∧ x.takes = false)

/-- A session ends with event `n` of a run, or an attempt fails that is not the last one. -/
def Setback (n : Nat) : Prop :=
  s.Ends events n ∨
    (∃ e error, events[n]? = some e ∧ (s.after events n).outcome? e = some (.error error)) ∧
      ¬ s.Fails events n

/-- An attempt begins with event `n` of a run. -/
def Begins (n : Nat) : Prop :=
  ¬ (s.after events n).link.Attempts ∧ (s.after events (n + 1)).link.Attempts

/-- The link is neither disposed of nor let go of. -/
def Undisturbed : Prop :=
  ∀ e ∈ events, e ≠ .dispose ∧ e ≠ .drop

variable {s events}

/-! ## Points of a run -/

theorem able_of_turn? {e : Event ρ ν} {c : Link.Event} (h : s.turn? e = some c) :
    s.link.Able s.now c := by
  cases e with
  | connect | dispose | disposed _ | drop =>
      cases h
      trivial
  | start loop | follow loop | resume loop | stop loop =>
      rcases whenIdle?_eq_some.1 h with ⟨-, hc⟩
      cases hc
      trivial
  | grant loop | deny loop _ =>
      rcases whenIdle?_eq_some.1 h with ⟨-, hc⟩
      rcases Option.ite_none_right_eq_some.1 hc with ⟨hattempting, hc⟩
      cases hc
      rcases exists_attempting hattempting with ⟨r, since, hr, hstage⟩
      exact ⟨since, (Link.stageOf_of_getElem? hr).trans hstage⟩
  | read loop =>
      rcases whenIdle?_eq_some.1 h with ⟨-, hc⟩
      rcases Option.map_eq_some_iff.1 hc with ⟨⟨k, frame⟩, hreads, rfl⟩
      rcases reads?_eq_some.1 hreads with ⟨due, x, hs, -, -⟩
      cases frame with
      | some frame => trivial
      | none => exact ⟨k, due, hs⟩
  | beat loop =>
      rcases whenIdle?_eq_some.1 h with ⟨-, hc⟩
      rcases Option.map_eq_some_iff.1 hc with ⟨⟨k, sent⟩, hbeats, rfl⟩
      rcases beats?_eq_some.1 hbeats with ⟨due, x, hs, -, late, -⟩
      exact ⟨k, due, hs, late⟩
  | _ => cases h

theorem trial_step {limit missed : Nat} (h : s.link.Retries limit missed) {e : Event ρ ν}
    (hdispose : e ≠ .dispose) (hdrop : e ≠ .drop) :
    s.link.Trial s.now (s.turn? e) (s.step e).link := by
  rw [link_step]
  cases hturn : s.turn? e with
  | none => exact .rest (by simp)
  | some c =>
      have hable := able_of_turn? hturn
      have hc : c ≠ .dispose ∧ c ≠ .drop := by
        refine ⟨?_, ?_⟩
        · rintro rfl
          exact hdispose (Event.asks_eq_dispose (asks_of_turn? hturn (.inr (.inl rfl))))
        · rintro rfl
          exact hdrop (Event.asks_eq_drop (asks_of_turn? hturn (.inr (.inr rfl))))
      cases h with
      | untried h => exact h.trial hable hc.1 hc.2
      | trying r h => exact h.trial hable hc.1 hc.2

theorem misses_succ {n : Nat} {e : Event ρ ν} (he : events[n]? = some e) :
    s.misses events (n + 1) =
      (s.after events n).link.missedAfter ((s.after events n).turn? e) (s.misses events n) := by
  have hseen := seen_concat step (fun (s : System ρ ν) e => (outcome? s e).toList) s (events.take n) e
  rw [misses, List.take_add_one, he, Option.toList_some, hseen, List.foldl_append]
  change ((s.after events n).outcome? e).toList.foldl countFailures (s.misses events n) =
    (((s.after events n).outcome? e).map (countFailures (s.misses events n))).getD
      (s.misses events n)
  cases (s.after events n).outcome? e <;> rfl

/-- A run in which nobody disturbs a link that has never been connected, and that so many failures in a
row end at the latest. -/
structure Steady (limit : Nat) (s : System ρ ν) (events : List (Event ρ ν)) : Prop where
  retries : s.link.Retries limit 0
  allowed : Link.allowance s.link.config.limit = limit
  undisturbed : Undisturbed events

/-- What holds of the link at a point of a run, with the attempts that failed in a row. -/
structure Point (limit : Nat) (s : System ρ ν) (events : List (Event ρ ν)) (n : Nat) : Prop where
  retries : (s.after events n).link.Retries limit (s.misses events n)
  config : (s.after events n).link.config = s.link.config

theorem Point.trial {limit n : Nat} (h : Point limit s events n) (hevents : Undisturbed events)
    {e : Event ρ ν} (he : events[n]? = some e) :
    (s.after events n).link.Trial (s.after events n).now ((s.after events n).turn? e)
      (s.after events (n + 1)).link := by
  rcases hevents e (List.mem_of_getElem? he) with ⟨hdispose, hdrop⟩
  rw [s.after_succ he]
  exact trial_step h.retries hdispose hdrop

theorem Steady.point {limit : Nat} (h : Steady limit s events) {n : Nat} (hn : n ≤ events.length) :
    Point limit s events n := by
  induction n with
  | zero => exact ⟨h.retries, rfl⟩
  | succ n ih =>
      have hpoint := ih (Nat.le_of_succ_le hn)
      have he : events[n]? = some events[n] := List.getElem?_eq_getElem hn
      have htrial := hpoint.trial h.undisturbed he
      refine ⟨?_, htrial.config.trans hpoint.config⟩
      rw [misses_succ he]
      exact htrial.retries hpoint.retries (hpoint.config ▸ h.allowed)

/-- What an event makes of the link, and what held of it before. -/
theorem Steady.trial {limit : Nat} (h : Steady limit s events) {n : Nat} {e : Event ρ ν}
    (he : events[n]? = some e) : Point limit s events n ∧
      (s.after events n).link.Trial (s.after events n).now ((s.after events n).turn? e)
        (s.after events (n + 1)).link := by
  have hpoint := h.point (Nat.le_of_lt (List.getElem?_eq_some_iff.1 he).1)
  exact ⟨hpoint, hpoint.trial h.undisturbed he⟩

/-- A steady run of a link that allows so many failures in a row. -/
structure Patient (limit : Nat) (s : System ρ ν) (events : List (Event ρ ν)) : Prop where
  retries : s.link.Retries limit 0
  limited : s.link.config.limit = some limit
  bounded : limit ≤ Config.attemptLimit
  undisturbed : Undisturbed events

theorem Patient.steady {limit : Nat} (h : Patient limit s events) : Steady limit s events :=
  ⟨h.retries, by rw [h.limited]; rfl, h.undisturbed⟩

/-! ## Giving up -/

/-- When a link gives up is decided event by event. -/
theorem fails_iff_of_events {n : Nat} {P : SocketError → Prop}
    (h : ∀ e, events[n]? = some e →
      (s.Fails events n ↔
        ∃ error, (s.after events n).outcome? e = some (.error error) ∧ P error)) :
    s.Fails events n ↔ ∃ e error, events[n]? = some e ∧
      (s.after events n).outcome? e = some (.error error) ∧ P error := by
  rcases s.after_succ_cases events n with ⟨e, he, -⟩ | ⟨hend, hsame⟩
  · rw [h e he]
    constructor
    · rintro ⟨error, hout, hcond⟩
      exact ⟨e, error, he, hout, hcond⟩
    · rintro ⟨e', error, he', hout, hcond⟩
      obtain rfl : e = e' := Option.some.inj (he.symm.trans he')
      exact ⟨error, hout, hcond⟩
  · constructor
    · rintro ⟨hafter, hbefore⟩
      rw [hsame, hbefore] at hafter
      cases hafter
    · rintro ⟨e, error, he, -⟩
      rw [hend] at he
      cases he

theorem Patient.fails_iff {limit : Nat} (h : Patient limit s events) (n : Nat) :
    s.Fails events n ↔ ∃ e error, events[n]? = some e ∧
      (s.after events n).outcome? e = some (.error error) ∧
      (error.isPermanent = true ∨ s.misses events n + 1 = max limit 1) := by
  refine fails_iff_of_events fun e he => ?_
  rcases h.steady.trial he with ⟨hpoint, htrial⟩
  exact htrial.fails_iff hpoint.retries (hpoint.config ▸ h.limited) h.bounded

theorem Patient.hasFailed {limit : Nat} (h : Patient limit s events) {m n : Nat} (hmn : m ≤ n)
    (hfailed : (s.after events m).link.status.hasFailed = true) :
    (s.after events n).link.status.hasFailed = true := by
  refine after_induction (motive := fun s => s.link.status.hasFailed = true) hmn hfailed ?_
  intro k e _ _ he hk
  rcases h.steady.trial he with ⟨hpoint, htrial⟩
  rw [← s.after_succ he]
  exact htrial.hasFailed hpoint.retries hk

theorem Patient.fails_once {limit : Nat} (h : Patient limit s events) {m n : Nat}
    (hm : s.Fails events m) (hn : s.Fails events n) : m = n := by
  -- What failed before cannot begin to have failed.
  have hnot : ∀ {m n : Nat}, s.Fails events m → s.Fails events n → ¬ m < n := by
    intro m n hm hn hlt
    have hfailed := h.hasFailed (Nat.succ_le_of_lt hlt) hm.1
    rw [hn.2] at hfailed
    cases hfailed
  rcases Nat.lt_trichotomy m n with hlt | heq | hlt
  · exact absurd hlt (hnot hm hn)
  · exact heq
  · exact absurd hlt (hnot hn hm)

/-! ## From a setback to the next attempt -/

theorem Change.now_eq {s' : System ρ ν} {e : Event ρ ν} (h : Change s e s')
    (hnot : ∀ time, e ≠ .pass time) : s'.now = s.now := by
  cases h with
  | pass time => exact absurd rfl (hnot time)
  | _ => rfl

/-- The clock does not go beyond the end of a pause. -/
theorem now_step_le {r : RunLoop} {due : Nat} (hr : s.link.loops = [r])
    (stage : r.stage = .pausing due) (hnow : s.now ≤ due) (e : Event ρ ν) :
    (s.step e).now ≤ due := by
  have hchange := change_step s e
  generalize s.step e = s' at hchange
  cases hchange with
  | pass time later stops => exact stops 0 due (by simp [Link.stageOf, hr, stage, Stage.due?])
  | _ => exact hnow

theorem Patient.setback {limit : Nat} (h : Patient limit s events) {n : Nat}
    (hset : s.Setback events n) : (s.after events (n + 1)).link.status = .reconnecting ∧
      (s.after events (n + 1)).now = (s.after events n).now ∧
      ∃ r, (s.after events (n + 1)).link.loops = [r] ∧
        r.stage = .pausing ((s.after events n).now + s.link.config.pause) := by
  -- Either kind of setback is an event of the link.
  have hevent : ∃ e c, events[n]? = some e ∧ (s.after events n).turn? e = some c := by
    rcases hset with ⟨e, c, he, hturn, -⟩ | ⟨⟨e, error, he, hout⟩, -⟩
    · exact ⟨e, c, he, hturn⟩
    · rcases Option.bind_eq_some_iff.1 hout with ⟨c, hturn, -⟩
      exact ⟨e, c, he, hturn⟩
  rcases hevent with ⟨e, c, he, hturn⟩
  rcases h.steady.trial he with ⟨hpoint, htrial⟩
  have hback := htrial.setback hpoint.retries (hpoint.config ▸ h.limited) h.bounded (by
    rcases hset with ⟨e', c', he', hturn', hends⟩ | ⟨⟨e', error, he', hout⟩, hnot⟩
    · obtain rfl : e = e' := Option.some.inj (he.symm.trans he')
      exact .inl ⟨c', hturn', hends⟩
    · obtain rfl : e = e' := Option.some.inj (he.symm.trans he')
      exact .inr ⟨⟨error, hout⟩, hnot⟩)
  rw [hpoint.config] at hback
  refine ⟨hback.1, ?_, hback.2⟩
  rw [s.after_succ he]
  refine (change_step _ e).now_eq ?_
  rintro time rfl
  cases hturn

/-- At a point of a run the link waits for a time, and the time is not over. -/
def PausesUntil (s : System ρ ν) (events : List (Event ρ ν)) (n due : Nat) : Prop :=
  (s.after events n).now ≤ due ∧
    ∃ r, (s.after events n).link.loops = [r] ∧ r.stage = .pausing due

/-- From then on the link waits, until the first event that is the next attempt. -/
theorem Steady.waits_or_begins {limit : Nat} (h : Steady limit s events) {m n due : Nat}
    (hpause : s.PausesUntil events m due) (hmn : m ≤ n) (hn : n ≤ events.length) :
    (s.PausesUntil events n due ∧ ∀ k, m ≤ k → k < n → ¬ s.Begins events k) ∨
      ∃ k, m ≤ k ∧ k < n ∧ s.Begins events k ∧ (s.after events k).now = due := by
  induction hmn with
  | refl => exact .inl ⟨hpause, fun k hmk hk => absurd hmk (Nat.not_le_of_lt hk)⟩
  | @step n hmn ih =>
      rcases ih (Nat.le_of_succ_le hn) with ⟨⟨hnow, r, hr, stage⟩, hnone⟩ | ⟨k, hmk, hk, hbegins⟩
      · have he : events[n]? = some events[n] := List.getElem?_eq_getElem hn
        rcases h.trial he with ⟨hpoint, htrial⟩
        have hbefore : ¬ (s.after events n).link.Attempts := by
          rw [Link.attempts_iff hr, stage]
          rintro ⟨since, hs⟩
          cases hs
        rcases htrial.pausing hpoint.retries hr stage with hsame | ⟨hlate, r', hr', stage'⟩
        · refine .inl ⟨⟨?_, r, by rw [hsame]; exact hr, stage⟩, ?_⟩
          · rw [s.after_succ he]
            exact now_step_le hr stage hnow _
          · intro k hmk hk
            rcases Nat.lt_succ_iff_lt_or_eq.1 hk with hlt | rfl
            · exact hnone k hmk hlt
            · rintro ⟨-, hafter⟩
              rw [hsame] at hafter
              exact hbefore hafter
        · -- The pause is over, and not a moment longer.
          refine .inr ⟨n, hmn, Nat.lt_succ_self n, ⟨hbefore, ?_⟩, Nat.le_antisymm hnow hlate⟩
          exact (Link.attempts_iff hr').2 ⟨_, stage'⟩
      · exact .inr ⟨k, hmk, Nat.lt_succ_of_lt hk, hbegins⟩

theorem Patient.waits_or_begins {limit : Nat} (h : Patient limit s events) {m n : Nat}
    (hset : s.Setback events m) (hmn : m < n) (hn : n ≤ events.length) :
    (s.PausesUntil events n ((s.after events m).now + s.link.config.pause) ∧
        ∀ k, m < k → k < n → ¬ s.Begins events k) ∨
      ∃ k, m < k ∧ k < n ∧ s.Begins events k ∧
        (s.after events k).now = (s.after events m).now + s.link.config.pause := by
  rcases h.setback hset with ⟨-, hnow, r, hr, stage⟩
  have hpause : s.PausesUntil events (m + 1) ((s.after events m).now + s.link.config.pause) :=
    ⟨by rw [hnow]; exact Nat.le_add_right _ _, r, hr, stage⟩
  exact h.steady.waits_or_begins hpause hmn hn

theorem exists_event_of_begins {n : Nat} (h : s.Begins events n) : ∃ e, events[n]? = some e := by
  rcases s.after_succ_cases events n with ⟨e, he, -⟩ | ⟨-, hsame⟩
  · exact ⟨e, he⟩
  · rcases h with ⟨hbefore, hafter⟩
    rw [hsame] at hafter
    exact absurd hafter hbefore

theorem Patient.begins {limit : Nat} (h : Patient limit s events) {n : Nat}
    (hn : s.Begins events n) :
    ¬ (s.after events n).link.UnderWay ∧ (s.after events (n + 1)).link.UnderWay := by
  rcases exists_event_of_begins hn with ⟨e, he⟩
  exact (h.steady.trial he).2.begins hn.1 hn.2

/-- Between two attempts there is a setback. -/
theorem Patient.setback_between {limit : Nat} (h : Patient limit s events) {m n : Nat}
    (hm : s.Begins events m) (hn : s.Begins events n) (hmn : m < n) :
    ∃ k, m < k ∧ k < n ∧ s.Setback events k := by
  have hunder : ∀ q, m < q → (s.after events q).link.UnderWay ∨
      ∃ k, m < k ∧ k < q ∧ s.Setback events k := by
    intro q hmq
    induction hmq with
    | refl => exact .inl (h.begins hm).2
    | @step q hmq ih =>
        rcases ih with hunder | ⟨k, hmk, hkq, hset⟩
        · rcases s.after_succ_cases events q with ⟨e, he, -⟩ | ⟨-, hsame⟩
          · -- The attempt goes on, or this is the setback.
            rcases (h.steady.trial he).2.underWay hunder with hunder' | ⟨c, hc, hends⟩ | ⟨⟨error, hout⟩, hnot⟩
            · exact .inl hunder'
            · exact .inr ⟨q, hmq, Nat.lt_succ_self q, .inl ⟨e, c, he, hc, hends⟩⟩
            · exact .inr ⟨q, hmq, Nat.lt_succ_self q, .inr ⟨⟨e, error, he, hout⟩, hnot⟩⟩
          · rw [hsame]
            exact .inl hunder
        · exact .inr ⟨k, hmk, Nat.lt_succ_of_lt hkq, hset⟩
  exact (hunder n hmn).resolve_left (h.begins hn).1

theorem ends_of_meetsError {n : Nat} (h : s.MeetsError events n) : s.Ends events n := by
  rcases h with ⟨hidle, loop, k, due, x, hs, hx, ⟨he, error, rest, hin⟩ | ⟨he, hlate, htakes⟩⟩
  · have hnext : x.next? = some none := by simp [Session.next?, hin]
    have hreads := reads?_eq_some.2 ⟨due, x, hs, hx, hnext⟩
    refine ⟨_, .lost loop, he, ?_, rfl⟩
    simp [turn?, whenIdle?, hidle, hreads, readEvent]
  · have hbeats := beats?_eq_some.2 ⟨due, x, hs, hx, hlate, htakes⟩
    refine ⟨_, .beat loop false, he, ?_, rfl⟩
    simp [turn?, whenIdle?, hidle, hbeats]

/-! ## The policy -/

/-- When a link gives up that allows so many failures in a row, and when it tries again. -/
structure RetryPolicy (limit : Nat) (s : System ρ ν) (events : List (Event ρ ν)) : Prop where
  /-- It gives up at the attempt that fails for good or reaches the limit, and never otherwise. -/
  fails : ∀ n, s.Fails events n ↔ ∃ e error, events[n]? = some e ∧
    (s.after events n).outcome? e = some (.error error) ∧
    (error.isPermanent = true ∨ s.misses events n + 1 = max limit 1)
  /-- So this attempt is the first one of its kind. -/
  once : ∀ m n, s.Fails events m → s.Fails events n → m = n
  /-- An error of a session is the end of it, whatever the error. -/
  broken : ∀ n, s.MeetsError events n → s.Ends events n
  /-- The end of a session, and a failed attempt that is not the last, lead to a pause. -/
  reconnecting : ∀ n, s.Setback events n →
    (s.after events (n + 1)).link.status = .reconnecting
  /-- The next attempt begins when the pause is over, and until then none does. -/
  again : ∀ m n, s.Setback events m → m < n → n ≤ events.length →
    (s.PausesUntil events n ((s.after events m).now + s.link.config.pause) ∧
        ∀ k, m < k → k < n → ¬ s.Begins events k) ∨
      ∃ k, m < k ∧ k < n ∧ s.Begins events k ∧
        (s.after events k).now = (s.after events m).now + s.link.config.pause
  /-- No second attempt begins without another setback. -/
  between : ∀ m n, s.Begins events m → s.Begins events n → m < n →
    ∃ k, m < k ∧ k < n ∧ s.Setback events k
  /-- A session is left only when it ends, or when the clock cannot name the time of its first sign
  of life. -/
  ends : ∀ n loop k, ((s.after events n).link.stageOf loop).session? = some k →
    ((s.after events (n + 1)).link.stageOf loop).session? ≠ some k →
    s.Ends events n ∨ Link.clockLimit ≤ (s.after events n).now + s.link.config.heartbeat

/-- Whatever becomes of the attempts and the sessions of a link that is neither disposed of nor let
go of, it gives up at the first permanent error and at the failure that reaches the limit, and
follows every other failure and every end of a session with one attempt after the pause. -/
theorem retry_policy (config : LinkConfig) (scheme : String) (limit : Nat)
    (hlimit : config.limit = some limit) (hn : limit ≤ Config.attemptLimit)
    (events : List (Event ρ ν)) (hevents : Undisturbed events) :
    RetryPolicy limit (create config scheme) events := by
  have huntried : (create config scheme : System ρ ν).link.Untried 0 :=
    ⟨⟨rfl, rfl, rfl, .inl rfl⟩, rfl, nofun, fun _ => rfl⟩
  have h : Patient limit (create config scheme) events := ⟨.untried huntried, hlimit, hn, hevents⟩
  refine ⟨h.fails_iff, fun _ _ => h.fails_once, fun _ => ends_of_meetsError,
    fun _ hset => (h.setback hset).1,
    fun _ _ => h.waits_or_begins, fun _ _ => h.setback_between, ?_⟩
  intro n loop k hbefore hafter
  rcases (create config scheme).after_succ_cases events n with ⟨e, he, -⟩ | ⟨-, hsame⟩
  · rcases h.steady.trial he with ⟨hpoint, htrial⟩
    rcases htrial.ends hpoint.retries hbefore hafter with ⟨c, hc, hends⟩ | hlate
    · exact .inl ⟨e, c, he, hc, hends⟩
    · rw [hpoint.config] at hlate
      exact .inr hlate
  · rw [hsame] at hafter
    exact absurd hbefore hafter

/-- A link that allows two failures in a row: one failure, a session that breaks off with an error
that would be permanent for an attempt, and two more failures. -/
def patience : List (Event Unit Nat) :=
  [.connect, .start 0, .deny 0 .closed, .pass 1000, .resume 0, .grant 0, .hub .finish, .follow 0,
    .breakOff 0 (.rejected 401), .read 0, .pass 2000, .resume 0, .deny 0 .closed, .pass 3000,
    .resume 0, .deny 0 .closed]

theorem retry_policy_patience :
    RetryPolicy 2 (create ⟨10000, 1000, some 2⟩ "ws" : System Unit Nat) patience ∧
      ((create ⟨10000, 1000, some 2⟩ "ws" : System Unit Nat).run patience).published =
        [.failed "gave up after 2 attempts: Connection closed", .connecting, .reconnecting,
          .connecting, .reconnecting, .connected, .connecting, .reconnecting, .connecting] := by
  have hevents : Undisturbed patience := by simp [Undisturbed, patience]
  exact ⟨retry_policy ⟨10000, 1000, some 2⟩ "ws" 2 rfl (by decide) patience hevents, by decide⟩

end System

end LiveFeed
