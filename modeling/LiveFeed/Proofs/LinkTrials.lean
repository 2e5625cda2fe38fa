import LiveFeed.Proofs.OrderlyLink

/-!
# A link that nobody asks to stop

The owner may connect a link, and neither disposes of it nor lets go of it.  Then an event does
nothing, or it is a move of the only run loop, and the loop counts the failures in a row as they
come.

* `Link.Trial`: what an event can make of such a link;
* `Link.Retries`, `Link.Trial.retries`: what holds of it, with the failures in a row;
* `Link.Trial.fails_iff`: the events at which it gives up;
* `Link.Trial.setback`, `Link.Trial.pausing`, `Link.Trial.begins`: from a failure to the next attempt.
-/

namespace LiveFeed

/-- Whether a status is that of a link that gave up. -/
def LinkStatus.hasFailed : LinkStatus → Bool
  | failed _ => true
  | _ => false

/-- How many failures in a row there are after the outcome of another attempt. -/
def countFailures (missed : Nat) : Except SocketError Unit → Nat
  | .ok _ => 0
  | .error e => if e.isPermanent then missed else missed + 1

namespace Link

/-- Whether a call of `connect` finds that there is no way to open a socket at the address. -/
def refuses (l : Link) : Bool :=
  !l.dropped && l.running.isNone && !l.status.isFinal && !isSocketScheme l.scheme

/-- The outcome of an attempt that an event tells of; a call that is refused is an attempt that
fails at once. -/
def outcome? (l : Link) : Event → Option (Except SocketError Unit)
  | .connect => if l.refuses then some (.error (.unsupportedScheme l.scheme)) else none
  | .opened _ _ => some (.ok ())
  | .refused _ e => some (.error e)
  | _ => none

/-- Whether an event is the end of a session, by its stream or by its sink. -/
def Event.ends : Event → Bool
  | .lost _ => true
  | .beat _ false => true
  | _ => false

/-- What an event can make of a link that is neither disposed of nor let go of. -/
inductive Trial (l : Link) (now : Nat) : Option Event → Link → Prop where
  | rest {c : Option Event} (quiet : ∀ c' ∈ c, l.outcome? c' = none ∧ c'.ends = false) :
      Trial l now c l
  | spawn (loopless : l.loops = []) (idle : l.status = .idle) (refuses : l.refuses = false) :
      Trial l now (some .connect) { l with loops := [.fresh], running := some 0 }
  | refuse (loopless : l.loops = []) (idle : l.status = .idle) (refuses : l.refuses = true)
      (reason : String) :
      Trial l now (some .connect) { l with status := .failed reason }
  | move {c : Event} {r r' : RunLoop} {effects : List Effect} (loop : l.loops = [r])
      (move : Move l.config now 0 c r r' effects) : Trial l now (some c) (l.moved 0 r' effects)

/-- A link that was never connected, or could not be. -/
structure Untried (l : Link) (missed : Nat) : Prop where
  unstarted : l.Unstarted
  dropped : l.dropped = false
  undisposed : l.status ≠ .disposed
  missed : l.status = .idle → missed = 0

/-- A link whose loop runs, with the failures counted that were missed in a row. -/
structure Trying (l : Link) (r : RunLoop) (limit missed : Nat) : Prop where
  loops : l.loops = [r]
  running : l.running = some 0
  disposing : l.disposing = []
  stopping : r.stopping = false
  fits : Fits r.stage l.status
  undisposed : l.status ≠ .disposed
  failures : r.stage.isDone = false → r.failures.toNat = missed
  bound : r.stage.isDone = false → missed < max limit 1

/-- A link that nobody asked to stop, with the failures in a row. -/
inductive Retries (l : Link) (limit missed : Nat) : Prop where
  | untried (h : l.Untried missed)
  | trying (r : RunLoop) (h : l.Trying r limit missed)

/-- What an event comes to that is told only when it can happen. -/
def Able (l : Link) (now : Nat) : Event → Prop
  | .opened n _ => ∃ since, l.stageOf n = .attempting since
  | .refused n _ => ∃ since, l.stageOf n = .attempting since
  | .lost n => ∃ session due, l.stageOf n = .live session due
  | .beat n _ => ∃ session due, l.stageOf n = .live session due ∧ due ≤ now
  | _ => True

theorem loops_moved {l : Link} {r : RunLoop} (h : l.loops = [r]) (r' : RunLoop)
    (effects : List Effect) : (l.moved 0 r' effects).loops = [r'] := by
  simp [moved, h]

theorem trial_of_same {l : Link} {now : Nat} {c : Event} (hsame : (l.step now c).1 = l)
    (hnone : l.outcome? c = none) (hends : c.ends = false) :
    l.Trial now (some c) (l.step now c).1 := by
  rw [hsame]
  exact .rest (by simp [hnone, hends])

theorem Trying.eq {l : Link} {r r' : RunLoop} {limit missed n : Nat} (h : l.Trying r limit missed)
    (hr : l.loops[n]? = some r') : n = 0 ∧ r' = r := by
  rw [h.loops] at hr
  cases n with
  | zero => exact ⟨rfl, (Option.some.inj hr).symm⟩
  | succ n => cases hr

/-- A call of `connect` changes nothing while a loop runs. -/
theorem step_connect_of_running {l : Link} {n : Nat} (h : l.running = some n) (now : Nat) :
    l.step now .connect = (l, []) ∧ l.refuses = false := by
  refine ⟨?_, by simp [refuses, h]⟩
  rcases l.called_connect now with hsame | ⟨l', st, hcall, -⟩
  · exact hsame
  · cases hcall with
    | refuse dropped idle _ reason => simp [h] at idle
    | spawn dropped idle _ => simp [h] at idle

theorem Trying.trial {l : Link} {r : RunLoop} {limit missed now : Nat} (h : l.Trying r limit missed)
    {c : Event} (able : l.Able now c) (hdispose : c ≠ .dispose) (hdrop : c ≠ .drop) :
    l.Trial now (some c) (l.step now c).1 := by
  -- Whatever loop an event is a turn of, it is the only one there is.
  have hmoved : ∀ {n : Nat} {r' r'' : RunLoop} {effects : List Effect}, l.loops[n]? = some r' →
      Move l.config now n c r' r'' effects → l.step now c = (l.moved n r'' effects, effects) →
      l.Trial now (some c) (l.step now c).1 := by
    intro n r' r'' effects hr hmove heq
    rcases h.eq hr with ⟨rfl, rfl⟩
    rw [heq]
    exact .move h.loops hmove
  have hturned : ∀ {n : Nat}, l.Turned now n c → l.outcome? c = none → c.ends = false →
      l.Trial now (some c) (l.step now c).1 := by
    intro n hturned hnone hends
    rcases hturned with hsame | ⟨r', r'', effects, hr, hmove, heq⟩
    · exact trial_of_same (by rw [hsame]) hnone hends
    · exact hmoved hr hmove heq
  cases c with
  | dispose => exact absurd rfl hdispose
  | drop => exact absurd rfl hdrop
  | connect =>
      rcases step_connect_of_running h.running now with ⟨hsame, hrefuses⟩
      exact trial_of_same (by rw [hsame]) (by simp [outcome?, hrefuses]) rfl
  | disposed n => exact trial_of_same (by simp [step, disposed, h.disposing]) rfl rfl
  | start n => exact hturned (l.turned_start now n) rfl rfl
  | follow n => exact hturned (l.turned_follow now n) rfl rfl
  | resume n => exact hturned (l.turned_resume now n) rfl rfl
  | stop n => exact hturned (l.turned_stop now n) rfl rfl
  | received n frame =>
      refine trial_of_same ?_ rfl rfl
      simp only [step, received]
      repeat' split
      all_goals rfl
  | opened n session =>
      rcases able with ⟨since, hs⟩
      rcases exists_loop_of_stageOf (l := l) (n := n) (by simp [hs]) with ⟨r', hr, hstage⟩
      rcases moves_opened now session hr (hstage.trans hs) with ⟨r'', effects, hmove, heq⟩
      exact hmoved hr hmove heq
  | refused n e =>
      rcases able with ⟨since, hs⟩
      rcases exists_loop_of_stageOf (l := l) (n := n) (by simp [hs]) with ⟨r', hr, hstage⟩
      rcases moves_refused now e hr (hstage.trans hs) with ⟨r'', effects, hmove, heq⟩
      exact hmoved hr hmove heq
  | lost n =>
      rcases able with ⟨session, due, hs⟩
      rcases exists_loop_of_stageOf (l := l) (n := n) (by simp [hs]) with ⟨r', hr, hstage⟩
      rcases moves_lost hr (hstage.trans hs) now with ⟨r'', effects, hmove, heq⟩
      exact hmoved hr hmove heq
  | beat n sent =>
      rcases able with ⟨session, due, hs, late⟩
      rcases exists_loop_of_stageOf (l := l) (n := n) (by simp [hs]) with ⟨r', hr, hstage⟩
      rcases moves_beat hr (hstage.trans hs) late sent with ⟨r'', effects, hmove, heq⟩
      exact hmoved hr hmove heq

theorem Untried.trial {l : Link} {missed now : Nat} (h : l.Untried missed) {c : Event}
    (able : l.Able now c) (hdispose : c ≠ .dispose) (hdrop : c ≠ .drop) :
    l.Trial now (some c) (l.step now c).1 := by
  have hended : ∀ n, l.stageOf n = .ended := by
    intro n
    simp [stageOf, h.unstarted.loops]
  -- Without a loop only a call can do something.
  cases c with
  | dispose => exact absurd rfl hdispose
  | drop => exact absurd rfl hdrop
  | connect =>
      rcases h.unstarted.status with hidle | hfinal
      · cases hscheme : isSocketScheme l.scheme with
        | true =>
            have hspawn : l.Trial now (some .connect) _ :=
              .spawn h.unstarted.loops hidle (by simp [refuses, hscheme])
            simpa [step, connect, h.dropped, h.unstarted.running, hidle, LinkStatus.isFinal, hscheme,
              h.unstarted.loops] using hspawn
        | false =>
            have hrefuses : l.refuses = true := by
              simp [refuses, hscheme, h.dropped, h.unstarted.running, hidle, LinkStatus.isFinal]
            have hrefuse : l.Trial now (some .connect) _ := .refuse h.unstarted.loops hidle hrefuses
              (SocketError.unsupportedScheme l.scheme).message
            simpa [step, connect, h.dropped, h.unstarted.running, hidle, LinkStatus.isFinal, hscheme,
              publish] using hrefuse
      · exact trial_of_same (by simp [step, connect, hfinal]) (by simp [outcome?, refuses, hfinal]) rfl
  | opened n session | refused n session =>
      rcases able with ⟨since, hs⟩
      simp [hended] at hs
  | lost n =>
      rcases able with ⟨session, due, hs⟩
      simp [hended] at hs
  | beat n sent =>
      rcases able with ⟨session, due, hs, -⟩
      simp [hended] at hs
  | disposed n =>
      exact trial_of_same (by simp [step, disposed, h.unstarted.disposing]) rfl rfl
  | start n => exact trial_of_same (by simp [step, start, hended]) rfl rfl
  | follow n => exact trial_of_same (by simp [step, follow, hended]) rfl rfl
  | resume n => exact trial_of_same (by simp [step, resume, hended]) rfl rfl
  | received n frame => exact trial_of_same (by simp [step, received, hended]) rfl rfl
  | stop n => exact trial_of_same (by simp [step, stop, hended]) rfl rfl

/-! ## What a failed attempt leads to -/

/-- How many failures in a row end a link at the latest; without a limit they do so when they can no
longer be counted. -/
def allowance (limit : Option Nat) : Nat :=
  limit.getD UInt32.size

theorem refusal_of_isPermanent {limit : Option Nat} {failures : UInt32} {e : SocketError}
    (h : e.isPermanent = true) : refusal limit failures e = .giveUp e.message := by
  unfold refusal
  exact if_pos h

/-- A failure that another attempt follows is counted, and it is not the last one that may be. -/
theorem refusal_retry {limit : Option Nat} {failures failures' : UInt32} {e : SocketError}
    (h : refusal limit failures e = .retry failures') :
    e.isPermanent = false ∧ failures'.toNat = failures.toNat + 1 ∧
      failures.toNat + 1 < allowance limit := by
  unfold refusal at h
  split at h
  · cases h
  · next hpermanent =>
      split at h
      · cases h
      · next hcountable =>
          have hlt : failures.toNat + 1 < UInt32.size :=
            Nat.lt_of_le_of_ne failures.toNat_lt hcountable
          have hsucc : (failures + 1).toNat = failures.toNat + 1 := by
            rw [UInt32.toNat_add]
            exact Nat.mod_eq_of_lt hlt
          refine ⟨by simpa using hpermanent, ?_⟩
          cases limit with
          | none =>
              cases h
              exact ⟨hsucc, hlt⟩
          | some limit =>
              simp only at h
              split at h
              · cases h
              · next hlimit =>
                  cases h
                  exact ⟨hsucc, Nat.lt_of_not_le hlimit⟩

/-- The link gives up at a permanent error, and at the failure that reaches the limit. -/
theorem refusal_cases {limit : Nat} {failures : UInt32} (e : SocketError)
    (hlimit : limit ≤ Config.attemptLimit) (hbound : failures.toNat < max limit 1) :
    (e.isPermanent = true ∨ failures.toNat + 1 = max limit 1) ∧
        (∃ reason, refusal (some limit) failures e = .giveUp reason) ∨
      ¬ (e.isPermanent = true ∨ failures.toNat + 1 = max limit 1) ∧
        ∃ failures', refusal (some limit) failures e = .retry failures' := by
  cases hpermanent : e.isPermanent with
  | true => exact .inl ⟨.inl rfl, _, refusal_of_isPermanent hpermanent⟩
  | false =>
      -- The limit is reached before the failures can no longer be counted.
      have hcountable : failures.toNat + 1 ≠ UInt32.size := by
        simp only [UInt32.size, Config.attemptLimit] at *
        omega
      by_cases hreached : limit ≤ failures.toNat + 1
      · refine .inl ⟨.inr (by omega), exhausted (failures.toNat + 1) e, ?_⟩
        simp [refusal, hpermanent, hcountable, hreached]
      · refine .inr ⟨by simp; omega, failures + 1, ?_⟩
        simp [refusal, hpermanent, hcountable, hreached]

/-! ## Steps -/

/-- How many failures in a row there are after an event. -/
def missedAfter (l : Link) (c : Option Event) (missed : Nat) : Nat :=
  ((c.bind l.outcome?).map (countFailures missed)).getD missed

theorem Retries.trying_of_loops {l : Link} {limit missed : Nat} (h : l.Retries limit missed)
    {r : RunLoop} (hr : l.loops = [r]) : l.Trying r limit missed := by
  cases h with
  | untried h => simp [h.unstarted.loops] at hr
  | trying r' h =>
      obtain rfl : r' = r := by simpa [h.loops] using hr
      exact h

theorem Retries.untried_of_loops {l : Link} {limit missed : Nat} (h : l.Retries limit missed)
    (hnil : l.loops = []) : l.Untried missed := by
  cases h with
  | untried h => exact h
  | trying r' h => simp [h.loops] at hnil

theorem Trial.config {l l' : Link} {now : Nat} {c : Option Event} (h : l.Trial now c l') :
    l'.config = l.config := by
  cases h <;> rfl

theorem Trial.retries {l l' : Link} {now limit missed : Nat} {c : Option Event}
    (h : l.Trial now c l') (hl : l.Retries limit missed)
    (hlimit : allowance l.config.limit = limit) : l'.Retries limit (l.missedAfter c missed) := by
  cases h with
  | rest quiet =>
      have hsame : l.missedAfter c missed = missed := by
        cases c with
        | none => rfl
        | some c => simp [missedAfter, (quiet c rfl).1]
      rw [hsame]
      exact hl
  | spawn loopless idle refuses =>
      have hu := hl.untried_of_loops loopless
      have hsame : l.missedAfter (some .connect) missed = 0 := by
        simp [missedAfter, outcome?, refuses, hu.missed idle]
      rw [hsame]
      refine .trying .fresh ⟨rfl, rfl, hu.unstarted.disposing, rfl, idle, hu.undisposed, ?_, ?_⟩
      · intro _
        rfl
      · intro _
        omega
  | refuse loopless idle refuses reason =>
      have hu := hl.untried_of_loops loopless
      refine .untried ⟨⟨loopless, hu.unstarted.running, hu.unstarted.disposing, .inr rfl⟩, hu.dropped,
        ?_, ?_⟩
      · exact nofun
      · exact nofun
  | @move c r r' effects loop move =>
      have ht := hl.trying_of_loops loop
      have hfailures := ht.failures move.not_done
      have hbound := ht.bound move.not_done
      -- A session that opens sets the count back, and a failure that another attempt follows adds
      -- one.
      have hcount : r'.stage.isDone = false → r'.failures.toNat = l.missedAfter (some c) missed ∧
          l.missedAfter (some c) missed < max limit 1 := by
        intro hnotdone
        cases move with
        | opened session stage => exact ⟨rfl, Nat.lt_of_lt_of_le Nat.zero_lt_one (Nat.le_max_right _ _)⟩
        | retry stage refused =>
            rcases refusal_retry refused with ⟨hpermanent, hsucc, hlt⟩
            rw [hlimit] at hlt
            simp only [missedAfter, outcome?, countFailures, hpermanent, Option.bind_some,
              Option.map_some, Option.getD_some, Bool.false_eq_true, if_false]
            omega
        | giveUp | overcount | overrun => cases hnotdone
        | _ => exact ⟨hfailures, hbound⟩
      refine .trying r' ⟨loops_moved loop _ _, ht.running, ht.disposing, ?_, (move.fits ht.fits).1, ?_,
        fun hnotdone => (hcount hnotdone).1, fun hnotdone => (hcount hnotdone).2⟩
      · cases move <;> exact ht.stopping
      · -- Nobody asked the loop to stop, so it does not.
        cases move with
        | stopAttempt _ stopping => simp [ht.stopping] at stopping
        | stopPause _ stopping => simp [ht.stopping] at stopping
        | stopSession _ stopping => simp [ht.stopping] at stopping
        | _ => simp [moved, told, ht.undisposed]

/-- What a failed attempt makes of a link, by what follows from it. -/
def AfterRefusal (l : Link) (now : Nat) (l' : Link) : Refusal → Prop
  | .giveUp _ => l'.status.hasFailed = true
  | .retry _ => l'.status = .reconnecting ∧
      ∃ r', l'.loops = [r'] ∧ r'.stage = .pausing (now + l.config.pause)
  | .crash => l'.status = .connecting ∧ ∃ r', l'.loops = [r'] ∧ r'.stage = .crashed

/-- A failed attempt has the consequence that the failures before it decide. -/
theorem Trial.refused {l l' : Link} {now limit missed : Nat} {c : Option Event}
    (h : l.Trial now c l') (hl : l.Retries limit missed) {e : SocketError}
    (hout : c.bind l.outcome? = some (.error e)) :
    l.status.hasFailed = false ∧ missed < max limit 1 ∧ ∃ failures : UInt32,
      failures.toNat = missed ∧ l.AfterRefusal now l' (refusal l.config.limit failures e) := by
  cases h with
  | rest quiet =>
      rcases Option.bind_eq_some_iff.1 hout with ⟨c', hc, hout⟩
      rw [(quiet c' hc).1] at hout
      cases hout
  | spawn loopless idle refuses => simp [outcome?, refuses] at hout
  | refuse loopless idle refuses reason =>
      obtain rfl : missed = 0 := (hl.untried_of_loops loopless).missed idle
      obtain rfl : .unsupportedScheme l.scheme = e := by simpa [outcome?, refuses] using hout
      refine ⟨by rw [idle]; rfl, by omega, 0, rfl, ?_⟩
      rw [refusal_of_isPermanent rfl]
      rfl
  | @move c r r' effects loop move =>
      have ht := hl.trying_of_loops loop
      have hconnecting : ∀ since, r.stage = .attempting since → l.status = .connecting ∧
          missed < max limit 1 ∧ r.failures.toNat = missed := by
        intro since stage
        have hfits := ht.fits
        rw [stage] at hfits
        exact ⟨hfits, ht.bound (by rw [stage]; rfl), ht.failures (by rw [stage]; rfl)⟩
      cases move with
      | giveUp stage refused | retry stage refused | overcount stage refused =>
          cases hout
          rcases hconnecting _ stage with ⟨hstatus, hbound, hfailures⟩
          refine ⟨by rw [hstatus]; rfl, hbound, r.failures, hfailures, ?_⟩
          rw [refused]
          first
            | exact rfl
            | exact ⟨rfl, _, loops_moved loop _ _, rfl⟩
            | exact ⟨hstatus, _, loops_moved loop _ _, rfl⟩
      | _ => simp [outcome?] at hout

/-- A link gives up only with an attempt that fails. -/
theorem Trial.outcome_of_fails {l l' : Link} {now : Nat} {c : Option Event} (h : l.Trial now c l')
    (hafter : l'.status.hasFailed = true) (hbefore : l.status.hasFailed = false) :
    ∃ e, c.bind l.outcome? = some (.error e) := by
  cases h with
  | rest quiet | spawn loopless idle refuses =>
      rw [hbefore] at hafter
      cases hafter
  | refuse loopless idle refuses reason =>
      exact ⟨.unsupportedScheme l.scheme, by simp [outcome?, refuses]⟩
  | @move c r r' effects loop move =>
      cases move with
      | giveUp stage refused => exact ⟨_, rfl⟩
      | _ =>
          first
            | cases hafter
            | exact absurd (hbefore.symm.trans hafter) Bool.false_ne_true

/-- The end of a session leads to a pause. -/
theorem Trial.pauses_of_ends {l l' : Link} {now : Nat} {c : Event} (h : l.Trial now (some c) l')
    (hends : c.ends = true) : l'.status = .reconnecting ∧
      ∃ r', l'.loops = [r'] ∧ r'.stage = .pausing (now + l.config.pause) := by
  cases h with
  | rest quiet =>
      rw [(quiet c rfl).2] at hends
      cases hends
  | spawn | refuse => cases hends
  | @move c r r' effects loop move =>
      cases move with
      | lost | missed => exact ⟨rfl, _, loops_moved loop _ _, rfl⟩
      | _ => cases hends

/-- The link gives up at an event that tells of a permanent error, or of the failure that reaches
the limit, and at no other. -/
theorem Trial.fails_iff {l l' : Link} {now limit missed : Nat} {c : Option Event}
    (h : l.Trial now c l') (hl : l.Retries limit missed) (hlimit : l.config.limit = some limit)
    (hn : limit ≤ Config.attemptLimit) :
    l'.status.hasFailed = true ∧ l.status.hasFailed = false ↔
      ∃ error, c.bind l.outcome? = some (.error error) ∧
        (error.isPermanent = true ∨ missed + 1 = max limit 1) := by
  constructor
  · rintro ⟨hafter, hbefore⟩
    rcases h.outcome_of_fails hafter hbefore with ⟨error, hout⟩
    rcases h.refused hl hout with ⟨-, hbound, failures, rfl, hrefusal⟩
    rcases refusal_cases error hn hbound with ⟨hreached, -⟩ | ⟨-, failures', hretry⟩
    · exact ⟨error, hout, hreached⟩
    · rw [hlimit, hretry] at hrefusal
      rw [hrefusal.1] at hafter
      cases hafter
  · rintro ⟨error, hout, hreached⟩
    rcases h.refused hl hout with ⟨hbefore, hbound, failures, rfl, hrefusal⟩
    rcases refusal_cases error hn hbound with ⟨-, reason, hgiveUp⟩ | ⟨hnot, -⟩
    · rw [hlimit, hgiveUp] at hrefusal
      exact ⟨hrefusal, hbefore⟩
    · exact absurd hreached hnot

/-- A failed attempt that is not the last and the end of a session lead to a pause. -/
theorem Trial.setback {l l' : Link} {now limit missed : Nat} {c : Option Event}
    (h : l.Trial now c l') (hl : l.Retries limit missed) (hlimit : l.config.limit = some limit)
    (hn : limit ≤ Config.attemptLimit)
    (hset : (∃ c' ∈ c, c'.ends = true) ∨ (∃ error, c.bind l.outcome? = some (.error error)) ∧
      ¬ (l'.status.hasFailed = true ∧ l.status.hasFailed = false)) :
    l'.status = .reconnecting ∧
      ∃ r', l'.loops = [r'] ∧ r'.stage = .pausing (now + l.config.pause) := by
  rcases hset with ⟨c', hc, hends⟩ | ⟨⟨error, hout⟩, hnot⟩
  · obtain rfl : c = some c' := hc
    exact h.pauses_of_ends hends
  · rcases h.refused hl hout with ⟨hbefore, hbound, failures, rfl, hrefusal⟩
    rcases refusal_cases error hn hbound with ⟨-, reason, hgiveUp⟩ | ⟨-, failures', hretry⟩
    · rw [hlimit, hgiveUp] at hrefusal
      exact absurd ⟨hrefusal, hbefore⟩ hnot
    · rw [hlimit, hretry] at hrefusal
      exact hrefusal

/-- What failed stays so. -/
theorem Trial.hasFailed {l l' : Link} {now limit missed : Nat} {c : Option Event}
    (h : l.Trial now c l') (hl : l.Retries limit missed) (hfailed : l.status.hasFailed = true) :
    l'.status.hasFailed = true := by
  cases h with
  | rest quiet => exact hfailed
  | spawn loopless idle refuses => exact hfailed
  | refuse loopless idle refuses reason => rfl
  | @move c r r' effects loop move =>
      have hfinal : l.status.isFinal = true := by
        cases hs : l.status <;> simp_all [LinkStatus.hasFailed, LinkStatus.isFinal]
      -- A loop that is done does not move.
      have hdone := (hl.trying_of_loops loop).fits.isDone hfinal
      rw [move.not_done] at hdone
      cases hdone

/-- While the pause lasts nothing happens, and after it the next attempt begins. -/
theorem Trial.pausing {l l' : Link} {now due limit missed : Nat} {c : Option Event} {r : RunLoop}
    (h : l.Trial now c l') (hl : l.Retries limit missed) (hr : l.loops = [r])
    (stage : r.stage = .pausing due) :
    l' = l ∨ due ≤ now ∧ ∃ r', l'.loops = [r'] ∧ r'.stage = .attempting now := by
  cases h with
  | rest quiet => exact .inl rfl
  | spawn loopless => simp [loopless] at hr
  | refuse loopless => simp [loopless] at hr
  | @move c r₁ r' effects loop move =>
      obtain rfl : r₁ = r := by simpa [loop] using hr
      have ht := hl.trying_of_loops loop
      cases move with
      | resume stage' late =>
          obtain rfl : _ = due := Stage.pausing.inj (stage'.symm.trans stage)
          exact .inr ⟨late, _, loops_moved loop _ _, rfl⟩
      | stopPause _ stopping => simp [ht.stopping] at stopping
      | _ => simp_all

/-- A loop attempts to open a session. -/
def Attempts (l : Link) : Prop :=
  ∃ n since, l.stageOf n = .attempting since

/-- The only loop has begun an attempt, and there was no pause since. -/
def UnderWay (l : Link) : Prop :=
  ∃ r, l.loops = [r] ∧ r.stage ≠ .starting ∧ ∀ due, r.stage ≠ .pausing due

theorem attempts_iff {l : Link} {r : RunLoop} (hr : l.loops = [r]) :
    l.Attempts ↔ ∃ since, r.stage = .attempting since := by
  constructor
  · rintro ⟨n, since, hs⟩
    cases n with
    | zero => exact ⟨since, by simpa [stageOf, hr] using hs⟩
    | succ n => simp [stageOf, hr] at hs
  · rintro ⟨since, hs⟩
    exact ⟨0, since, by simpa [stageOf, hr] using hs⟩

theorem not_attempts {l : Link} (hnil : l.loops = []) : ¬ l.Attempts := by
  rintro ⟨n, since, hs⟩
  simp [stageOf, hnil] at hs

/-- An attempt begins at the start, or after a pause. -/
theorem Trial.begins {l l' : Link} {now : Nat} {c : Option Event} (h : l.Trial now c l')
    (hbefore : ¬ l.Attempts) (hafter : l'.Attempts) : ¬ l.UnderWay ∧ l'.UnderWay := by
  cases h with
  | rest quiet => exact absurd hafter hbefore
  | spawn loopless idle refuses =>
      have hfresh := (attempts_iff (r := .fresh) rfl).1 hafter
      simp [RunLoop.fresh] at hfresh
  | refuse loopless idle refuses reason => exact absurd hafter (not_attempts loopless)
  | @move c r r' effects loop move =>
      have hr' := loops_moved loop r' effects
      have hattempts := (attempts_iff hr').1 hafter
      cases move with
      | start stage =>
          refine ⟨?_, _, hr', by simp, by simp⟩
          rintro ⟨r₁, hr₁, hstarting, -⟩
          obtain rfl : r = r₁ := by simpa [loop] using hr₁
          exact hstarting stage
      | resume stage late =>
          refine ⟨?_, _, hr', by simp, by simp⟩
          rintro ⟨r₁, hr₁, -, hpausing⟩
          obtain rfl : r = r₁ := by simpa [loop] using hr₁
          exact hpausing _ stage
      | _ => simp at hattempts

/-- An attempt that has begun, or the session that it opened, goes on, or is followed by a pause. -/
theorem Trial.underWay {l l' : Link} {now : Nat} {c : Option Event}
    (h : l.Trial now c l') (hu : l.UnderWay) :
    l'.UnderWay ∨ (∃ c' ∈ c, c'.ends = true) ∨
      (∃ error, c.bind l.outcome? = some (.error error)) ∧
        ¬ (l'.status.hasFailed = true ∧ l.status.hasFailed = false) := by
  rcases hu with ⟨r₁, hr₁, hstarting, hpausing⟩
  cases h with
  | rest quiet => exact .inl ⟨r₁, hr₁, hstarting, hpausing⟩
  | spawn loopless => simp [loopless] at hr₁
  | refuse loopless => simp [loopless] at hr₁
  | @move c r r' effects loop move =>
      obtain rfl : r = r₁ := by simpa [loop] using hr₁
      have hr' := loops_moved loop r' effects
      -- Three moves lead to a pause, and all others go on.
      cases move with
      | @retry r since e failures stage refused =>
          exact .inr (.inr ⟨⟨e, rfl⟩, by simp [moved, told, LinkStatus.hasFailed]⟩)
      | lost | missed => exact .inr (.inl ⟨_, rfl, rfl⟩)
      | _ => exact .inl ⟨_, hr', by simp, by simp⟩

/-- A session ends by its stream or by its sink, unless the clock cannot name the time of its first
sign of life. -/
theorem Trial.ends {l l' : Link} {now limit missed n k : Nat} {c : Option Event}
    (h : l.Trial now c l') (hl : l.Retries limit missed)
    (hbefore : (l.stageOf n).session? = some k) (hafter : (l'.stageOf n).session? ≠ some k) :
    (∃ c' ∈ c, c'.ends = true) ∨ clockLimit ≤ now + l.config.heartbeat := by
  cases h with
  | rest quiet => exact absurd hbefore hafter
  | spawn loopless => simp [stageOf, loopless, Stage.session?] at hbefore
  | refuse loopless => simp [stageOf, loopless, Stage.session?] at hbefore
  | @move c r r' effects loop move =>
      have ht := hl.trying_of_loops loop
      have hr : l.loops[0]? = some r := by simp [loop]
      have hn : n = 0 := by
        cases n with
        | zero => rfl
        | succ n => simp [stageOf, loop, Stage.session?] at hbefore
      rw [hn, stageOf_of_getElem? hr] at hbefore
      rw [hn, stageOf_moved hr, if_pos rfl] at hafter
      cases move with
      | overrun stage unreachable => exact .inr unreachable
      | lost | missed => exact .inl ⟨_, rfl, rfl⟩
      | stopSession _ stopping => simp [ht.stopping] at stopping
      | _ => simp_all [Stage.session?]

end Link

end LiveFeed
