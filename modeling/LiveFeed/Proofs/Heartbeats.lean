import LiveFeed.Proofs.Freshness
import LiveFeed.Proofs.SessionStream

/-!
# Signs of life

While a run loop follows a session it sends one sign of life a period, the first one a period after
the session was opened.  The clock stops at every time that a loop waits for, so that none is late.

* `LinkConfig.period`, `Session.beats`: the time between two signs of life, and what is sent by them;
* `System.Paced`, `System.Paced.step`: what was sent on a session and when the next sign of life is
  due, step by step;
* `System.Heartbeats`, `System.heartbeats`: what is sent on every session of every run.
-/

namespace LiveFeed

variable {ρ ν : Type}

/-- The time between two signs of life; no time at all means the default. -/
def LinkConfig.period (config : LinkConfig) : Nat :=
  if config.heartbeat = 0 then LinkConfig.default.heartbeat else config.heartbeat

theorem LinkConfig.period_pos (config : LinkConfig) : 0 < config.period := by
  unfold period
  split
  · decide
  · omega

namespace Session

/-- The first signs of life of a session, oldest first, with their times. -/
def beats (opened period count : Nat) : List (Nat × String) :=
  (List.range count).map fun k => (opened + (k + 1) * period, Link.heartbeatFrame)

theorem beats_succ (opened period count : Nat) :
    beats opened period (count + 1) =
      beats opened period count ++ [(opened + (count + 1) * period, Link.heartbeatFrame)] := by
  simp [beats, List.range_succ]

theorem mem_beats {opened period count : Nat} {frame : Nat × String}
    (h : frame ∈ beats opened period count) :
    opened + period ≤ frame.1 ∧ frame.2 = Link.heartbeatFrame := by
  rcases List.mem_map.1 h with ⟨k, -, rfl⟩
  refine ⟨?_, rfl⟩
  have hperiod : period ≤ (k + 1) * period := Nat.le_mul_of_pos_left period (Nat.succ_pos k)
  exact Nat.add_le_add_left hperiod opened

end Session

namespace Link

/-- No call moves a loop that holds a session. -/
theorem Call.stage_eq {l l' : Link} {c : Event} {st : Option LinkStatus} (h : Call l c l' st)
    {n k : Nat} (hn : (l'.stageOf n).session? = some k) : l'.stageOf n = l.stageOf n := by
  cases h with
  | spawn dropped idle unfinished =>
      by_cases hlt : n < l.loops.length
      · simp [stageOf, List.getElem?_append_left hlt]
      · -- The loop that is started holds no session yet.
        have hge := Nat.le_of_not_lt hlt
        simp only [stageOf, List.getElem?_append_right hge] at hn
        cases hm : n - l.loops.length <;> simp [hm, RunLoop.fresh, Stage.session?] at hn
  | @ask m dropped running =>
      exact l.stageOf_modifyLoop m n (f := fun r => { r with stopping := true }) fun _ => rfl
  | @dropRunning m running =>
      exact stageOf_modifyLoop (f := fun r => { r with stopping := true }) _ m n fun _ => rfl
  | _ => rfl

end Link

namespace System

/-! ## What was sent on a session, and what is due -/

/-- Where a loop may stand that holds a session, by what was sent on it: everything is announced at
the time of the opening, or the next sign of life is due in time. -/
inductive Paces (period now opened : Nat) (sent : List (Nat × String)) : Stage → Prop where
  | opening (session : Nat) (still : now = opened) (none_sent : sent = []) :
      Paces period now opened sent (.opening session opened)
  | live (session count : Nat) (sent_eq : sent.reverse = Session.beats opened period count)
      (past : opened + count * period ≤ now) (ahead : now ≤ opened + (count + 1) * period) :
      Paces period now opened sent (.live session (opened + (count + 1) * period))

/-- What was sent on session `k`, who holds it and when the next sign of life is due. -/
structure Paced (s : System ρ ν) (period k : Nat) (x : Session) : Prop where
  sent : ∃ count, x.sent.reverse = Session.beats x.opened period count ∧
    x.opened + count * period ≤ s.now
  held : x.held = true ↔ s.link.Holds k
  paces : ∀ n, (s.link.stageOf n).session? = some k →
    Paces period s.now x.opened x.sent (s.link.stageOf n)

/-- What was sent and what is due stay as they are if the clock, the record of the session and its holder
do. -/
theorem Paced.frame {s s' : System ρ ν} {period k : Nat} {x y : Session} (h : s.Paced period k x)
    (hnow : s'.now = s.now) (hopened : y.opened = x.opened) (hheld : y.held = x.held)
    (hsent : y.sent = x.sent)
    (hholders : ∀ n, (s'.link.stageOf n).session? = some k ↔ (s.link.stageOf n).session? = some k)
    (hstage : ∀ n, (s'.link.stageOf n).session? = some k → s'.link.stageOf n = s.link.stageOf n) :
    s'.Paced period k y := by
  refine ⟨?_, ?_, ?_⟩
  · rw [hopened, hsent, hnow]
    exact h.sent
  · rw [hheld, h.held]
    exact exists_congr fun n => (hholders n).symm
  · intro n hn
    rw [hnow, hopened, hsent, hstage n hn]
    exact h.paces n ((hholders n).1 hn)

/-- What happens to the service's side of a session, or to anything but sessions, is nothing to it. -/
theorem Paced.of_link_eq {s s' : System ρ ν} {period k : Nat} {x y : Session}
    (h : s.Paced period k x) (hlink : s'.link = s.link) (hnow : s'.now = s.now)
    (hopened : y.opened = x.opened) (hheld : y.held = x.held) (hsent : y.sent = x.sent) :
    s'.Paced period k y :=
  h.frame hnow hopened hheld hsent (fun n => by rw [hlink]) fun n _ => by rw [hlink]

/-- What a loop does with another session is nothing to it either. -/
theorem Paced.of_moved {s s' : System ρ ν} {period k n : Nat} {x : Session} {r r' : RunLoop}
    {effects : List Link.Effect} (h : s.Paced period k x) (hr : s.link.loops[n]? = some r)
    (hlink : s'.link = s.link.moved n r' effects) (hnow : s'.now = s.now)
    (hbefore : r.stage.session? ≠ some k) (hafter : r'.stage.session? ≠ some k) :
    s'.Paced period k x := by
  have hstage : ∀ m, s'.link.stageOf m = if m = n then r'.stage else s.link.stageOf m := by
    intro m
    rw [hlink, Link.stageOf_moved hr]
  refine h.frame hnow rfl rfl rfl ?_ ?_
  · intro m
    rw [hstage]
    split
    · next heq =>
        rw [heq, Link.stageOf_of_getElem? hr]
        exact iff_of_false hafter hbefore
    · exact Iff.rfl
  · intro m hm
    rw [hstage] at hm ⊢
    split at hm
    · exact absurd hm hafter
    · next hne => exact if_neg hne

/-- Only the loop that held a session holds it after a move of that loop. -/
theorem Apart.of_moved {s s' : System ρ ν} {k n m : Nat} {r r' : RunLoop}
    {effects : List Link.Effect} (h : s.Apart) (hr : s.link.loops[n]? = some r)
    (hlink : s'.link = s.link.moved n r' effects) (hbefore : r.stage.session? = some k)
    (hm : (s'.link.stageOf m).session? = some k) : m = n ∧ s'.link.stageOf m = r'.stage := by
  rw [hlink, Link.stageOf_moved hr] at hm ⊢
  split at hm
  · next heq => exact ⟨heq, if_pos heq⟩
  · next hne =>
      have hn : (s.link.stageOf n).session? = some k := by rw [Link.stageOf_of_getElem? hr, hbefore]
      exact absurd (h.alone m n k hm hn) hne

/-- A loop that goes on with its session sends what is due, or makes the next sign of life due. -/
theorem Paced.goes_on {s s' : System ρ ν} {period k n : Nat} {x y : Session} {r r' : RunLoop}
    {effects : List Link.Effect} (h : s.Paced period k x) (hapart : s.Apart)
    (hr : s.link.loops[n]? = some r) (hlink : s'.link = s.link.moved n r' effects)
    (hbefore : r.stage.session? = some k) (hafter : r'.stage.session? = some k)
    (hheld : y.held = x.held)
    (hsent : ∃ count, y.sent.reverse = Session.beats y.opened period count ∧
      y.opened + count * period ≤ s'.now)
    (hpaces : Paces period s'.now y.opened y.sent r'.stage) : s'.Paced period k y := by
  refine ⟨hsent, ?_, ?_⟩
  · -- The loop holds the session before and after, so it is held at both times.
    have hn : (s.link.stageOf n).session? = some k := by rw [Link.stageOf_of_getElem? hr, hbefore]
    have hn' : (s'.link.stageOf n).session? = some k := by
      rw [hlink, Link.stageOf_moved hr, if_pos rfl, hafter]
    rw [hheld, h.held]
    exact iff_of_true ⟨n, hn⟩ ⟨n, hn'⟩
  · intro m hm
    rw [(hapart.of_moved hr hlink hbefore hm).2]
    exact hpaces

/-- What becomes of a session: it stays the one that was opened then, and once it is not held nothing
more is sent on it. -/
structure Succeeds (x y : Session) : Prop where
  opened : y.opened = x.opened
  ended : x.held = false → y.held = false ∧ y.sent = x.sent

theorem Succeeds.refl (x : Session) : Succeeds x x := ⟨rfl, fun h => ⟨h, rfl⟩⟩

theorem Succeeds.trans {x y z : Session} (h : Succeeds x y) (h' : Succeeds y z) : Succeeds x z := by
  refine ⟨h'.opened.trans h.opened, ?_⟩
  intro hx
  rcases h.ended hx with ⟨hy, hsent⟩
  rcases h'.ended hy with ⟨hz, hsent'⟩
  exact ⟨hz, hsent'.trans hsent⟩

theorem getElem?_modify_of {sessions : List Session} {k : Nat} {x : Session}
    (hx : sessions[k]? = some x) (m : Nat) (f : Session → Session) :
    (sessions.modify m f)[k]? = some (if m = k then f x else x) := by
  rw [List.getElem?_modify, hx]
  split <;> rfl

/-! ## What a step sends -/

section Step

variable {s : System ρ ν} {period k n : Nat} {x : Session} {r : RunLoop}

theorem Paced.paces_of (h : s.Paced period k x) (hr : s.link.loops[n]? = some r)
    (hk : r.stage.session? = some k) : Paces period s.now x.opened x.sent r.stage := by
  rw [← Link.stageOf_of_getElem? hr] at hk ⊢
  exact h.paces n hk

/-- When everything was announced, the first sign of life is due a period after the opening. -/
theorem Paced.follows {since : Nat} (h : s.Paced period k x) (hapart : s.Apart)
    (hperiod : s.link.config.heartbeat = period) (hr : s.link.loops[n]? = some r)
    (stage : r.stage = .opening k since) :
    Paced { s with
      link := s.link.moved n { r with stage := .live k (s.now + s.link.config.heartbeat) } [] }
      period k x := by
  have hbefore : r.stage.session? = some k := by rw [stage]; rfl
  have hpaces := h.paces_of hr hbefore
  rw [stage] at hpaces
  cases hpaces with
  | opening _ still none_sent =>
      -- The clock has stood still since the session was opened.
      have hdue : s.now + s.link.config.heartbeat = x.opened + (0 + 1) * period := by
        rw [still, hperiod, Nat.zero_add, Nat.one_mul]
      refine h.goes_on hapart hr rfl hbefore rfl rfl h.sent ?_
      simp only [hdue]
      refine .live k 0 ?_ ?_ ?_
      · simp [none_sent, Session.beats]
      · simp [still]
      · simp [still]

/-- A sign of life is sent when it is due, and the next one is due a period later. -/
theorem Paced.beats {due : Nat} (h : s.Paced period k x) (hapart : s.Apart)
    (hperiod : s.link.config.heartbeat = period) (hr : s.link.loops[n]? = some r)
    (stage : r.stage = .live k due) (late : due ≤ s.now) (takes : x.takes = true)
    (sessions : List Session) :
    Paced { s with
      link := s.link.moved n { r with stage := .live k (s.now + s.link.config.heartbeat) } []
      sessions := sessions } period k (x.send s.now Link.heartbeatFrame) := by
  have hsend : x.send s.now Link.heartbeatFrame =
      { x with sent := (s.now, Link.heartbeatFrame) :: x.sent } := by
    simp [Session.send, takes]
  have hbefore : r.stage.session? = some k := by rw [stage]; rfl
  have hpaces := h.paces_of hr hbefore
  rw [stage] at hpaces
  rw [hsend]
  cases hpaces with
  | live _ count sent_eq past ahead =>
      -- The clock has stopped at the time that is due.
      have hnow : s.now = x.opened + (count + 1) * period := Nat.le_antisymm ahead late
      have hsent : ((s.now, Link.heartbeatFrame) :: x.sent).reverse =
          Session.beats x.opened period (count + 1) := by
        rw [List.reverse_cons, sent_eq, hnow, Session.beats_succ]
      have hdue : s.now + s.link.config.heartbeat = x.opened + (count + 1 + 1) * period := by
        rw [hnow, hperiod, Nat.succ_mul (count + 1), Nat.add_assoc]
      refine h.goes_on hapart hr rfl hbefore rfl rfl ⟨count + 1, hsent, late⟩ ?_
      simp only [hdue]
      refine .live k (count + 1) hsent late ?_
      calc s.now ≤ s.now + s.link.config.heartbeat := Nat.le_add_right _ _
        _ = x.opened + (count + 1 + 1) * period := hdue

/-- Nobody holds the session that a loop lets go of. -/
theorem Paced.leaves {s' : System ρ ν} {r' : RunLoop} {effects : List Link.Effect}
    {f : Session → Session} (h : s.Paced period k x) (hapart : s.Apart)
    (hr : s.link.loops[n]? = some r) (hlink : s'.link = s.link.moved n r' effects)
    (hnow : s'.now = s.now) (before : r.stage.session? = some k) (after : r'.stage.session? = none)
    (releases : Releases f x) : s'.Paced period k (f x) := by
  have hnobody : ∀ m, (s'.link.stageOf m).session? ≠ some k := by
    intro m hm
    rw [(hapart.of_moved hr hlink before hm).2, after] at hm
    cases hm
  refine ⟨?_, ?_, ?_⟩
  · rw [releases.opened, releases.sent, hnow]
    exact h.sent
  · rw [releases.held]
    refine iff_of_false Bool.false_ne_true ?_
    rintro ⟨m, hm⟩
    exact hnobody m hm
  · intro m hm
    exact absurd hm (hnobody m)

/-- Time passes up to what is due. -/
theorem Paced.passes {time : Nat} (h : s.Paced period k x) (later : s.now ≤ time)
    (stops : ∀ n due, (s.link.stageOf n).due? = some due → time ≤ due) :
    Paced { s with now := time } period k x := by
  refine ⟨?_, h.held, ?_⟩
  · rcases h.sent with ⟨count, hsent, hpast⟩
    exact ⟨count, hsent, Nat.le_trans hpast later⟩
  · intro n hn
    have hstops := stops n
    have hpaces := h.paces n hn
    simp only
    generalize s.link.stageOf n = stage at hstops hpaces
    cases hpaces with
    | opening session still none_sent =>
        have hle := hstops x.opened rfl
        exact .opening session (by omega) none_sent
    | live session count sent_eq past ahead =>
        exact .live session count sent_eq (Nat.le_trans past later) (hstops _ rfl)

theorem Paced.step {s' : System ρ ν} {e : Event ρ ν} (h : s.Paced period k x) (hapart : s.Apart)
    (hperiod : s.link.config.heartbeat = period) (hx : s.sessions[k]? = some x)
    (hchange : Change s e s') :
    ∃ y, s'.sessions[k]? = some y ∧ Succeeds x y ∧ s'.Paced period k y := by
  cases hchange with
  | stay => exact ⟨x, hx, .refl x, h⟩
  | hub e => exact ⟨x, hx, .refl x, h.of_link_eq rfl rfl rfl rfl rfl⟩
  | call asks call =>
      refine ⟨x, hx, .refl x, h.frame rfl rfl rfl rfl ?_ ?_⟩
      · intro n
        rw [call.session_eq]
      · intro n hn
        exact call.stage_eq hn
  | shift idle loop move before after counted =>
      -- The loop that moves holds no session, this one or another.
      refine ⟨x, hx, .refl x, h.of_moved loop rfl rfl ?_ ?_⟩
      · simp [before]
      · simp [after]
  | @opens n since r idle loop stage =>
      have hlt : k < s.sessions.length := (List.getElem?_eq_some_iff.1 hx).1
      refine ⟨x, ?_, .refl x, h.of_moved loop rfl rfl ?_ ?_⟩
      · rw [List.getElem?_append_left hlt, hx]
      · simp [stage, Stage.session?]
      · -- The session that is opened is none of those there were.
        simp only [Stage.session?, ne_eq, Option.some.injEq]
        omega
  | @follows n session since r idle loop stage =>
      refine ⟨x, hx, .refl x, ?_⟩
      by_cases hk : session = k
      · subst hk
        exact h.follows hapart hperiod loop stage
      · refine h.of_moved loop rfl rfl ?_ ?_
        · simpa [stage, Stage.session?] using hk
        · simpa [Stage.session?] using hk
  | @hears n session due r x' frame rest t idle loop stage found inbound topic =>
      refine ⟨_, getElem?_modify_of hx session _, ?_⟩
      split
      · exact ⟨⟨rfl, fun hheld => ⟨hheld, rfl⟩⟩, h.of_link_eq rfl rfl rfl rfl rfl⟩
      · exact ⟨.refl x, h.of_link_eq rfl rfl rfl rfl rfl⟩
  | @skips n session due r x' frame rest e idle loop stage found inbound malformed =>
      refine ⟨_, getElem?_modify_of hx session _, ?_⟩
      split
      · exact ⟨⟨rfl, fun hheld => ⟨hheld, rfl⟩⟩, h.of_link_eq rfl rfl rfl rfl rfl⟩
      · exact ⟨.refl x, h.of_link_eq rfl rfl rfl rfl rfl⟩
  | @beats n session due r idle loop stage late takes =>
      refine ⟨_, getElem?_modify_of hx session _, ?_⟩
      by_cases hk : session = k
      · subst hk
        rw [if_pos rfl]
        refine ⟨⟨?_, ?_⟩, h.beats hapart hperiod loop stage late (takes x hx) _⟩
        · simp [Session.send, takes x hx]
        · -- A session on which something is sent is held.
          intro hnot
          have hheld : x.held = true :=
            h.held.2 ⟨n, by rw [Link.stageOf_of_getElem? loop, stage]; rfl⟩
          rw [hheld] at hnot
          cases hnot
      · rw [if_neg hk]
        refine ⟨.refl x, h.of_moved loop rfl rfl ?_ ?_⟩
        · simpa [stage, Stage.session?] using hk
        · simpa [Stage.session?] using hk
  | @leaves e c n session r r' effects f idle loop move before after releases =>
      refine ⟨_, getElem?_modify_of hx session _, ?_⟩
      by_cases hk : session = k
      · subst hk
        have hf := releases x hx
        rw [if_pos rfl]
        exact ⟨⟨hf.opened, fun _ => ⟨hf.held, hf.sent⟩⟩,
          h.leaves hapart loop rfl rfl before after hf⟩
      · rw [if_neg hk]
        refine ⟨.refl x, h.of_moved loop rfl rfl ?_ ?_⟩
        · simpa [before] using hk
        · simp [after]
  | serves session serves =>
      refine ⟨_, getElem?_modify_of hx session _, ?_⟩
      split
      · refine ⟨⟨serves.opened x, fun hheld => ⟨(serves.held x).trans hheld, serves.sent x⟩⟩, ?_⟩
        exact h.of_link_eq rfl rfl (serves.opened x) (serves.held x) (serves.sent x)
      · exact ⟨.refl x, h.of_link_eq rfl rfl rfl rfl rfl⟩
  | pass time later stops => exact ⟨x, hx, .refl x, h.passes later stops⟩

/-- A session that is opened is held by the loop that was granted it, and nothing was sent on it. -/
theorem Paced.opened {s' : System ρ ν} {e : Event ρ ν} {y : Session} (hapart : s.Apart)
    (hnone : s.sessions[k]? = none) (hy : s'.sessions[k]? = some y) (hchange : Change s e s') :
    y.opened = s.now ∧ s'.Paced period k y := by
  have hle : s.sessions.length ≤ k := List.getElem?_eq_none_iff.1 hnone
  have hlt : k < s'.sessions.length := (List.getElem?_eq_some_iff.1 hy).1
  cases hchange with
  | @opens n since r idle loop stage =>
      have hlast : k = s.sessions.length := by
        rw [List.length_append, List.length_singleton] at hlt
        omega
      obtain rfl : Session.fresh s.now = y := by simpa [hlast] using hy
      have hstage := fun m => Link.stageOf_moved loop
        { r with stage := .opening s.sessions.length s.now, failures := 0 }
        [.publish .connected, .announceAll] m
      refine ⟨rfl, ⟨0, rfl, by simp [Session.fresh]⟩, iff_of_true rfl ⟨n, ?_⟩, ?_⟩
      · rw [hstage, if_pos rfl, hlast]
        rfl
      · intro m hm
        simp only [hstage] at hm ⊢
        split at hm
        · next heq =>
            rw [if_pos heq]
            exact .opening _ rfl rfl
        · -- No other loop holds a session that was not there.
          have hopened := hapart.opened k ⟨m, hm⟩
          omega
  | _ => exact absurd hlt (Nat.not_lt_of_le (by simpa using hle))

end Step

/-! ## Runs -/

theorem Change.config_eq {s s' : System ρ ν} {e : Event ρ ν} (h : Change s e s') :
    s'.link.config = s.link.config := by
  cases h with
  | call asks call => cases call <;> rfl
  | _ => rfl

/-- What was sent on the sessions of a system, whatever they are. -/
structure Pulse (s : System ρ ν) (period : Nat) : Prop where
  config : s.link.config.heartbeat = period
  apart : s.Apart
  paced : ∀ k x, s.sessions[k]? = some x → s.Paced period k x

theorem pulse_create (config : LinkConfig) (scheme : String) :
    (create config scheme : System ρ ν).Pulse config.period := by
  refine ⟨rfl, apart_create config scheme, ?_⟩
  intro k x hx
  simp [create] at hx

theorem Pulse.step {s s' : System ρ ν} {period : Nat} {e : Event ρ ν} (h : s.Pulse period)
    (hchange : Change s e s') : s'.Pulse period := by
  refine ⟨?_, h.apart.step hchange, ?_⟩
  · rw [hchange.config_eq]
    exact h.config
  · intro k y hy
    cases hx : s.sessions[k]? with
    | none => exact (Paced.opened h.apart hx hy hchange).2
    | some x =>
        rcases (h.paced k x hx).step h.apart h.config hx hchange with ⟨y', hy', -, hpaced⟩
        obtain rfl : y' = y := Option.some.inj (hy'.symm.trans hy)
        exact hpaced

section Run

variable {s : System ρ ν} {events : List (Event ρ ν)} {period : Nat}

theorem pulse_after (hs : s.Pulse period) (events : List (Event ρ ν)) (n : Nat) : (s.after events n).Pulse period :=
  after_induction (motive := fun s => s.Pulse period) (Nat.zero_le n) hs
    fun _ e _ _ _ hk => hk.step (change_step _ e)

/-- A session stays the one it was, and once it has ended nothing more is sent on it. -/
theorem exists_succeeds (hs : s.Pulse period) {m n k : Nat} {x : Session} (hmn : m ≤ n)
    (hx : (s.after events m).sessions[k]? = some x) :
    ∃ y, (s.after events n).sessions[k]? = some y ∧ Succeeds x y := by
  induction hmn with
  -- The induction is on the events between the two points.
  | refl => exact ⟨x, hx, .refl x⟩
  | @step n _ ih =>
      rcases ih with ⟨y, hy, hsucc⟩
      rcases s.after_succ_cases events n with ⟨e, -, hstep⟩ | ⟨-, hsame⟩
      · have hpulse := pulse_after hs events n
        rcases (hpulse.paced k y hy).step hpulse.apart hpulse.config hy (change_step _ e) with
          ⟨z, hz, hsucc', -⟩
        exact ⟨z, by rw [hstep, hz], hsucc.trans hsucc'⟩
      · exact ⟨y, by rw [hsame, hy], hsucc⟩

theorem exists_opened (hs : s.Pulse period) (hnone : s.sessions = []) {n k : Nat} {x : Session}
    (hx : (s.after events n).sessions[k]? = some x) :
    ∃ m, m < n ∧ s.Opens events k m ∧ x.opened = (s.after events m).now := by
  induction n generalizing x with
  | zero => simp [after_zero, hnone] at hx
  | succ n ih =>
      rcases s.after_succ_cases events n with ⟨e, he, hstep⟩ | ⟨-, hsame⟩
      · have hchange := change_step (s.after events n) e
        rw [← hstep] at hchange
        cases hy : (s.after events n).sessions[k]? with
        | some y =>
            rcases ih hy with ⟨m, hm, hopens, hopened⟩
            rcases exists_succeeds hs (Nat.le_succ n) hy with ⟨x', hx', hsucc⟩
            obtain rfl : x' = x := Option.some.inj (hx'.symm.trans hx)
            exact ⟨m, Nat.lt_succ_of_lt hm, hopens, hsucc.opened.trans hopened⟩
        | none =>
            have hle := List.getElem?_eq_none_iff.1 hy
            have hlt := (List.getElem?_eq_some_iff.1 hx).1
            -- The session was not there before this event, which opened it.
            rcases hchange.sessions_cases with hlength | ⟨⟨loop, hgrant⟩, -, -, hlength⟩
            · omega
            · have hpulse := pulse_after hs events n
              have hopened : x.opened = (s.after events n).now ∧
                  (s.after events (n + 1)).Paced period k x :=
                Paced.opened hpulse.apart hy hx hchange
              exact ⟨n, Nat.lt_succ_self n, ⟨loop, by rw [he, hgrant], by omega, by omega⟩, hopened.1⟩
      · rw [hsame] at hx
        rcases ih hx with ⟨m, hm, hopens⟩
        exact ⟨m, Nat.lt_succ_of_lt hm, hopens⟩

/-- No sign of life is due on session `k`: whatever was due was sent. -/
def Fired (s : System ρ ν) (k : Nat) : Prop :=
  ∀ loop due, s.link.stageOf loop = .live k due → s.now < due

/-- What is sent on the sessions of a run. -/
structure Heartbeats (s : System ρ ν) (events : List (Event ρ ν)) (period : Nat) : Prop where
  positive : 0 < period
  counted : ∀ (n k : Nat) (x : Session), (s.after events n).sessions[k]? = some x →
    x.held = true → (s.after events n).Fired k →
      x.sent.reverse =
        Session.beats x.opened period (((s.after events n).now - x.opened) / period)
  only : ∀ (n k : Nat) (x : Session), (s.after events n).sessions[k]? = some x →
    ∃ count, x.sent.reverse = Session.beats x.opened period count ∧
      x.opened + count * period ≤ (s.after events n).now
  first : ∀ (n k : Nat) (x : Session), (s.after events n).sessions[k]? = some x →
    ∀ frame ∈ x.sent, x.opened + period ≤ frame.1
  ended : ∀ (m n k : Nat) (x : Session), m ≤ n → (s.after events m).sessions[k]? = some x →
    x.held = false →
      ∃ y, (s.after events n).sessions[k]? = some y ∧ y.held = false ∧ y.sent = x.sent
  afresh : ∀ (n k : Nat) (x : Session), (s.after events n).sessions[k]? = some x →
    ∃ m, m < n ∧ s.Opens events k m ∧ x.opened = (s.after events m).now

theorem Paced.counted {k : Nat} {x : Session} (h : s.Paced period k x) (hheld : x.held = true)
    (hfired : s.Fired k) :
    x.sent.reverse = Session.beats x.opened period ((s.now - x.opened) / period) := by
  rcases h.held.1 hheld with ⟨n, hn⟩
  have hpaces := h.paces n hn
  have hdue := hfired n
  generalize s.link.stageOf n = stage at hn hpaces hdue
  -- No time has passed since the opening, or the count of what was sent is read off the next time due.
  cases hpaces with
  | opening _ still none_sent => simp [still, none_sent, Session.beats]
  | live session count sent_eq past ahead =>
      obtain rfl : session = k := Option.some.inj hn
      have hlt := hdue _ rfl
      have hcount : (s.now - x.opened) / period = count := by
        refine Nat.div_eq_of_lt_le ?_ ?_
        · exact Nat.le_sub_of_add_le' past
        · exact Nat.sub_lt_left_of_lt_add (by omega) hlt
      rw [hcount, sent_eq]

end Run

/-- On every session of every run one sign of life is sent a period, the first a period after the
opening: as many as periods have passed while the session is held and nothing is due, never anything
else, and nothing more once it is not held.  The next session begins anew. -/
theorem heartbeats (config : LinkConfig) (scheme : String) (events : List (Event ρ ν)) :
    (create config scheme : System ρ ν).Heartbeats events config.period := by
  have hs : (create config scheme : System ρ ν).Pulse config.period := pulse_create config scheme
  have hnone : (create config scheme : System ρ ν).sessions = [] := rfl
  generalize (create config scheme : System ρ ν) = s at hs hnone
  refine ⟨config.period_pos, ?_, ?_, ?_, ?_, ?_⟩
  · intro n k x hx hheld hfired
    exact ((pulse_after hs events n).paced k x hx).counted hheld hfired
  · intro n k x hx
    exact ((pulse_after hs events n).paced k x hx).sent
  · intro n k x hx frame hframe
    rcases ((pulse_after hs events n).paced k x hx).sent with ⟨count, hsent, -⟩
    have hmem : frame ∈ Session.beats x.opened config.period count := by
      rw [← hsent]
      exact List.mem_reverse.2 hframe
    exact (Session.mem_beats hmem).1
  · intro m n k x hmn hx hheld
    rcases exists_succeeds hs hmn hx with ⟨y, hy, hsucc⟩
    exact ⟨y, hy, hsucc.ended hheld⟩
  · intro n k x hx
    exact exists_opened hs hnone hx

/-- Two signs of life on a session that breaks off between them and the next, and one on the session
after it. -/
def brokenBetween : List (Event Unit Nat) :=
  [.connect, .start 0, .grant 0, .hub .finish, .follow 0, .pass 10000, .beat 0, .pass 20000, .beat 0,
    .pass 25000, .breakOff 0 .closed, .read 0, .pass 26000, .resume 0, .grant 0, .hub .finish,
    .follow 0, .pass 36000, .beat 0, .pass 40000]

theorem heartbeats_brokenBetween :
    ∃ x y, ((create ⟨0, 1000, none⟩ "ws" : System Unit Nat).run brokenBetween).sessions = [x, y] ∧
      x.held = false ∧ x.sent.map Prod.fst = [20000, 10000] ∧
      y.opened = 26000 ∧ y.sent.reverse = Session.beats 26000 10000 1 := by
  have hbeats := heartbeats ⟨0, 1000, none⟩ "ws" brokenBetween
  have hloops : ((create ⟨0, 1000, none⟩ "ws" : System Unit Nat).run brokenBetween).link.loops =
      [⟨.live 1 46000, 0, false⟩] := by cbv
  have hfired : ((create ⟨0, 1000, none⟩ "ws" : System Unit Nat).run brokenBetween).Fired 1 := by
    intro loop due hstage
    have hnow : ((create ⟨0, 1000, none⟩ "ws" : System Unit Nat).run brokenBetween).now = 40000 := by
      cbv
    cases loop with
    | zero =>
        simp only [Link.stageOf, hloops] at hstage
        cases hstage
        rw [hnow]
        decide
    | succ loop => simp [Link.stageOf, hloops] at hstage
  refine ⟨_, _, by cbv, rfl, rfl, rfl, ?_⟩
  exact hbeats.counted 20 1 _ (by cbv) rfl hfired

end System

end LiveFeed
