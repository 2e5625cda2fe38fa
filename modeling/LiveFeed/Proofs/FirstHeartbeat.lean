import LiveFeed.Proofs.Heartbeats
import LiveFeed.Proofs.StoredSettings

/-!
# The first sign of life of a session

The time between two signs of life is a setting, and any number of seconds is accepted that is not
zero.  When a session is opened its first sign of life is planned, and the clock may not be able to name
that time: then the loop is broken off, and the status goes on to say that there is a connection.

* `Link.Move.leaves`: how a loop can let go of its session;
* `System.Minded`: what becomes of the sessions of a link with such a time between signs of life;
* `Config.loads_set_iff`: when settings load after one of them was set;
* `Database.first_heartbeat`: the sessions of a link that is made of stored settings;
* `Database.heartbeat_beyond_clock`: a time that is accepted, and beyond the clock.
-/

namespace LiveFeed

variable {ρ ν : Type}

namespace Link

/-- A loop that lets go of its session waits for the next attempt, or has been stopped, or the clock
cannot name the time of the first sign of life. -/
theorem Move.leaves {config : LinkConfig} {now n : Nat} {c : Event} {r r' : RunLoop}
    {effects : List Effect} {k : Nat} (h : Move config now n c r r' effects)
    (before : r.stage.session? = some k) (after : r'.stage.session? = none) :
    (r'.stage = .pausing (now + config.pause) ∧ told effects = some .reconnecting) ∨
      (r'.stage = .ended ∧ told effects = some .disposed) ∨
      (r'.stage = .crashed ∧ told effects = none ∧ clockLimit ≤ now + config.heartbeat) := by
  cases h with
  | lost | missed => exact .inl ⟨rfl, rfl⟩
  | stopSession => exact .inr (.inl ⟨rfl, rfl⟩)
  | overrun stage unreachable => exact .inr (.inr ⟨rfl, rfl, unreachable⟩)
  | opened | follow | beat => cases after
  -- Whoever else moves holds no session.
  | _ => simp_all [Stage.session?]

theorem stageOf_moveTo {l : Link} {n : Nat} (h : l.stageOf n ≠ .ended) (stage : Stage) :
    (l.moveTo n stage).stageOf n = stage := by
  rcases exists_loop_of_stageOf h with ⟨r, hr, -⟩
  simp [moveTo, modifyLoop, stageOf, hr]

end Link

namespace System

/-- How a loop parts with its session at an event. -/
inductive Parts (s s' : System ρ ν) (loop : Nat) : Prop where
  | pauses (status : s'.link.status = .reconnecting)
      (stage : s'.link.stageOf loop = .pausing (s.now + s.link.config.pause))
  | stops (status : s'.link.status = .disposed) (stage : s'.link.stageOf loop = .ended)
  | breaksOff (status : s'.link.status = s.link.status) (stage : s'.link.stageOf loop = .crashed)
      (unreachable : Link.clockLimit ≤ s.now + s.link.config.heartbeat)

theorem Change.parts {s s' : System ρ ν} {e : Event ρ ν} (h : Change s e s') {loop k : Nat}
    (before : (s.link.stageOf loop).session? = some k)
    (after : (s'.link.stageOf loop).session? ≠ some k) : Parts s s' loop := by
  -- A loop that goes on, or that is another one, still holds what it held.
  have hmoved : ∀ {n : Nat} {r r' : RunLoop} (effects : List Link.Effect),
      s.link.loops[n]? = some r → (∀ k, r.stage.session? = some k → r'.stage.session? = some k) →
      ((s.link.moved n r' effects).stageOf loop).session? = some k := by
    intro n r r' effects hr hkeeps
    rw [Link.stageOf_moved hr]
    split
    · next heq =>
        rw [heq, Link.stageOf_of_getElem? hr] at before
        exact hkeeps k before
    · exact before
  cases h with
  | stay | hub | hears | skips | serves | pass => exact absurd before after
  | call asks call => exact absurd ((call.session_eq loop).trans before) after
  | shift idle hr move hnone => exact absurd (hmoved _ hr fun k hk => by simp [hnone] at hk) after
  | opens idle hr stage =>
      exact absurd (hmoved _ hr fun k hk => by simp [stage, Stage.session?] at hk) after
  | follows idle hr stage => exact absurd (hmoved _ hr fun k hk => by rwa [stage] at hk) after
  | beats idle hr stage => exact absurd (hmoved _ hr fun k hk => by rwa [stage] at hk) after
  | @leaves _ c n session r r' effects f idle hr move hsession hnone releases =>
      by_cases hloop : loop = n
      · subst hloop
        have hstage := Link.stageOf_moved hr r' effects loop
        rw [if_pos rfl] at hstage
        rcases move.leaves hsession hnone with ⟨h, htold⟩ | ⟨h, htold⟩ | ⟨h, htold, hlate⟩
        · exact .pauses (by simp [Link.moved, htold]) (hstage.trans h)
        · exact .stops (by simp [Link.moved, htold]) (hstage.trans h)
        · exact .breaksOff (by simp [Link.moved, htold]) (hstage.trans h) hlate
      · refine absurd ?_ after
        rw [Link.stageOf_moved hr, if_neg hloop]
        exact before

/-- What becomes of the sessions of a link with so much time between two signs of life. -/
structure Minded (s : System ρ ν) (heartbeat : Nat) : Prop where
  /-- After everything was announced, a loop follows its session if the clock can name the time of the
  first sign of life. -/
  follows : ∀ loop k since, s.hub.fanOuts = [] → s.link.stageOf loop = .opening k since →
    s.now + heartbeat < Link.clockLimit →
    (s.step (.follow loop)).link.stageOf loop = .live k (s.now + heartbeat) ∧
      (s.step (.follow loop)).link.status = s.link.status
  /-- Otherwise it is broken off, and the status stays as it is. -/
  breaksOff : ∀ loop k since, s.hub.fanOuts = [] → s.link.stageOf loop = .opening k since →
    Link.clockLimit ≤ s.now + heartbeat →
    (s.step (.follow loop)).link.stageOf loop = .crashed ∧
      (s.step (.follow loop)).link.status = s.link.status
  /-- A loop that follows a session makes the hub call what is registered under the topic of a frame. -/
  hears : ∀ loop k due x frame, s.hub.fanOuts = [] → s.link.stageOf loop = .live k due →
    s.sessions[k]? = some x → x.next? = some (some frame) →
    s.told (.read loop) = ((Topic.announced? frame).map Hub.Event.notify).toList
  /-- It leaves a session that has come to its end, and another attempt will follow. -/
  closes : ∀ loop k due x, s.hub.fanOuts = [] → s.link.stageOf loop = .live k due →
    s.sessions[k]? = some x → x.next? = some none →
    (s.step (.read loop)).link.stageOf loop = .pausing (s.now + s.link.config.pause) ∧
      (s.step (.read loop)).link.status = .reconnecting
  /-- In no other way does a loop part with a session, but when it is stopped or a sign of life cannot be
  sent. -/
  parts : ∀ e loop k, (s.link.stageOf loop).session? = some k →
    ((s.step e).link.stageOf loop).session? ≠ some k → Parts s (s.step e) loop

theorem link_step_of_turn? {s : System ρ ν} {e : Event ρ ν} {c : Link.Event} (h : s.turn? e = some c) :
    (s.step e).link = (s.link.step s.now c).1 := by
  rw [link_step, h]
  rfl

theorem minded {s : System ρ ν} {heartbeat : Nat} (h : s.link.config.heartbeat = heartbeat) :
    s.Minded heartbeat := by
  subst h
  have hidle? : s.hub.fanOuts = [] → s.hub.fanOuts.isEmpty = true := fun hidle => by rw [hidle]; rfl
  have hfollow : ∀ loop, s.hub.fanOuts = [] →
      (s.step (.follow loop)).link = (s.link.follow s.now loop).1 := by
    intro loop hidle
    have hturn : s.turn? (.follow loop) = some (.follow loop) :=
      whenIdle?_eq_some.2 ⟨hidle? hidle, rfl⟩
    exact link_step_of_turn? hturn
  refine ⟨?_, ?_, ?_, ?_, fun e loop k => (change_step s e).parts⟩
  · intro loop k since hidle stage hreach
    rw [hfollow loop hidle, Link.follow, stage]
    simp only [if_pos hreach]
    exact ⟨Link.stageOf_moveTo (by simp [stage]) _, rfl⟩
  · intro loop k since hidle stage hbeyond
    rw [hfollow loop hidle, Link.follow, stage]
    simp only [if_neg (Nat.not_lt_of_le hbeyond)]
    exact ⟨Link.stageOf_moveTo (by simp [stage]) _, rfl⟩
  · intro loop k due x frame hidle stage hx hnext
    have hreads := reads?_eq_some.2 ⟨due, x, stage, hx, hnext⟩
    exact (told_of_frame (whenIdle?_eq_some.2 ⟨hidle? hidle, hreads⟩)).2
  · intro loop k due x hidle stage hx hnext
    have hreads := reads?_eq_some.2 ⟨due, x, stage, hx, hnext⟩
    have hturn : s.turn? (.read loop) = some (.lost loop) :=
      whenIdle?_eq_some.2 ⟨hidle? hidle, by rw [hreads]; rfl⟩
    rw [link_step_of_turn? hturn, Link.step, Link.lost, stage]
    exact ⟨Link.stageOf_moveTo (by simp [stage]) _, rfl⟩

theorem minded_after (config : LinkConfig) (hperiod : config.heartbeat ≠ 0) (scheme : String)
    (events : List (Event ρ ν)) (n : Nat) :
    ((create config scheme).after events n).Minded config.heartbeat := by
  refine minded ?_
  refine after_induction (motive := fun s => s.link.config.heartbeat = config.heartbeat)
    (Nat.zero_le n) ?_ ?_
  · rw [after_zero]
    exact if_neg hperiod
  · intro k e _ _ _ hk
    rw [(change_step _ e).config_eq]
    exact hk

end System

namespace Config

theorem set_eq_ok_iff {t t' : Table} {key : Key} {text : String} :
    set t key.name text = .ok t' ↔ Accepts key text ∧ t' = t.put key.name text := by
  rw [set, check_name, map_eq_ok_iff, Accepts]
  constructor
  · rintro ⟨_, haccepts, rfl⟩
    exact ⟨haccepts, rfl⟩
  · rintro ⟨haccepts, rfl⟩
    exact ⟨(), haccepts, rfl⟩

theorem name_injective {key key' : Key} (h : key.name = key'.name) : key = key' := by
  cases key <;> cases key' <;> first | rfl | exact absurd h (by decide)

/-- After a setting was set, settings load if and only if the rows of the others pass their checks. -/
theorem loads_set_iff {t t' : Table} {key : Key} {text : String}
    (hset : set t key.name text = .ok t') :
    (∃ settings, ClientSettings.load t' = .ok settings) ↔
      ∀ other value, other ≠ key → t.get? other.name = some value → Accepts other value := by
  obtain ⟨haccepts, rfl⟩ := set_eq_ok_iff.1 hset
  rw [ClientSettings.loads_iff]
  constructor
  · intro h other value hother hrow
    refine h other value ?_
    rw [Table.get?_put, if_neg fun hname => hother (name_injective hname)]
    exact hrow
  · intro h other value hrow
    rw [Table.get?_put] at hrow
    split at hrow
    · next hname =>
        obtain rfl := name_injective hname
        obtain rfl := Option.some.inj hrow
        exact haccepts
    · next hname => exact h other value (fun heq => hname (congrArg Key.name heq)) hrow

end Config

namespace Database

/-- Whatever is accepted as the time between signs of life is a number of seconds, and not zero.  In every
run of a link that is made of the settings that load then, a session is followed if and only if the clock
can name the time that is so many seconds ahead. -/
theorem first_heartbeat {t t' : Table} {text : String}
    (hset : Config.set t Config.Key.heartbeatSecs.name text = .ok t') :
    ∃ secs, Text.whole Config.timeLimit text = .ok secs ∧ 0 < secs ∧
      ((∃ settings, ClientSettings.load t' = .ok settings) ↔
        ∀ other value, other ≠ Config.Key.heartbeatSecs → t.get? other.name = some value →
          Config.Accepts other value) ∧
      ∀ settings, ClientSettings.load t' = .ok settings →
        ∀ (scheme : String) (events : List (System.Event ρ ν)) (n : Nat),
          ((System.create settings.link scheme).after events n).Minded (secs * 1000) := by
  obtain ⟨haccepts, rfl⟩ := Config.set_eq_ok_iff.1 hset
  obtain ⟨secs, hwhole, hpositive⟩ := Config.checkTime_eq_ok_iff.1 haccepts
  refine ⟨secs, hwhole, Nat.pos_of_ne_zero hpositive, Config.loads_set_iff hset, ?_⟩
  intro settings hload scheme events n
  have hstands := (ClientSettings.load_eq_ok_iff.1 hload).heartbeat
  rw [Table.get?_put, if_pos rfl] at hstands
  obtain ⟨secs', hwhole', -, htime⟩ := hstands
  obtain rfl : secs = secs' := Except.ok.inj (hwhole.symm.trans hwhole')
  rw [← htime]
  refine System.minded_after settings.link ?_ scheme events n
  omega

/-- A session that is opened at once and brings a frame before the service closes it. -/
def briefSession : List (System.Event Unit Nat) :=
  [.connect, .start 0, .grant 0, .hub .finish, .follow 0, .deliver 0 (.text Topic.user.frame),
    .close 0, .read 0, .hub .finish, .read 0]

theorem first_heartbeat_brief :
    ∃ t settings, Config.set .empty Config.Key.heartbeatSecs.name "20" = .ok t ∧
      ClientSettings.load t = .ok settings ∧
      (∀ n, ((System.create settings.link "ws" : System Unit Nat).after briefSession n).Minded 20000) ∧
      ((System.create settings.link "ws" : System Unit Nat).run briefSession).published =
        [.reconnecting, .connected, .connecting] := by
  have hset : Config.set .empty Config.Key.heartbeatSecs.name "20" =
      .ok (Table.empty.put "heartbeat_secs" "20") := rfl
  have hload : ClientSettings.load (Table.empty.put "heartbeat_secs" "20") =
      .ok ⟨ClientSettings.defaultBackendUrl, ⟨20000, 1000, none⟩⟩ := rfl
  obtain ⟨secs, hwhole, -, -, hminded⟩ := first_heartbeat (ρ := Unit) (ν := Nat) hset
  obtain rfl : 20 = secs := Except.ok.inj hwhole
  exact ⟨_, _, hset, hload, hminded _ hload "ws" briefSession, by cbv⟩

/-- The largest time that is accepted lies beyond the clock: the loop is broken off, and the status says
that there is a connection when the service has long closed it. -/
theorem heartbeat_beyond_clock :
    ∃ t settings, Config.set .empty Config.Key.heartbeatSecs.name "18446744073709551615" = .ok t ∧
      ClientSettings.load t = .ok settings ∧
      ((System.create settings.link "ws" : System Unit Nat).run briefSession).link.status = .connected ∧
      ((System.create settings.link "ws" : System Unit Nat).run briefSession).link.stageOf 0 = .crashed ∧
      ((System.create settings.link "ws" : System Unit Nat).run briefSession).sessions.map
        (fun x => (x.closed, x.held)) = [(true, false)] :=
  ⟨_, _, rfl, rfl, rfl, rfl, rfl⟩

end Database

end LiveFeed
