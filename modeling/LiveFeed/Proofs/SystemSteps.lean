import LiveFeed.Proofs.LinkMoves
import LiveFeed.Proofs.Points

/-!
# Steps of the whole system

An event leaves a system as it is, or it is something that happens to the hub, a call of the owner, a
turn of a run loop with all it causes, something the service does to a session, or time that passes.

* `System.Change`: what an event can make of a system;
* `System.change_step`: every step is one of these.
-/

namespace LiveFeed

variable {ρ ν : Type}

namespace System

/-- The call of the owner that an event is. -/
def Event.asks : Event ρ ν → Option Link.Event
  | .connect => some .connect
  | .dispose => some .dispose
  | .disposed loop => some (.disposed loop)
  | .drop => some .drop
  | _ => none

theorem Event.asks_eq_connect {e : Event ρ ν} (h : e.asks = some .connect) : e = .connect := by
  cases e <;> simp [asks] at h ⊢

theorem Event.asks_eq_dispose {e : Event ρ ν} (h : e.asks = some .dispose) : e = .dispose := by
  cases e <;> simp [asks] at h ⊢

theorem Event.asks_eq_drop {e : Event ρ ν} (h : e.asks = some .drop) : e = .drop := by
  cases e <;> simp [asks] at h ⊢

/-- A change of a session after which the link does not hold it; what was sent and what can be read
stays. -/
structure Releases (f : Session → Session) (x : Session) : Prop where
  opened : (f x).opened = x.opened
  held : (f x).held = false
  sent : (f x).sent = x.sent
  inbound : (f x).inbound = x.inbound

/-- What the service does to a session: what can be read becomes more. -/
structure Serves (f : Session → Session) : Prop where
  opened : ∀ x, (f x).opened = x.opened
  held : ∀ x, (f x).held = x.held
  sent : ∀ x, (f x).sent = x.sent
  inbound : ∀ x, ∀ reading ∈ x.inbound, reading ∈ (f x).inbound

theorem inbound_send (x : Session) (now : Nat) (frame : String) :
    (x.send now frame).inbound = x.inbound := by
  unfold Session.send
  split <;> rfl

theorem held_send (x : Session) (now : Nat) (frame : String) :
    (x.send now frame).held = x.held := by
  unfold Session.send
  split <;> rfl

/-- What an event can make of a system. -/
inductive Change (s : System ρ ν) : Event ρ ν → System ρ ν → Prop where
  | stay (e : Event ρ ν) : Change s e s
  | hub (e : Hub.Event ρ ν) : Change s (.hub e) { s with hub := s.hub.step e }
  | call {e : Event ρ ν} {c : Link.Event} {l : Link} {st : Option LinkStatus}
      (asks : e.asks = some c) (call : s.link.Call c l st) :
      Change s e { s with link := l, published := st.toList ++ s.published }
  /-- A loop moves that holds no session before or after. -/
  | shift {e : Event ρ ν} {c : Link.Event} {n attempts : Nat} {r r' : RunLoop}
      {effects : List Link.Effect} (idle : s.hub.fanOuts = []) (loop : s.link.loops[n]? = some r)
      (move : Link.Move s.link.config s.now n c r r' effects) (before : r.stage.session? = none)
      (after : r'.stage.session? = none)
      (counted : attempts = s.attempts ∨ ∃ since, r.stage = .attempting since) :
      Change s e { s with
        link := s.link.moved n r' effects
        attempts := attempts
        published := (Link.told effects).toList ++ s.published }
  /-- The service grants a session, and everything is announced. -/
  | opens {n since : Nat} {r : RunLoop} (idle : s.hub.fanOuts = [])
      (loop : s.link.loops[n]? = some r) (stage : r.stage = .attempting since) :
      Change s (.grant n) { s with
        hub := s.hub.step .notifyAll
        link := s.link.moved n { r with stage := .opening s.sessions.length s.now, failures := 0 }
          [.publish .connected, .announceAll]
        sessions := s.sessions ++ [.fresh s.now]
        attempts := s.attempts + 1
        published := .connected :: s.published }
  /-- Everything was announced. -/
  | follows {n session since : Nat} {r : RunLoop} (idle : s.hub.fanOuts = [])
      (loop : s.link.loops[n]? = some r) (stage : r.stage = .opening session since) :
      Change s (.follow n) { s with
        link := s.link.moved n { r with stage := .live session (s.now + s.link.config.heartbeat) } [] }
  /-- A frame that announces a topic is read. -/
  | hears {n session due : Nat} {r : RunLoop} {x : Session} {frame : String}
      {rest : List (Except SocketError String)} {t : Topic} (idle : s.hub.fanOuts = [])
      (loop : s.link.loops[n]? = some r) (stage : r.stage = .live session due)
      (found : s.sessions[session]? = some x) (inbound : x.inbound = .ok frame :: rest)
      (topic : Topic.ofFrame frame = .ok t) :
      Change s (.read n) { s with
        hub := s.hub.step (.notify t)
        sessions := s.sessions.modify session fun x => { x with inbound := rest } }
  /-- A malformed frame is read and passed over. -/
  | skips {n session due : Nat} {r : RunLoop} {x : Session} {frame : String}
      {rest : List (Except SocketError String)} {e : FrameError} (idle : s.hub.fanOuts = [])
      (loop : s.link.loops[n]? = some r) (stage : r.stage = .live session due)
      (found : s.sessions[session]? = some x) (inbound : x.inbound = .ok frame :: rest)
      (malformed : Topic.ofFrame frame = .error e) :
      Change s (.read n) { s with
        sessions := s.sessions.modify session fun x => { x with inbound := rest } }
  /-- A sign of life is sent. -/
  | beats {n session due : Nat} {r : RunLoop} (idle : s.hub.fanOuts = [])
      (loop : s.link.loops[n]? = some r) (stage : r.stage = .live session due) (late : due ≤ s.now)
      (takes : ∀ x, s.sessions[session]? = some x → x.takes = true) :
      Change s (.beat n) { s with
        link := s.link.moved n { r with stage := .live session (s.now + s.link.config.heartbeat) } []
        sessions := s.sessions.modify session fun x => x.send s.now Link.heartbeatFrame }
  /-- A loop lets go of its session. -/
  | leaves {e : Event ρ ν} {c : Link.Event} {n session : Nat} {r r' : RunLoop}
      {effects : List Link.Effect} {f : Session → Session} (idle : s.hub.fanOuts = [])
      (loop : s.link.loops[n]? = some r)
      (move : Link.Move s.link.config s.now n c r r' effects)
      (before : r.stage.session? = some session) (after : r'.stage.session? = none)
      (releases : ∀ x, s.sessions[session]? = some x → Releases f x) :
      Change s e { s with
        link := s.link.moved n r' effects
        sessions := s.sessions.modify session f
        published := (Link.told effects).toList ++ s.published }
  | serves {e : Event ρ ν} (session : Nat) {f : Session → Session} (serves : Serves f) :
      Change s e { s with sessions := s.sessions.modify session f }
  /-- Time passes, up to the first time that a loop waits for. -/
  | pass (time : Nat) (later : s.now ≤ time)
      (stops : ∀ n due, (s.link.stageOf n).due? = some due → time ≤ due) :
      Change s (.pass time) { s with now := time }

/-- A link is called, or one of its loops moves, or nothing happens to it. -/
theorem Change.link_cases {s s' : System ρ ν} {e : Event ρ ν} (h : Change s e s') :
    s'.link = s.link ∨ (∃ c st, e.asks = some c ∧ s.link.Call c s'.link st) ∨
      ∃ c n r r' effects, s.link.loops[n]? = some r ∧
        Link.Move s.link.config s.now n c r r' effects ∧ s'.link = s.link.moved n r' effects := by
  cases h with
  | call asks call => exact .inr (.inl ⟨_, _, asks, call⟩)
  | shift idle loop move before after counted => exact .inr (.inr ⟨_, _, _, _, _, loop, move, rfl⟩)
  | opens idle loop stage => exact .inr (.inr ⟨_, _, _, _, _, loop, .opened _ stage, rfl⟩)
  | follows idle loop stage => exact .inr (.inr ⟨_, _, _, _, _, loop, .follow stage, rfl⟩)
  | beats idle loop stage late => exact .inr (.inr ⟨_, _, _, _, _, loop, .beat stage late, rfl⟩)
  | leaves idle loop move before after releases =>
      exact .inr (.inr ⟨_, _, _, _, _, loop, move, rfl⟩)
  | _ => exact .inl rfl

/-! ## Every step is a change -/

theorem turn_eq {s : System ρ ν} {c : Link.Event} {l : Link} {effects : List Link.Effect}
    (h : s.link.step s.now c = (l, effects)) :
    s.turn c = effects.foldl cause { s with link := l } := by
  rw [turn, h]

theorem turn_eq_self {s : System ρ ν} {c : Link.Event} (h : s.link.step s.now c = (s.link, [])) :
    s.turn c = s :=
  turn_eq h

theorem link_turn (s : System ρ ν) (c : Link.Event) :
    (s.turn c).link = (s.link.step s.now c).1 := by
  -- What the link causes is done to everything but the link.
  have hcause : ∀ (effects : List Link.Effect) (s : System ρ ν),
      (effects.foldl cause s).link = s.link := by
    intro effects
    induction effects with
    | nil => exact fun s => rfl
    | cons effect effects ih =>
        intro s
        rw [List.foldl_cons, ih]
        cases effect <;> rfl
  exact hcause (s.link.step s.now c).2 _

theorem change_call {s : System ρ ν} {e : Event ρ ν} {c : Link.Event} (asks : e.asks = some c)
    (called : s.link.Called s.now c) : Change s e (s.turn c) := by
  rcases called with hsame | ⟨l, st, hcall, heq⟩
  · rw [turn_eq_self hsame]
    exact .stay e
  · rw [turn_eq heq]
    cases st with
    | none => exact .call asks hcall
    | some status => exact .call asks hcall

/-- A turn of a loop begins only when no fan-out is in progress. -/
theorem change_whenIdle {s next : System ρ ν} {e : Event ρ ν}
    (h : s.hub.fanOuts = [] → Change s e next) : Change s e (s.whenIdle next) := by
  cases hf : s.hub.fanOuts with
  | nil =>
      have hnext : s.whenIdle next = next := by simp [whenIdle, hf]
      rw [hnext]
      exact h hf
  | cons f outer =>
      have hsame : s.whenIdle next = s := by simp [whenIdle, hf]
      rw [hsame]
      exact .stay e

/-- A turn of a loop is a change if every move of the loop is one. -/
theorem change_turned {s : System ρ ν} {e : Event ρ ν} {n : Nat} {c : Link.Event}
    (turned : s.link.Turned s.now n c)
    (moves : ∀ r r' effects, s.link.loops[n]? = some r →
      Link.Move s.link.config s.now n c r r' effects →
      Change s e (effects.foldl cause { s with link := s.link.moved n r' effects })) :
    Change s e (s.turn c) := by
  rcases turned with hsame | ⟨r, r', effects, hr, hmove, heq⟩
  · rw [turn_eq_self hsame]
    exact .stay e
  · rw [turn_eq heq]
    exact moves r r' effects hr hmove

theorem change_start {s : System ρ ν} (idle : s.hub.fanOuts = []) (n : Nat) :
    Change s (.start n) (s.turn (.start n)) := by
  refine change_turned (s.link.turned_start s.now n) ?_
  intro r r' effects hr hmove
  -- The move goes into the change as it is, so a copy of it is taken apart.
  have hmove' := hmove
  cases hmove with
  | start stage => exact .shift idle hr hmove' (by rw [stage]; rfl) rfl (.inl rfl)

theorem change_follow {s : System ρ ν} (idle : s.hub.fanOuts = []) (n : Nat) :
    Change s (.follow n) (s.turn (.follow n)) := by
  refine change_turned (s.link.turned_follow s.now n) ?_
  intro r r' effects hr hmove
  have hmove' := hmove
  cases hmove with
  | follow stage => exact .follows idle hr stage
  | overrun stage _ =>
      refine .leaves idle hr hmove' (by rw [stage]; rfl) rfl ?_
      intro x _
      exact ⟨rfl, rfl, rfl, rfl⟩

theorem change_resume {s : System ρ ν} (idle : s.hub.fanOuts = []) (n : Nat) :
    Change s (.resume n) (s.turn (.resume n)) := by
  refine change_turned (s.link.turned_resume s.now n) ?_
  intro r r' effects hr hmove
  have hmove' := hmove
  cases hmove with
  | resume stage _ => exact .shift idle hr hmove' (by rw [stage]; rfl) rfl (.inl rfl)

theorem change_stop {s : System ρ ν} (idle : s.hub.fanOuts = []) (n : Nat) :
    Change s (.stop n) (s.turn (.stop n)) := by
  refine change_turned (s.link.turned_stop s.now n) ?_
  intro r r' effects hr hmove
  have hmove' := hmove
  cases hmove with
  | stopAttempt stage _ => exact .shift idle hr hmove' (by rw [stage]; rfl) rfl (.inl rfl)
  | stopPause stage _ => exact .shift idle hr hmove' (by rw [stage]; rfl) rfl (.inl rfl)
  | stopSession stage _ =>
      -- The session is closed and then let go of.
      have hleaves := Change.leaves (e := .stop n)
        (f := fun x => { x with left := true, held := false }) idle hr hmove' (by rw [stage]; rfl)
        rfl fun x _ => ⟨rfl, rfl, rfl, rfl⟩
      simpa [cause, modifySession, List.modify_modify_eq, Function.comp_def, Link.told]
        using hleaves

theorem exists_attempting {s : System ρ ν} {n : Nat} (h : s.isAttempting n = true) :
    ∃ r since, s.link.loops[n]? = some r ∧ r.stage = .attempting since := by
  unfold isAttempting at h
  split at h
  · next since hs =>
      rcases Link.exists_loop_of_stageOf (l := s.link) (n := n) (by simp [hs]) with ⟨r, hr, hstage⟩
      exact ⟨r, since, hr, hstage.trans hs⟩
  · cases h

theorem change_grant {s : System ρ ν} (idle : s.hub.fanOuts = []) (n : Nat) :
    Change s (.grant n) (s.grant n) := by
  cases hatt : s.isAttempting n with
  | false =>
      have hsame : s.grant n = s := by simp [grant, hatt]
      rw [hsame]
      exact .stay _
  | true =>
      rcases exists_attempting hatt with ⟨r, since, hr, hstage⟩
      have hopens := Change.opens idle hr hstage
      -- The link's step and what it causes add up to the change.
      have hs := Link.stageOf_of_getElem? hr
      simpa [grant, hatt, turn, Link.step, Link.opened, hs, hstage, Link.modifyLoop_eq hr, cause,
        Link.moved, Link.told] using hopens

theorem change_deny {s : System ρ ν} (idle : s.hub.fanOuts = []) (n : Nat) (e : SocketError) :
    Change s (.deny n e) (s.deny n e) := by
  cases hatt : s.isAttempting n with
  | false =>
      have hsame : s.deny n e = s := by simp [deny, hatt]
      rw [hsame]
      exact .stay _
  | true =>
      rcases exists_attempting hatt with ⟨r, since, hr, hstage⟩
      -- The attempt is counted before the loop is told.
      have hdeny : s.deny n e = { s with attempts := s.attempts + 1 }.turn (.refused n e) := by
        simp [deny, hatt]
      rcases Link.moves_refused s.now e hr hstage with ⟨r', effects, hmove, heq⟩
      rw [hdeny, turn_eq (s := { s with attempts := s.attempts + 1 }) heq]
      have hmove' := hmove
      cases hmove with
      | giveUp stage _ => exact .shift idle hr hmove' (by rw [stage]; rfl) rfl (.inr ⟨_, stage⟩)
      | overcount stage _ => exact .shift idle hr hmove' (by rw [stage]; rfl) rfl (.inr ⟨_, stage⟩)
      | retry stage _ => exact .shift idle hr hmove' (by rw [stage]; rfl) rfl (.inr ⟨_, stage⟩)

theorem change_lost {s : System ρ ν} {n session due : Nat} {r : RunLoop}
    (idle : s.hub.fanOuts = []) (hr : s.link.loops[n]? = some r)
    (stage : r.stage = .live session due) (e : Event ρ ν) : Change s e (s.turn (.lost n)) := by
  have hleaves := Change.leaves (e := e) (f := fun x => { x with held := false }) idle hr
    (.lost stage) (by rw [stage]; rfl) rfl fun x _ => ⟨rfl, rfl, rfl, rfl⟩
  have hs := (Link.stageOf_of_getElem? hr).trans stage
  simpa [turn, Link.step, Link.lost, Link.lose, Link.moveTo, hs, Link.modifyLoop_eq hr, cause,
    modifySession, Link.moved, Link.told] using hleaves

theorem change_read {s : System ρ ν} (idle : s.hub.fanOuts = []) (n : Nat) :
    Change s (.read n) (s.read n) := by
  cases hs : s.link.stageOf n with
  | live session due =>
      rcases Link.exists_loop_of_stageOf (l := s.link) (n := n) (by simp [hs]) with ⟨r, hr, hstage⟩
      have hlost := change_lost idle hr (hstage.trans hs) (.read n)
      cases hx : s.sessions[session]? with
      | none => simpa [read, hs, hx] using Change.stay _
      | some x =>
          cases hin : x.inbound with
          | nil =>
              cases hclosed : x.closed with
              | true => simpa [read, hs, hx, hin, hclosed] using hlost
              | false => simpa [read, hs, hx, hin, hclosed] using Change.stay _
          | cons reading rest =>
              cases reading with
              | error _ => simpa [read, hs, hx, hin] using hlost
              | ok frame =>
                  -- The frame is taken off first, and then the loop is told.
                  have hread : s.read n = (s.modifySession session fun x =>
                      { x with inbound := rest }).turn (.received n frame) := by
                    simp [read, hs, hx, hin]
                  have heq := Link.received_eq hr (hstage.trans hs) s.now frame
                  cases ht : Topic.ofFrame frame with
                  | ok t =>
                      rw [ht] at heq
                      rw [hread, turn_eq (s := s.modifySession session _) heq]
                      exact .hears idle hr (hstage.trans hs) hx hin ht
                  | error e =>
                      rw [ht] at heq
                      rw [hread, turn_eq (s := s.modifySession session _) heq]
                      exact .skips idle hr (hstage.trans hs) hx hin ht
  | _ => simpa [read, hs] using Change.stay _

theorem change_beat {s : System ρ ν} (idle : s.hub.fanOuts = []) (n : Nat) :
    Change s (.beat n) (s.beat n) := by
  cases hs : s.link.stageOf n with
  | live session due =>
      rcases Link.exists_loop_of_stageOf (l := s.link) (n := n) (by simp [hs]) with ⟨r, hr, hstage⟩
      cases hx : s.sessions[session]? with
      | none => simpa [beat, hs, hx] using Change.stay _
      | some x =>
          by_cases hearly : s.now < due
          · simpa [beat, hs, hx, hearly] using Change.stay _
          · -- Whether the frame is taken is a matter of the session before it is sent.
            have hbeat : s.beat n = (s.modifySession session fun x =>
                x.send s.now Link.heartbeatFrame).turn (.beat n x.takes) := by
              simp [beat, hs, hx, hearly]
            rcases Link.moves_beat hr (hstage.trans hs) (Nat.le_of_not_lt hearly) x.takes with
              ⟨r', effects, hmove, heq⟩
            rw [hbeat, turn_eq (s := s.modifySession session _) heq]
            cases htakes : x.takes with
            | true =>
                rw [htakes] at hmove
                cases hmove with
                | beat stage _ =>
                    cases (hstage.trans hs).symm.trans stage
                    refine .beats idle hr (hstage.trans hs) (Nat.le_of_not_lt hearly) fun y hy => ?_
                    obtain rfl : x = y := Option.some.inj (hx.symm.trans hy)
                    exact htakes
            | false =>
                rw [htakes] at hmove
                have hmove' := hmove
                cases hmove with
                | missed stage _ =>
                    cases (hstage.trans hs).symm.trans stage
                    have hleaves := Change.leaves (e := .beat n)
                      (f := fun x => { x.send s.now Link.heartbeatFrame with held := false }) idle hr
                      hmove' (by rw [stage]; rfl) rfl fun y hy => ?_
                    · simpa [cause, modifySession, List.modify_modify_eq, Function.comp_def,
                        Link.told] using hleaves
                    · -- What is not taken is not sent.
                      obtain rfl : x = y := Option.some.inj (hx.symm.trans hy)
                      constructor <;> simp [Session.send, htakes]
  | _ => simpa [beat, hs] using Change.stay _

theorem change_pass (s : System ρ ν) (time : Nat) : Change s (.pass time) (s.pass time) := by
  unfold pass
  split
  · next h =>
      refine .pass time h.1 ?_
      intro n due hdue
      cases hr : s.link.loops[n]? with
      | none => simp [Link.stageOf, hr, Stage.due?] at hdue
      | some r =>
          rw [Link.stageOf_of_getElem? hr] at hdue
          have hloop := List.all_eq_true.1 h.2 r (List.mem_of_getElem? hr)
          simpa [hdue] using hloop
  · exact .stay _

/-- Whatever an event does to a system is one of the changes. -/
theorem change_step (s : System ρ ν) (e : Event ρ ν) : Change s e (s.step e) := by
  cases e with
  | hub e => exact .hub e
  | connect => exact change_call rfl (s.link.called_connect s.now)
  | dispose => exact change_call rfl (s.link.called_dispose s.now)
  | disposed n => exact change_call rfl (s.link.called_disposed s.now n)
  | drop => exact change_call rfl (s.link.called_drop s.now)
  | start n => exact change_whenIdle fun idle => change_start idle n
  | grant n => exact change_whenIdle fun idle => change_grant idle n
  | follow n => exact change_whenIdle fun idle => change_follow idle n
  | deny n e => exact change_whenIdle fun idle => change_deny idle n e
  | read n => exact change_whenIdle fun idle => change_read idle n
  | beat n => exact change_whenIdle fun idle => change_beat idle n
  | resume n => exact change_whenIdle fun idle => change_resume idle n
  | stop n => exact change_whenIdle fun idle => change_stop idle n
  | deliver n m =>
      rw [step]
      split
      · refine .serves n ⟨fun _ => rfl, fun _ => rfl, fun _ => rfl, ?_⟩
        intro x reading hreading
        exact List.mem_append_left _ hreading
      · exact .stay _
  | breakOff n e =>
      rw [step]
      split
      · refine .serves n ⟨fun _ => rfl, fun _ => rfl, fun _ => rfl, ?_⟩
        intro x reading hreading
        exact List.mem_cons_of_mem _ hreading
      · exact .stay _
  | close n => exact .serves n ⟨fun _ => rfl, fun _ => rfl, fun _ => rfl, fun _ _ h => h⟩
  | jam n e => exact .serves n ⟨fun _ => rfl, fun _ => rfl, fun _ => rfl, fun _ _ h => h⟩
  | pass time => exact change_pass s time

end System

end LiveFeed
