import LiveFeed.Proofs.SystemSteps

/-!
# What an event of the system is to its link

An event of the system comes down to one event of its link, or the link takes no part in it.  What
others ask of the hub and what the link causes with that event is all that becomes of the hub.

* `System.reads?`, `System.beats?`: what a run loop finds when it reads, or gives a sign of life;
* `System.turn?`: the event of the link that an event of the system comes down to;
* `System.effects`, `System.told`: what the link causes with it, and what the hub is told;
* `System.link_step`, `System.hub_step`: the link and the hub after an event.
-/

namespace LiveFeed

variable {ρ ν : Type}

/-- What an effect of the link asks the hub to do. -/
def Link.Effect.asks : Link.Effect → Option (Hub.Event ρ ν)
  | .announceAll => some .notifyAll
  | .announce t => some (.notify t)
  | _ => none

/-- What a session has for whoever reads it: a frame, or none at an error or at the end. -/
def Session.next? (x : Session) : Option (Option String) :=
  match x.inbound with
  | .ok frame :: _ => some (some frame)
  | .error _ :: _ => some none
  | [] => if x.closed then some none else none

namespace System

/-! ## The event of the link -/

/-- What a run loop finds when it reads: the session that it follows, with a frame or, at an error
or at the end, none. -/
def reads? (s : System ρ ν) (loop : Nat) : Option (Nat × Option String) :=
  match s.link.stageOf loop with
  | .live session _ =>
    ((s.sessions[session]?).bind Session.next?).map fun frame => (session, frame)
  | _ => none

/-- The session that a run loop gives a sign of life on, when one is due, and whether it gets
through. -/
def beats? (s : System ρ ν) (loop : Nat) : Option (Nat × Bool) :=
  match s.link.stageOf loop with
  | .live session due =>
    if s.now < due then none else (s.sessions[session]?).map fun x => (session, x.takes)
  | _ => none

/-- What a run loop is told that reads. -/
def readEvent (loop : Nat) : Option String → Link.Event
  | some frame => .received loop frame
  | none => .lost loop

/-- What there is for a run loop in its turn; none takes one while a fan-out is in progress. -/
def whenIdle? {α : Type} (s : System ρ ν) (x : Option α) : Option α :=
  if s.hub.fanOuts.isEmpty then x else none

/-- The event of the link that an event of the system comes down to. -/
def turn? (s : System ρ ν) : Event ρ ν → Option Link.Event
  | .connect => some .connect
  | .dispose => some .dispose
  | .disposed loop => some (.disposed loop)
  | .drop => some .drop
  | .start loop => s.whenIdle? (some (.start loop))
  | .grant loop =>
    s.whenIdle? (if s.isAttempting loop then some (.opened loop s.sessions.length) else none)
  | .follow loop => s.whenIdle? (some (.follow loop))
  | .deny loop e => s.whenIdle? (if s.isAttempting loop then some (.refused loop e) else none)
  | .read loop => s.whenIdle? ((s.reads? loop).map fun p => readEvent loop p.2)
  | .beat loop => s.whenIdle? ((s.beats? loop).map fun p => .beat loop p.2)
  | .resume loop => s.whenIdle? (some (.resume loop))
  | .stop loop => s.whenIdle? (some (.stop loop))
  | _ => none

/-- What the link causes with an event. -/
def effects (s : System ρ ν) (e : Event ρ ν) : List Link.Effect :=
  ((s.turn? e).map fun c => (s.link.step s.now c).2).getD []

/-- What the hub is told with an event: by somebody else, or by the link. -/
def told (s : System ρ ν) (e : Event ρ ν) : List (Hub.Event ρ ν) :=
  match e with
  | .hub e' => [e']
  | e => (s.effects e).filterMap Link.Effect.asks

theorem told_eq {s : System ρ ν} {e : Event ρ ν} (hnot : ∀ e', e ≠ .hub e') :
    s.told e = (s.effects e).filterMap Link.Effect.asks := by
  cases e with
  | hub e' => exact absurd rfl (hnot e')
  | _ => rfl

/-! ## The system after an event -/

/-- A change of the system that is nothing to the link, the clock and the hub. -/
structure Beside (s s' : System ρ ν) : Prop where
  link : s'.link = s.link
  now : s'.now = s.now
  hub : s'.hub = s.hub

theorem Beside.refl (s : System ρ ν) : Beside s s :=
  ⟨rfl, rfl, rfl⟩

theorem whenIdle?_eq_some {α : Type} {s : System ρ ν} {x : Option α} {a : α} :
    s.whenIdle? x = some a ↔ s.hub.fanOuts.isEmpty = true ∧ x = some a :=
  Option.ite_none_right_eq_some

theorem whenIdle_of_isEmpty {s next : System ρ ν} (idle : s.hub.fanOuts.isEmpty = true) :
    s.whenIdle next = next := by
  rw [whenIdle, if_pos idle]

/-- A loop that takes no turn changes nothing, be it that it cannot or that a fan-out is in
progress. -/
theorem whenIdle_of_eq_none {α : Type} {s next : System ρ ν} {x : Option α}
    (h : s.whenIdle? x = none) (hnext : x = none → next = s) : s.whenIdle next = s := by
  unfold whenIdle? at h
  unfold whenIdle
  split at h
  · next idle =>
      rw [if_pos idle]
      exact hnext h
  · next busy => rw [if_neg busy]

theorem reads?_eq_some {s : System ρ ν} {loop k : Nat} {frame : Option String} :
    s.reads? loop = some (k, frame) ↔ ∃ due x, s.link.stageOf loop = .live k due ∧
      s.sessions[k]? = some x ∧ x.next? = some frame := by
  unfold reads?
  constructor
  · intro h
    split at h
    · next session due hs =>
        rcases Option.map_eq_some_iff.1 h with ⟨frame', hfound, heq⟩
        rcases Option.bind_eq_some_iff.1 hfound with ⟨x, hx, hnext⟩
        cases heq
        exact ⟨due, x, hs, hx, hnext⟩
    · cases h
  · rintro ⟨due, x, hs, hx, hnext⟩
    simp [hs, hx, hnext]

theorem reads?_eq_none {s : System ρ ν} {loop k due : Nat} {x : Session}
    (h : s.reads? loop = none) (hs : s.link.stageOf loop = .live k due)
    (hx : s.sessions[k]? = some x) : x.next? = none := by
  simpa [reads?, hs, hx] using h

theorem next?_eq_some_some {x : Session} {frame : String} :
    x.next? = some (some frame) ↔ ∃ rest, x.inbound = .ok frame :: rest := by
  unfold Session.next?
  cases x.inbound with
  | nil => cases x.closed <;> simp
  | cons reading rest => cases reading <;> simp

/-- Reading a frame takes it off the session. -/
theorem read_of_frame {s : System ρ ν} {loop k : Nat} {frame : String}
    (h : s.reads? loop = some (k, some frame)) :
    ∃ x rest, s.sessions[k]? = some x ∧ x.inbound = .ok frame :: rest ∧
      s.read loop =
        (s.modifySession k fun x => { x with inbound := rest }).turn (.received loop frame) := by
  rcases reads?_eq_some.1 h with ⟨due, x, hs, hx, hnext⟩
  rcases next?_eq_some_some.1 hnext with ⟨rest, hin⟩
  exact ⟨x, rest, hx, hin, by simp [read, hs, hx, hin]⟩

theorem read_of_end {s : System ρ ν} {loop k : Nat} (h : s.reads? loop = some (k, none)) :
    s.read loop = s.turn (.lost loop) := by
  rcases reads?_eq_some.1 h with ⟨due, x, hs, hx, hnext⟩
  unfold Session.next? at hnext
  cases hin : x.inbound with
  | nil =>
      have hclosed : x.closed = true := by simpa [hin] using hnext
      simp [read, hs, hx, hin, hclosed]
  | cons reading rest =>
      cases reading with
      | ok frame => simp [hin] at hnext
      | error e => simp [read, hs, hx, hin]

theorem read_of_none {s : System ρ ν} {loop : Nat} (h : s.reads? loop = none) : s.read loop = s := by
  cases hs : s.link.stageOf loop with
  | live k due =>
      cases hx : s.sessions[k]? with
      | none => simp [read, hs, hx]
      | some x =>
          have hnext := reads?_eq_none h hs hx
          unfold Session.next? at hnext
          cases hin : x.inbound with
          | nil =>
              have hclosed : x.closed = false := by simpa [hin] using hnext
              simp [read, hs, hx, hin, hclosed]
          | cons reading rest => cases reading <;> simp [hin] at hnext
  | _ => simp [read, hs]

theorem beats?_eq_some {s : System ρ ν} {loop k : Nat} {sent : Bool} :
    s.beats? loop = some (k, sent) ↔ ∃ due x, s.link.stageOf loop = .live k due ∧
      s.sessions[k]? = some x ∧ due ≤ s.now ∧ x.takes = sent := by
  unfold beats?
  constructor
  · intro h
    split at h
    · next session due hs =>
        rcases Option.ite_none_left_eq_some.1 h with ⟨hlate, hfound⟩
        rcases Option.map_eq_some_iff.1 hfound with ⟨x, hx, heq⟩
        cases heq
        exact ⟨due, x, hs, hx, Nat.le_of_not_lt hlate, rfl⟩
    · cases h
  · rintro ⟨due, x, hs, hx, hlate, rfl⟩
    simp [hs, hx, hlate]

theorem beat_of_beats? {s : System ρ ν} {loop k : Nat} {sent : Bool}
    (h : s.beats? loop = some (k, sent)) :
    s.beat loop =
      (s.modifySession k fun x => x.send s.now Link.heartbeatFrame).turn (.beat loop sent) := by
  rcases beats?_eq_some.1 h with ⟨due, x, hs, hx, hlate, htakes⟩
  simp [beat, hs, hx, Nat.not_lt_of_le hlate, htakes]

theorem beat_of_none {s : System ρ ν} {loop : Nat} (h : s.beats? loop = none) : s.beat loop = s := by
  cases hs : s.link.stageOf loop with
  | live k due =>
      cases hx : s.sessions[k]? with
      | none => simp [beat, hs, hx]
      | some x =>
          have hearly : s.now < due := by simpa [beats?, hs, hx] using h
          simp [beat, hs, hx, hearly]
  | _ => simp [beat, hs]

/-- An event that comes down to one of the link is a turn of the link, after a change beside it. -/
theorem step_of_turn? {s : System ρ ν} {e : Event ρ ν} {c : Link.Event} (h : s.turn? e = some c) :
    ∃ s', Beside s s' ∧ s.step e = s'.turn c := by
  cases e with
  | connect | dispose | disposed _ | drop =>
      cases h
      exact ⟨s, .refl s, rfl⟩
  | start loop | follow loop | resume loop | stop loop =>
      rcases whenIdle?_eq_some.1 h with ⟨hidle, hc⟩
      cases hc
      exact ⟨s, .refl s, whenIdle_of_isEmpty hidle⟩
  | grant loop | deny loop _ =>
      rcases whenIdle?_eq_some.1 h with ⟨hidle, hc⟩
      rcases Option.ite_none_right_eq_some.1 hc with ⟨hattempting, hc⟩
      cases hc
      -- The attempt is counted before the loop is told.
      refine ⟨_, ?_, (whenIdle_of_isEmpty hidle).trans (if_pos hattempting)⟩
      exact ⟨rfl, rfl, rfl⟩
  | read loop =>
      rcases whenIdle?_eq_some.1 h with ⟨hidle, hc⟩
      rcases Option.map_eq_some_iff.1 hc with ⟨⟨session, frame⟩, hreads, rfl⟩
      cases frame with
      | some frame =>
          -- The frame is taken off the session before the loop is told.
          rcases read_of_frame hreads with ⟨x, rest, -, -, hread⟩
          refine ⟨_, ?_, (whenIdle_of_isEmpty hidle).trans hread⟩
          exact ⟨rfl, rfl, rfl⟩
      | none => exact ⟨s, .refl s, (whenIdle_of_isEmpty hidle).trans (read_of_end hreads)⟩
  | beat loop =>
      rcases whenIdle?_eq_some.1 h with ⟨hidle, hc⟩
      rcases Option.map_eq_some_iff.1 hc with ⟨⟨session, sent⟩, hbeats, rfl⟩
      refine ⟨_, ?_, (whenIdle_of_isEmpty hidle).trans (beat_of_beats? hbeats)⟩
      exact ⟨rfl, rfl, rfl⟩
  | _ => cases h

/-- Nothing but a call of the owner comes down to one. -/
theorem asks_of_turn? {s : System ρ ν} {e : Event ρ ν} {c : Link.Event} (h : s.turn? e = some c)
    (hcall : c = .connect ∨ c = .dispose ∨ c = .drop) : e.asks = some c := by
  cases e with
  | connect | dispose | disposed _ | drop => exact h
  | start loop | follow loop | resume loop | stop loop =>
      rcases whenIdle?_eq_some.1 h with ⟨-, hc⟩
      cases hc
      simp at hcall
  | grant loop | deny loop _ =>
      rcases whenIdle?_eq_some.1 h with ⟨-, hc⟩
      rcases Option.ite_none_right_eq_some.1 hc with ⟨-, hc⟩
      cases hc
      simp at hcall
  | read loop =>
      rcases whenIdle?_eq_some.1 h with ⟨-, hc⟩
      rcases Option.map_eq_some_iff.1 hc with ⟨⟨k, frame⟩, -, rfl⟩
      cases frame <;> simp [readEvent] at hcall
  | beat loop =>
      rcases whenIdle?_eq_some.1 h with ⟨-, hc⟩
      rcases Option.map_eq_some_iff.1 hc with ⟨p, -, rfl⟩
      simp at hcall
  | _ => cases h

/-- An event that the link takes no part in leaves the link as it is, and the hub does as it is
told. -/
theorem step_of_turn?_eq_none {s : System ρ ν} {e : Event ρ ν} (h : s.turn? e = none) :
    (s.step e).link = s.link ∧ (s.step e).hub = s.hub.run (s.told e) := by
  have hquiet : (∀ e', e ≠ .hub e') → s.told e = [] := by
    intro hnot
    rw [told_eq hnot, effects, h]
    rfl
  cases e with
  -- A call of the owner is always an event of the link.
  | connect | dispose | disposed _ | drop => cases h
  | hub e' => exact ⟨rfl, rfl⟩
  | start loop | follow loop | resume loop | stop loop =>
      rw [step, whenIdle_of_eq_none h (by simp), hquiet (by simp)]
      exact ⟨rfl, rfl⟩
  | grant loop =>
      have hsame : s.whenIdle (s.grant loop) = s :=
        whenIdle_of_eq_none h fun hnone => if_neg (by simpa using hnone)
      rw [step, hsame, hquiet (by simp)]
      exact ⟨rfl, rfl⟩
  | deny loop e =>
      have hsame : s.whenIdle (s.deny loop e) = s :=
        whenIdle_of_eq_none h fun hnone => if_neg (by simpa using hnone)
      rw [step, hsame, hquiet (by simp)]
      exact ⟨rfl, rfl⟩
  | read loop =>
      have hsame := whenIdle_of_eq_none h fun hnone =>
        read_of_none (Option.map_eq_none_iff.1 hnone)
      rw [step, hsame, hquiet (by simp)]
      exact ⟨rfl, rfl⟩
  | beat loop =>
      have hsame := whenIdle_of_eq_none h fun hnone =>
        beat_of_none (Option.map_eq_none_iff.1 hnone)
      rw [step, hsame, hquiet (by simp)]
      exact ⟨rfl, rfl⟩
  | deliver n m | breakOff n e =>
      rw [step, hquiet (by simp)]
      split <;> exact ⟨rfl, rfl⟩
  | close n | jam n e => exact ⟨rfl, rfl⟩
  | pass time =>
      rw [step, hquiet (by simp), pass]
      split <;> exact ⟨rfl, rfl⟩

/-! ## What the link causes -/

theorem hub_cause (effects : List Link.Effect) (s : System ρ ν) :
    (effects.foldl cause s).hub = s.hub.run (effects.filterMap Link.Effect.asks) := by
  induction effects generalizing s with
  | nil => rfl
  | cons effect effects ih =>
      rw [List.foldl_cons, ih]
      cases effect <;> rfl

theorem link_step (s : System ρ ν) (e : Event ρ ν) :
    (s.step e).link = ((s.turn? e).map fun c => (s.link.step s.now c).1).getD s.link := by
  cases h : s.turn? e with
  | none => exact (step_of_turn?_eq_none h).1
  | some c =>
      rcases step_of_turn? h with ⟨s', hbeside, hstep⟩
      rw [hstep, link_turn, hbeside.link, hbeside.now]
      rfl

/-- All that becomes of the hub is what it is told. -/
theorem hub_step (s : System ρ ν) (e : Event ρ ν) : (s.step e).hub = s.hub.run (s.told e) := by
  cases h : s.turn? e with
  | none => exact (step_of_turn?_eq_none h).2
  | some c =>
      have hnot : ∀ e', e ≠ .hub e' := by
        rintro e' rfl
        cases h
      rcases step_of_turn? h with ⟨s', hbeside, hstep⟩
      rw [hstep, turn, hub_cause, hbeside.link, hbeside.now, hbeside.hub, told_eq hnot, effects, h]
      rfl

end System

end LiveFeed
