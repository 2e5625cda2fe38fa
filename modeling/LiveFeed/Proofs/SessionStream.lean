import Mathlib.Data.List.Induction
import Mathlib.Tactic.SplitIfs
import LiveFeed.Proofs.OrderlyLink
import LiveFeed.Proofs.Turns

/-!
# What the link reads of a session

The service sends messages on a session, and the run loop that follows it reads the frames among them
one at a time.  At every point of a run the frames that were read and what is still unread add up to
what was sent, unless the session broke off, which comes before everything unread.

* `System.heard`, `System.delivered`: the frames read of a session, and the messages sent on it;
* `System.unread_step`, `System.heard_or_stuck`: how they add up;
* `System.announced`, `System.announces_eq`: the topics that are called because of a session;
* `System.told_cases`: what the link makes the hub call;
* `System.Apart`, `System.heard_of_left`: a session that a loop let go of is never read again.
-/

namespace LiveFeed

variable {ρ ν : Type}

namespace Message

/-- The text of a message. -/
def text? : Message → Option String
  | .text s => some s
  | _ => none

/-- Whether nothing that comes after a message is read. -/
def isEnd : Message → Bool
  | .close => true
  | .fault _ => true
  | _ => false

end Message

/-- The texts among some messages. -/
def texts (messages : List Message) : List String :=
  messages.filterMap Message.text?

/-- The frames among what can be read. -/
def frames (inbound : List (Except SocketError String)) : List String :=
  inbound.filterMap Except.toOption

/-- The topic whose callbacks an event of the hub calls. -/
def Hub.Event.topic? : Hub.Event ρ ν → Option Topic
  | .notify t => some t
  | _ => none

/-- The topic that a frame announces. -/
def Topic.announced? (frame : String) : Option Topic :=
  (Topic.ofFrame frame).toOption

theorem frames_append (xs ys : List (Except SocketError String)) :
    frames (xs ++ ys) = frames xs ++ frames ys :=
  List.filterMap_append

theorem frames_map_ok (xs : List String) : frames (xs.map Except.ok) = xs := by
  induction xs with
  | nil => rfl
  | cons x xs ih => exact congrArg (x :: ·) ih

theorem readings_append (xs ys : List Message) : readings (xs ++ ys) = readings xs ++ readings ys :=
  List.filterMap_append

/-- Of the messages that can be read only the texts are frames. -/
theorem frames_readings (messages : List Message) : frames (readings messages) = texts messages := by
  rw [frames, readings, texts, List.filterMap_filterMap]
  congr 1
  funext m
  cases m <;> rfl

/-- Up to the first end, a message is read as a frame or not at all. -/
theorem readings_takeWhile (messages : List Message) :
    readings (messages.takeWhile fun m => !m.isEnd) =
      (readings messages).takeWhile fun reading => reading.isOk := by
  induction messages with
  | nil => rfl
  | cons m messages ih =>
      cases m with
      | text s => exact congrArg (Except.ok s :: ·) ih
      | close => rfl
      | fault _ => rfl
      | _ => exact ih

namespace System

/-! ## What is sent and what is read -/

/-- What a run loop finds at an event, if it takes its turn and reads. -/
def reading? (s : System ρ ν) : Event ρ ν → Option (Nat × Option String)
  | .read loop => s.whenIdle? (s.reads? loop)
  | _ => none

/-- The frame of session `k` in what a run loop finds. -/
def frameOf (k : Nat) : Option (Nat × Option String) → List String
  | some (session, some frame) => if session = k then [frame] else []
  | _ => []

/-- The frame that is read of session `k` at an event. -/
def hears (k : Nat) (s : System ρ ν) (e : Event ρ ν) : List String :=
  frameOf k (s.reading? e)

/-- The message that the service sends on session `k` with an event. -/
def delivers (k : Nat) (s : System ρ ν) : Event ρ ν → List Message
  | .deliver session m => if session = k ∧ s.serves k then [m] else []
  | _ => []

/-- The error that session `k` breaks off with at an event. -/
def breaks? (k : Nat) (s : System ρ ν) : Event ρ ν → Option SocketError
  | .breakOff session e => if session = k ∧ s.isReachable k then some e else none
  | _ => none

/-- What was sent on a session and has not been read. -/
def unread (s : System ρ ν) (k : Nat) : List (Except SocketError String) :=
  ((s.sessions[k]?).map (·.inbound)).getD []

/-- The frames that were read of session `k`. -/
def heard (k : Nat) (s : System ρ ν) (events : List (Event ρ ν)) : List String :=
  seen step (hears k) s events

/-- The messages that the service sent on session `k`. -/
def delivered (k : Nat) (s : System ρ ν) (events : List (Event ρ ν)) : List Message :=
  seen step (delivers k) s events

theorem unread_modifySession {f : Session → Session} (hf : ∀ x, (f x).inbound = x.inbound)
    (s : System ρ ν) (n k : Nat) : (s.modifySession n f).unread k = s.unread k := by
  have hmap := congrArg (·[k]?) (map_modify_eq hf s.sessions n)
  simp only [List.getElem?_map] at hmap
  rw [unread, unread, modifySession, hmap]

theorem unread_modifySession_self {s : System ρ ν} {k : Nat} {x : Session}
    (hx : s.sessions[k]? = some x) (f : Session → Session) :
    (s.modifySession k f).unread k = (f x).inbound := by
  simp [unread, modifySession, hx]

theorem unread_modifySession_ne {n k : Nat} (hk : n ≠ k) (s : System ρ ν) (f : Session → Session) :
    (s.modifySession n f).unread k = s.unread k := by
  simp [unread, modifySession, List.getElem?_modify_ne _ _ hk]

theorem unread_of_getElem? {s : System ρ ν} {k : Nat} {x : Session} (hx : s.sessions[k]? = some x) :
    s.unread k = x.inbound := by
  simp [unread, hx]

/-- Nothing that the link causes touches what is unread. -/
theorem unread_cause (effects : List Link.Effect) (s : System ρ ν) (k : Nat) :
    (effects.foldl cause s).unread k = s.unread k := by
  induction effects generalizing s with
  | nil => rfl
  | cons effect effects ih =>
      rw [List.foldl_cons, ih]
      cases effect with
      | close n | release n =>
          refine unread_modifySession ?_ s n k
          intro x
          rfl
      | _ => rfl

theorem unread_turn (s : System ρ ν) (c : Link.Event) (k : Nat) :
    (s.turn c).unread k = s.unread k :=
  unread_cause _ _ k

theorem unread_whenIdle {s next : System ρ ν} {k : Nat} (h : next.unread k = s.unread k) :
    (s.whenIdle next).unread k = s.unread k := by
  unfold whenIdle
  split
  · exact h
  · rfl

/-- A session that is opened has nothing unread. -/
theorem unread_grant (s : System ρ ν) (loop k : Nat) : (s.grant loop).unread k = s.unread k := by
  unfold grant
  split
  · rw [unread_turn, unread, unread]
    by_cases hk : k < s.sessions.length
    · simp [List.getElem?_append_left hk]
    · have hnone : s.sessions[k]? = none := List.getElem?_eq_none (Nat.le_of_not_lt hk)
      -- Either it is the new session, or there is none.
      rw [List.getElem?_append_right (Nat.le_of_not_lt hk), hnone]
      cases k - s.sessions.length <;> rfl
  · rfl

theorem unread_deny (s : System ρ ν) (loop k : Nat) (e : SocketError) :
    (s.deny loop e).unread k = s.unread k := by
  unfold deny
  split
  · exact unread_turn _ _ k
  · rfl

theorem unread_beat (s : System ρ ν) (loop k : Nat) : (s.beat loop).unread k = s.unread k := by
  cases h : s.beats? loop with
  | none => rw [beat_of_none h]
  | some p => rw [beat_of_beats? h, unread_turn, unread_modifySession fun x => inbound_send x _ _]

/-- A frame that is read is the first of what was unread. -/
theorem unread_read (s : System ρ ν) (loop k : Nat) :
    (frameOf k (s.reads? loop)).map Except.ok ++ (s.read loop).unread k = s.unread k := by
  cases h : s.reads? loop with
  | none => rw [read_of_none h]; rfl
  | some p =>
      rcases p with ⟨session, frame⟩
      cases frame with
      | none => rw [read_of_end h, unread_turn]; rfl
      | some frame =>
          rcases read_of_frame h with ⟨x, rest, hx, hin, hread⟩
          rw [hread, unread_turn, frameOf]
          by_cases hk : session = k
          · subst hk
            rw [unread_modifySession_self hx, unread_of_getElem? hx, hin, if_pos rfl]
            rfl
          · rw [unread_modifySession_ne hk, if_neg hk]
            rfl

theorem exists_of_serves {s : System ρ ν} {k : Nat} (h : s.serves k = true) :
    ∃ x, s.sessions[k]? = some x := by
  unfold serves at h
  split at h
  · cases h
  · exact ⟨_, ‹_›⟩

theorem exists_of_isReachable {s : System ρ ν} {k : Nat} (h : s.isReachable k = true) :
    ∃ x, s.sessions[k]? = some x := by
  unfold isReachable at h
  split at h
  · cases h
  · exact ⟨_, ‹_›⟩

/-- What is heard at an event was unread, and what is unread afterwards is what was and what is
sent; an error that breaks off the session comes first. -/
theorem unread_step (k : Nat) (s : System ρ ν) (e : Event ρ ν) :
    (s.hears k e).map Except.ok ++ (s.step e).unread k =
      ((s.breaks? k e).map Except.error).toList ++ s.unread k ++ readings (s.delivers k e) := by
  -- The events that neither read nor send anything.
  have hquiet : ∀ s' : System ρ ν, s'.unread k = s.unread k →
      s'.unread k = s.unread k ++ readings [] := by
    intro s' h
    simpa [readings] using h
  cases e with
  | hub e' => exact hquiet _ rfl
  | connect | dispose | disposed _ | drop => exact hquiet _ (unread_turn s _ k)
  | start loop | follow loop | resume loop | stop loop =>
      exact hquiet _ (unread_whenIdle (unread_turn s _ k))
  | grant loop => exact hquiet _ (unread_whenIdle (unread_grant s loop k))
  | deny loop e => exact hquiet _ (unread_whenIdle (unread_deny s loop k e))
  | beat loop => exact hquiet _ (unread_whenIdle (unread_beat s loop k))
  | read loop =>
      cases hidle : s.hub.fanOuts.isEmpty with
      | true =>
          have hread := unread_read s loop k
          simpa [hears, reading?, whenIdle?, breaks?, delivers, step, whenIdle, hidle, readings]
            using hread
      | false =>
          simp [hears, reading?, whenIdle?, breaks?, delivers, step, whenIdle, hidle, readings,
            frameOf]
  | deliver n m =>
      by_cases h : n = k ∧ s.serves k = true
      · rcases h with ⟨rfl, hserves⟩
        rcases exists_of_serves hserves with ⟨x, hx⟩
        have hunread := unread_modifySession_self hx fun x =>
          { x with inbound := x.inbound ++ m.reading.toList }
        simp only [step, hserves, if_true, hunread, delivers, and_self]
        rw [unread_of_getElem? hx]
        cases m <;> rfl
      · have hsame : (s.step (.deliver n m)).unread k = s.unread k := by
          rw [step]
          split
          · next hserves => exact unread_modifySession_ne (fun hk => h ⟨hk, hk ▸ hserves⟩) s _
          · rfl
        simpa [hears, reading?, breaks?, delivers, h, readings, frameOf] using hsame
  | breakOff n e =>
      by_cases h : n = k ∧ s.isReachable k = true
      · rcases h with ⟨rfl, hreachable⟩
        rcases exists_of_isReachable hreachable with ⟨x, hx⟩
        have hunread := unread_modifySession_self hx fun x =>
          { x with inbound := .error e :: x.inbound }
        simp [hears, reading?, breaks?, delivers, frameOf, step, hreachable, hunread,
          unread_of_getElem? hx, readings]
      · have hsame : (s.step (.breakOff n e)).unread k = s.unread k := by
          rw [step]
          split
          · next hreachable => exact unread_modifySession_ne (fun hk => h ⟨hk, hk ▸ hreachable⟩) s _
          · rfl
        simpa [hears, reading?, breaks?, delivers, h, readings, frameOf] using hsame
  | close n | jam n e =>
      refine hquiet _ (unread_modifySession ?_ s n k)
      intro x
      rfl
  | pass time =>
      refine hquiet _ ?_
      rw [step, pass]
      split <;> rfl

/-! ## Over a run -/

/-- The errors that session `k` broke off with. -/
def breakings (k : Nat) (s : System ρ ν) (events : List (Event ρ ν)) : List SocketError :=
  seen step (fun s e => (breaks? k s e).toList) s events

/-- An error is the first that can be read of a session. -/
def Stuck (s : System ρ ν) (k : Nat) : Prop :=
  ∃ e rest, s.unread k = .error e :: rest

theorem hears_of_stuck {s : System ρ ν} {k : Nat} (h : s.Stuck k) (e : Event ρ ν) :
    s.hears k e = [] := by
  rcases h with ⟨error, rest, hunread⟩
  have hstep := unread_step k s e
  rw [hunread] at hstep
  cases hhears : s.hears k e with
  | nil => rfl
  | cons frame frames =>
      -- The frame would have to stand where the error stands.
      rw [hhears] at hstep
      cases hbreaks : s.breaks? k e <;> simp [hbreaks] at hstep

theorem stuck_step {s : System ρ ν} {k : Nat} (h : s.Stuck k) (e : Event ρ ν) :
    (s.step e).Stuck k := by
  have hstep := unread_step k s e
  rw [hears_of_stuck h] at hstep
  rcases h with ⟨error, rest, hunread⟩
  rw [hunread] at hstep
  cases hbreaks : s.breaks? k e with
  | none => exact ⟨_, _, by simpa [hbreaks] using hstep⟩
  | some error' => exact ⟨_, _, by simpa [hbreaks] using hstep⟩

theorem stuck_of_breaks? {s : System ρ ν} {k : Nat} {e : Event ρ ν} {error : SocketError}
    (h : s.breaks? k e = some error) : s.hears k e = [] ∧ (s.step e).Stuck k := by
  have hhears : s.hears k e = [] := by
    cases e with
    | breakOff _ _ => rfl
    | _ => cases h
  have hstep := unread_step k s e
  exact ⟨hhears, _, _, by simpa [hhears, h] using hstep⟩

theorem heard_of_stuck {s : System ρ ν} {k : Nat} (h : s.Stuck k) (events : List (Event ρ ν)) :
    s.heard k events = [] := by
  induction events generalizing s with
  | nil => rfl
  | cons e events ih =>
      have hrest := ih (stuck_step h e)
      simpa [heard, seen, hears_of_stuck h e] using hrest

/-- As long as a session does not break off, what was heard of it and what is unread is what was
sent on it.  After it broke off, what was heard before is all that is. -/
theorem heard_or_stuck (k : Nat) (s : System ρ ν) (hempty : s.unread k = [])
    (events : List (Event ρ ν)) :
    (s.heard k events).map Except.ok ++ (s.run events).unread k = readings (s.delivered k events) ∨
      (s.run events).Stuck k ∧ s.breakings k events ≠ [] ∧
        s.heard k events <+: texts (s.delivered k events) := by
  induction events using List.reverseRecOn with
  | nil => exact .inl (by simpa [heard, delivered, seen, readings, run] using hempty)
  | append_singleton events e ih =>
      have hrun : s.run (events ++ [e]) = (s.run events).step e := by simp [run]
      have hheard : s.heard k (events ++ [e]) = s.heard k events ++ (s.run events).hears k e :=
        seen_concat ..
      have hdelivered : s.delivered k (events ++ [e]) =
          s.delivered k events ++ (s.run events).delivers k e :=
        seen_concat ..
      have hbreakings : s.breakings k (events ++ [e]) =
          s.breakings k events ++ ((s.run events).breaks? k e).toList :=
        seen_concat ..
      have htexts : texts (s.delivered k events) <+: texts (s.delivered k (events ++ [e])) := by
        rw [hdelivered, texts, texts, List.filterMap_append]
        exact List.prefix_append _ _
      rw [hrun]
      rcases ih with heq | ⟨hstuck, hbroken, hprefix⟩
      · have hstep := unread_step k (s.run events) e
        cases hbreaks : (s.run events).breaks? k e with
        | none =>
            refine .inl ?_
            simp only [hbreaks, Option.map_none, Option.toList_none, List.nil_append] at hstep
            rw [hheard, hdelivered, List.map_append, List.append_assoc, hstep, ← List.append_assoc,
              heq, readings_append]
        | some error =>
            rcases stuck_of_breaks? hbreaks with ⟨hhears, hstuck⟩
            refine .inr ⟨hstuck, by simp [hbreakings, hbreaks], ?_⟩
            -- What was heard so far is what the messages begin with.
            have hframes := congrArg frames heq
            rw [frames_append, frames_map_ok, frames_readings] at hframes
            rw [hheard, hhears, List.append_nil]
            exact List.IsPrefix.trans ⟨_, hframes⟩ htexts
      · refine .inr ⟨stuck_step hstuck e, by simp [hbreakings, hbroken], ?_⟩
        rw [hheard, hears_of_stuck hstuck, List.append_nil]
        exact hprefix.trans htexts

/-! ## What the link makes the hub call -/

/-- The run loop that an event is a turn of. -/
def Event.loop? : Event ρ ν → Option Nat
  | .start loop => some loop
  | .grant loop => some loop
  | .follow loop => some loop
  | .deny loop _ => some loop
  | .read loop => some loop
  | .beat loop => some loop
  | .resume loop => some loop
  | .stop loop => some loop
  | _ => none

/-- The session that a run loop holds when an event is its turn. -/
def holding? (s : System ρ ν) (e : Event ρ ν) : Option Nat :=
  e.loop?.bind fun loop => (s.link.stageOf loop).session?

/-- The topics that session `k` makes the hub call at an event. -/
def announces (k : Nat) (s : System ρ ν) (e : Event ρ ν) : List Topic :=
  if s.holding? e = some k then (s.told e).filterMap Hub.Event.topic? else []

/-- The topics that session `k` made the hub call. -/
def announced (k : Nat) (s : System ρ ν) (events : List (Event ρ ν)) : List Topic :=
  seen step (announces k) s events

theorem turn?_read (s : System ρ ν) (loop : Nat) :
    s.turn? (.read loop) = (s.reading? (.read loop)).map fun p => readEvent loop p.2 := by
  simp only [turn?, reading?, whenIdle?]
  split <;> rfl

/-- A frame that is read makes the hub call what is registered under its topic, if it has one. -/
theorem told_of_frame {s : System ρ ν} {loop k : Nat} {frame : String}
    (h : s.reading? (.read loop) = some (k, some frame)) :
    s.holding? (.read loop) = some k ∧
      s.told (.read loop) = ((Topic.announced? frame).map Hub.Event.notify).toList := by
  rcases whenIdle?_eq_some.1 h with ⟨-, hreads⟩
  rcases reads?_eq_some.1 hreads with ⟨due, x, hs, -, -⟩
  have hturn : s.turn? (.read loop) = some (.received loop frame) := by
    rw [turn?_read, h]
    rfl
  refine ⟨by simp [holding?, Event.loop?, hs, Stage.session?], ?_⟩
  rw [told_eq (e := .read loop) (by simp), effects, hturn]
  cases ht : Topic.ofFrame frame <;>
    simp [Link.step, Link.received, hs, ht, Link.Effect.asks, Topic.announced?, Except.toOption]

/-- Nothing but a session that is opened and a frame that is read makes the link call anything. -/
theorem asks_step (l : Link) (now : Nat) {c : Link.Event} (hopened : ∀ n k, c ≠ .opened n k)
    (hreceived : ∀ n frame, c ≠ .received n frame) :
    (l.step now c).2.filterMap (Link.Effect.asks (ρ := ρ) (ν := ν)) = [] := by
  cases c with
  | opened n k => exact absurd rfl (hopened n k)
  | received n frame => exact absurd rfl (hreceived n frame)
  | _ =>
      simp only [Link.step, Link.connect, Link.dispose, Link.disposed, Link.drop, Link.start,
        Link.follow, Link.refused, Link.lost, Link.beat, Link.resume, Link.stop]
      repeat' split
      all_goals rfl

/-- What the link makes the hub call, it does because a session is opened or a frame is read. -/
theorem told_cases (s : System ρ ν) {e : Event ρ ν} (hnot : ∀ e', e ≠ .hub e') :
    s.told e = [] ∨
      (∃ loop, e = .grant loop ∧ s.told e = [.notifyAll] ∧
        (s.step e).link.stageOf loop = .opening s.sessions.length s.now) ∨
      ∃ loop k frame t, e = .read loop ∧ s.reading? e = some (k, some frame) ∧
        Topic.ofFrame frame = .ok t ∧ s.told e = [.notify t] := by
  have htold := told_eq (s := s) hnot
  cases hturn : s.turn? e with
  | none => exact .inl (by simpa [effects, hturn] using htold)
  | some c =>
      have hasks : s.told e = (s.link.step s.now c).2.filterMap Link.Effect.asks := by
        simpa [effects, hturn] using htold
      cases e with
      | grant loop =>
          rcases whenIdle?_eq_some.1 hturn with ⟨-, hc⟩
          rcases Option.ite_none_right_eq_some.1 hc with ⟨hattempting, hc⟩
          cases hc
          rcases exists_attempting hattempting with ⟨r, since, hr, hstage⟩
          have hs := (Link.stageOf_of_getElem? hr).trans hstage
          refine .inr (.inl ⟨loop, rfl, ?_, ?_⟩)
          · have heffects : (s.link.step s.now (.opened loop s.sessions.length)).2 =
                [.publish .connected, .announceAll] := by
              simp [Link.step, Link.opened, hs]
            exact hasks.trans (by rw [heffects]; rfl)
          · have hlink := link_step s (.grant loop)
            simp [hturn, Link.step, Link.opened, hs, Link.modifyLoop] at hlink
            simp [hlink, Link.stageOf, hr]
      | read loop =>
          rw [turn?_read] at hturn
          rcases Option.map_eq_some_iff.1 hturn with ⟨⟨k, frame⟩, hreading, rfl⟩
          cases frame with
          | none => exact .inl (hasks.trans (asks_step _ _ (by simp [readEvent]) (by simp [readEvent])))
          | some frame =>
              have hframe := (told_of_frame hreading).2
              cases ht : Topic.ofFrame frame with
              | ok t =>
                  refine .inr (.inr ⟨loop, k, frame, t, rfl, hreading, ht, ?_⟩)
                  simpa [Topic.announced?, ht, Except.toOption] using hframe
              | error e =>
                  exact .inl (by simpa [Topic.announced?, ht, Except.toOption] using hframe)
      | connect | dispose | disposed _ | drop =>
          cases hturn
          exact .inl (hasks.trans (asks_step _ _ (by simp) (by simp)))
      | start loop | follow loop | resume loop | stop loop =>
          rcases whenIdle?_eq_some.1 hturn with ⟨-, hc⟩
          cases hc
          exact .inl (hasks.trans (asks_step _ _ (by simp) (by simp)))
      | deny loop e =>
          rcases whenIdle?_eq_some.1 hturn with ⟨-, hc⟩
          rcases Option.ite_none_right_eq_some.1 hc with ⟨-, hc⟩
          cases hc
          exact .inl (hasks.trans (asks_step _ _ (by simp) (by simp)))
      | beat loop =>
          rcases whenIdle?_eq_some.1 hturn with ⟨-, hc⟩
          rcases Option.map_eq_some_iff.1 hc with ⟨p, -, rfl⟩
          exact .inl (hasks.trans (asks_step _ _ (by simp) (by simp)))
      | _ => cases hturn

theorem eq_read_of_reading? {s : System ρ ν} {e : Event ρ ν} {p : Nat × Option String}
    (h : s.reading? e = some p) : ∃ loop, e = .read loop := by
  cases e with
  | read loop => exact ⟨loop, rfl⟩
  | _ => cases h

theorem hears_eq_nil {k : Nat} {s : System ρ ν} {e : Event ρ ν}
    (h : ∀ session frame, s.reading? e ≠ some (session, some frame)) : s.hears k e = [] := by
  unfold hears frameOf
  split
  · next session frame hreading => exact absurd hreading (h session frame)
  · rfl

/-- Session `k` makes the hub call the topics of the frames that are read of it. -/
theorem announces_eq (k : Nat) (s : System ρ ν) (e : Event ρ ν) :
    s.announces k e = (s.hears k e).filterMap Topic.announced? := by
  by_cases hframe : ∃ session frame, s.reading? e = some (session, some frame)
  · rcases hframe with ⟨session, frame, hreading⟩
    rcases eq_read_of_reading? hreading with ⟨loop, rfl⟩
    rcases told_of_frame hreading with ⟨hholding, htold⟩
    rw [announces, hholding, htold, hears, hreading, frameOf]
    by_cases hk : session = k
    · cases ht : Topic.announced? frame <;> simp [hk, ht, Hub.Event.topic?]
    · simp [hk]
  · have hnone : ∀ session frame, s.reading? e ≠ some (session, some frame) :=
      fun session frame h => hframe ⟨session, frame, h⟩
    rw [hears_eq_nil hnone]
    unfold announces
    split
    · next hholding =>
        have hnot : ∀ e', e ≠ .hub e' := by
          rintro e' rfl
          cases hholding
        -- Without a frame at most everything is called.
        rcases s.told_cases hnot with h | ⟨_, -, h, -⟩ | ⟨_, session, frame, _, -, hreading, -, -⟩
        · simp [h]
        · simp [h, Hub.Event.topic?]
        · exact absurd hreading (hnone session frame)
    · rfl

/-! ## A session that was left -/

/-- The sessions that are held were opened, and each is held by one run loop. -/
structure Apart (s : System ρ ν) : Prop where
  opened : ∀ k, s.link.Holds k → k < s.sessions.length
  alone : ∀ m n k, (s.link.stageOf m).session? = some k → (s.link.stageOf n).session? = some k →
    m = n

theorem apart_create (config : LinkConfig) (scheme : String) :
    (create config scheme : System ρ ν).Apart := by
  have hnone : ∀ n k, ((create config scheme : System ρ ν).link.stageOf n).session? ≠ some k := by
    intro n k
    simp [create, Link.create, Link.stageOf, Stage.session?]
  refine ⟨?_, ?_⟩
  · rintro k ⟨n, hn⟩
    exact absurd hn (hnone n k)
  · intro m n k hm
    exact absurd hm (hnone m k)

/-- At an event no loop comes to hold a session, or one comes to hold a new one. -/
theorem Change.holders_cases {s s' : System ρ ν} {e : Event ρ ν} (h : Change s e s') :
    (s.sessions.length ≤ s'.sessions.length ∧ ∀ n k, (s'.link.stageOf n).session? = some k →
        (s.link.stageOf n).session? = some k) ∨
      ∃ n, s'.sessions.length = s.sessions.length + 1 ∧
        (s'.link.stageOf n).session? = some s.sessions.length ∧
        ∀ m, m ≠ n → s'.link.stageOf m = s.link.stageOf m := by
  have hmoved : ∀ {n : Nat} {r r' : RunLoop} (effects : List Link.Effect),
      s.link.loops[n]? = some r → (∀ k, r'.stage.session? = some k → r.stage.session? = some k) →
      ∀ m k, ((s.link.moved n r' effects).stageOf m).session? = some k →
        (s.link.stageOf m).session? = some k := by
    intro n r r' effects hr hstage m k hm
    rw [Link.stageOf_moved hr] at hm
    split at hm
    · next heq =>
        rw [heq, Link.stageOf_of_getElem? hr]
        exact hstage k hm
    · exact hm
  cases h with
  | stay => exact .inl ⟨Nat.le_refl _, fun _ _ hn => hn⟩
  | hub => exact .inl ⟨Nat.le_refl _, fun _ _ hn => hn⟩
  | call asks call => exact .inl ⟨Nat.le_refl _, fun n _ hn => (call.session_eq n).symm.trans hn⟩
  | shift idle loop move before after counted =>
      exact .inl ⟨Nat.le_refl _, hmoved _ loop fun k hk => by simp [after] at hk⟩
  | @opens n since r idle loop stage =>
      refine .inr ⟨n, by simp, by simp [Link.stageOf_moved loop, Stage.session?], ?_⟩
      intro m hm
      rw [Link.stageOf_moved loop, if_neg hm]
  | follows idle loop stage =>
      refine .inl ⟨Nat.le_refl _, hmoved _ loop ?_⟩
      intro k hk
      rw [stage]
      exact hk
  | hears => exact .inl ⟨by simp, fun _ _ hn => hn⟩
  | skips => exact .inl ⟨by simp, fun _ _ hn => hn⟩
  | beats idle loop stage late =>
      refine .inl ⟨by simp, hmoved _ loop ?_⟩
      intro k hk
      rw [stage]
      exact hk
  | leaves idle loop move before after releases =>
      exact .inl ⟨by simp, hmoved _ loop fun k hk => by simp [after] at hk⟩
  | serves => exact .inl ⟨by simp, fun _ _ hn => hn⟩
  | pass => exact .inl ⟨Nat.le_refl _, fun _ _ hn => hn⟩

theorem Apart.step {s s' : System ρ ν} {e : Event ρ ν} (h : s.Apart) (hchange : Change s e s') :
    s'.Apart := by
  rcases hchange.holders_cases with ⟨hle, hold⟩ | ⟨n, hlength, hnew, hothers⟩
  · refine ⟨?_, ?_⟩
    · rintro k ⟨n, hn⟩
      exact Nat.lt_of_lt_of_le (h.opened k ⟨n, hold n k hn⟩) hle
    · intro m n k hm hn
      exact h.alone m n k (hold m k hm) (hold n k hn)
  · -- Whoever else holds a session holds one of those there were.
    have holder : ∀ m k, (s'.link.stageOf m).session? = some k →
        m = n ∧ k = s.sessions.length ∨ m ≠ n ∧ k < s.sessions.length ∧
          (s.link.stageOf m).session? = some k := by
      intro m k hm
      by_cases hmn : m = n
      · subst hmn
        exact .inl ⟨rfl, Option.some.inj (hm.symm.trans hnew)⟩
      · rw [hothers m hmn] at hm
        exact .inr ⟨hmn, h.opened k ⟨m, hm⟩, hm⟩
    refine ⟨?_, ?_⟩
    · rintro k ⟨m, hm⟩
      rcases holder m k hm with ⟨-, rfl⟩ | ⟨-, hlt, -⟩ <;> omega
    · intro m m' k hm hm'
      rcases holder m k hm with ⟨rfl, hk⟩ | ⟨hmn, hlt, hs⟩
      · rcases holder m' k hm' with ⟨rfl, -⟩ | ⟨-, hlt, -⟩
        · rfl
        · omega
      · rcases holder m' k hm' with ⟨-, hk⟩ | ⟨-, -, hs'⟩
        · omega
        · exact h.alone m m' k hs hs'

/-- A session was opened, and no loop holds it any more. -/
structure Left (s : System ρ ν) (k : Nat) : Prop where
  opened : k < s.sessions.length
  free : ¬ s.link.Holds k

theorem Left.step {s s' : System ρ ν} {k : Nat} {e : Event ρ ν} (h : s.Left k)
    (hchange : Change s e s') : s'.Left k := by
  have hopened := h.opened
  rcases hchange.holders_cases with ⟨hle, hold⟩ | ⟨n, hlength, hnew, hothers⟩
  · refine ⟨Nat.lt_of_lt_of_le hopened hle, ?_⟩
    rintro ⟨n, hn⟩
    exact h.free ⟨n, hold n k hn⟩
  · refine ⟨by omega, ?_⟩
    rintro ⟨m, hm⟩
    by_cases hmn : m = n
    · -- The new session is another one.
      rw [hmn, hnew, Option.some.injEq] at hm
      omega
    · rw [hothers m hmn] at hm
      exact h.free ⟨m, hm⟩

/-- Nobody else holds the session that a loop lets go of. -/
theorem Apart.left {s s' : System ρ ν} {e : Event ρ ν} (h : s.Apart) (hchange : Change s e s')
    {n k : Nat} (hbefore : (s.link.stageOf n).session? = some k)
    (hafter : (s'.link.stageOf n).session? ≠ some k) : s'.Left k := by
  have hopened := h.opened k ⟨n, hbefore⟩
  rcases hchange.holders_cases with ⟨hle, hold⟩ | ⟨m, hlength, hnew, hothers⟩
  · refine ⟨Nat.lt_of_lt_of_le hopened hle, ?_⟩
    rintro ⟨m, hm⟩
    obtain rfl : m = n := h.alone m n k (hold m k hm) hbefore
    exact hafter hm
  · refine ⟨by omega, ?_⟩
    rintro ⟨m', hm'⟩
    by_cases hm : m' = m
    · rw [hm, hnew, Option.some.injEq] at hm'
      omega
    · have hsame := hothers m' hm
      rw [hsame] at hm'
      obtain rfl : m' = n := h.alone m' n k hm' hbefore
      exact hafter (hsame ▸ hm')

theorem apart_after {s : System ρ ν} (hs : s.Apart) {events : List (Event ρ ν)} (n : Nat) :
    (s.after events n).Apart :=
  after_induction (motive := Apart) (Nat.zero_le n) hs fun _ e _ _ _ hk => hk.step (change_step _ e)

theorem holds_of_hears {k : Nat} {s : System ρ ν} {e : Event ρ ν} (h : s.hears k e ≠ []) :
    s.link.Holds k := by
  unfold hears frameOf at h
  split at h
  · next session frame hreading =>
      split at h
      · next hk =>
          rcases eq_read_of_reading? hreading with ⟨loop, rfl⟩
          rcases reads?_eq_some.1 (whenIdle?_eq_some.1 hreading).2 with ⟨due, x, hs, -, -⟩
          exact ⟨loop, by rw [hs, ← hk]; rfl⟩
      · exact absurd rfl h
  · exact absurd rfl h

theorem heard_of_left {s : System ρ ν} {k : Nat} (h : s.Left k) (events : List (Event ρ ν)) :
    s.heard k events = [] := by
  induction events generalizing s with
  | nil => rfl
  | cons e events ih =>
      have hhears : s.hears k e = [] := by
        by_contra hne
        exact h.free (holds_of_hears hne)
      have hrest := ih (h.step (change_step s e))
      simpa [heard, seen, hhears] using hrest

end System

end LiveFeed
