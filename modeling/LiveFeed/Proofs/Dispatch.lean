import LiveFeed.Proofs.SessionStream

/-!
# What a session makes the link call

The link calls what is registered under the topics of the frames that it reads, in their order, and
nothing else after the opening of a session.  Messages that are no frames of a topic are noise: a run
with more of them is the same run.

* `System.Streams`: what a run tells of one of its sessions;
* `System.quiet`, `System.withoutNoise`: a system and a run without the noise;
* `System.quiet_run`: a run without its noise leads to the same;
* `System.dispatch_exact`: what the link calls, and that noise changes nothing of it.
-/

namespace LiveFeed

variable {ρ ν : Type}

/-- Whether a message is passed over, sooner or later. -/
def Message.isNoise : Message → Bool
  | .text s => (Topic.announced? s).isNone
  | .binary _ => true
  | .ping _ => true
  | .pong _ => true
  | .close => false
  | .fault _ => false

/-- Whether something that can be read will have a consequence. -/
def matters : Except SocketError String → Bool
  | .ok frame => (Topic.announced? frame).isSome
  | .error _ => true

/-- A session without the noise that is unread. -/
def Session.quiet (x : Session) : Session :=
  { x with inbound := x.inbound.filter matters }

theorem filter_reading (m : Message) :
    m.reading.toList.filter matters = if m.isNoise then [] else m.reading.toList := by
  cases m with
  | text s => cases ht : Topic.announced? s <;> simp [Message.reading, matters, Message.isNoise, ht]
  | _ => rfl

/-- Noise apart, a session has the same for its reader. -/
theorem next?_quiet {x : Session}
    (h : ∀ frame, x.next? = some (some frame) → Topic.announced? frame ≠ none) :
    x.quiet.next? = x.next? := by
  cases hin : x.inbound with
  | nil => simp [Session.next?, Session.quiet, hin]
  | cons reading rest =>
      cases reading with
      | error e =>
          have hmatters : matters (.error e) = true := rfl
          simp [Session.next?, Session.quiet, hin, hmatters]
      | ok frame =>
          have hmatters : matters (.ok frame) = true := by
            simpa [matters, Option.isSome_iff_ne_none] using h frame (by simp [Session.next?, hin])
          simp [Session.next?, Session.quiet, hin, hmatters]

namespace System

/-- A system without the noise that is unread. -/
def quiet (s : System ρ ν) : System ρ ν :=
  { s with sessions := s.sessions.map Session.quiet }

/-- Whether an event is the sending of noise. -/
def Event.isNoise : Event ρ ν → Bool
  | .deliver _ m => m.isNoise
  | _ => false

def Event.isRead : Event ρ ν → Bool
  | .read _ => true
  | _ => false

/-- Whether an event is nothing but noise, sent or read. -/
def isNoise (s : System ρ ν) (e : Event ρ ν) : Bool :=
  match s.reading? e with
  | some (_, some frame) => (Topic.announced? frame).isNone
  | _ => e.isNoise

/-- A run without the events that are noise in it. -/
def withoutNoise (s : System ρ ν) : List (Event ρ ν) → List (Event ρ ν)
  | [] => []
  | e :: events =>
    if s.isNoise e then (s.step e).withoutNoise events else e :: (s.step e).withoutNoise events

/-! ## Steps without noise -/

theorem quiet_modifySession {f g : Session → Session} (hfg : ∀ x, (f x).quiet = g x.quiet)
    (s : System ρ ν) (n : Nat) : (s.modifySession n f).quiet = s.quiet.modifySession n g := by
  have hsessions : (s.sessions.modify n f).map Session.quiet =
      (s.sessions.map Session.quiet).modify n g := by
    refine List.ext_getElem? fun k => ?_
    simp only [List.getElem?_map, List.getElem?_modify]
    cases s.sessions[k]? with
    | none => rfl
    | some x => by_cases hk : n = k <;> simp [hk, hfg]
  simp [quiet, modifySession, hsessions]

theorem quiet_modifySession_of_eq {s : System ρ ν} {n : Nat} {f : Session → Session}
    (hf : ∀ x, s.sessions[n]? = some x → (f x).quiet = x.quiet) :
    (s.modifySession n f).quiet = s.quiet := by
  have hsessions : (s.sessions.modify n f).map Session.quiet = s.sessions.map Session.quiet := by
    refine List.ext_getElem? fun k => ?_
    simp only [List.getElem?_map, List.getElem?_modify]
    cases hx : s.sessions[k]? with
    | none => rfl
    | some x => by_cases hk : n = k <;> simp_all
  simp [quiet, modifySession, hsessions]

theorem quiet_cause (effects : List Link.Effect) (s : System ρ ν) :
    (effects.foldl cause s).quiet = effects.foldl cause s.quiet := by
  induction effects generalizing s with
  | nil => rfl
  | cons effect effects ih =>
      have hcause : (s.cause effect).quiet = s.quiet.cause effect := by
        cases effect with
        | close n | release n =>
            -- Only these two change a session, and neither what is unread of it.
            refine quiet_modifySession ?_ s n
            intro x
            rfl
        | _ => rfl
      rw [List.foldl_cons, List.foldl_cons, ih, hcause]

theorem quiet_turn (s : System ρ ν) (c : Link.Event) : (s.turn c).quiet = s.quiet.turn c :=
  quiet_cause _ _

theorem quiet_whenIdle (s next : System ρ ν) :
    (s.whenIdle next).quiet = s.quiet.whenIdle next.quiet := by
  unfold whenIdle
  split <;> simp_all [quiet]

theorem quiet_grant (s : System ρ ν) (loop : Nat) : (s.grant loop).quiet = s.quiet.grant loop := by
  unfold grant
  split
  · next h =>
      have hsame : s.quiet.isAttempting loop = true := h
      -- The session that is opened has the same number in both.
      have hlength : s.quiet.sessions.length = s.sessions.length := by simp [quiet]
      rw [if_pos hsame, quiet_turn, hlength]
      simp [quiet, Session.fresh, Session.quiet]
  · next h =>
      have hsame : ¬ s.quiet.isAttempting loop = true := h
      rw [if_neg hsame]

theorem quiet_deny (s : System ρ ν) (loop : Nat) (e : SocketError) :
    (s.deny loop e).quiet = s.quiet.deny loop e := by
  unfold deny
  split
  · next h =>
      have hsame : s.quiet.isAttempting loop = true := h
      rw [if_pos hsame, quiet_turn]
      rfl
  · next h =>
      have hsame : ¬ s.quiet.isAttempting loop = true := h
      rw [if_neg hsame]

theorem beats?_quiet (s : System ρ ν) (loop : Nat) : s.quiet.beats? loop = s.beats? loop := by
  simp only [beats?, quiet, List.getElem?_map, Option.map_map]
  rfl

theorem quiet_beat (s : System ρ ν) (loop : Nat) : (s.beat loop).quiet = s.quiet.beat loop := by
  cases h : s.beats? loop with
  | none => rw [beat_of_none h, beat_of_none ((s.beats?_quiet loop).trans h)]
  | some p =>
      rw [beat_of_beats? h, beat_of_beats? ((s.beats?_quiet loop).trans h), quiet_turn]
      congr 1
      refine quiet_modifySession ?_ s p.1
      intro x
      have htakes : x.quiet.takes = x.takes := rfl
      unfold Session.send
      rw [htakes]
      split <;> rfl

/-- What there is to read is the same without the noise, if it is no noise. -/
theorem reads?_quiet {s : System ρ ν} {loop : Nat}
    (h : ∀ k frame, s.reads? loop = some (k, some frame) → Topic.announced? frame ≠ none) :
    s.quiet.reads? loop = s.reads? loop := by
  cases hs : s.link.stageOf loop with
  | live k due =>
      cases hx : s.sessions[k]? with
      | none => simp [reads?, hs, quiet, hx]
      | some x =>
          have hnext : x.quiet.next? = x.next? := by
            refine next?_quiet fun frame hframe => h k frame ?_
            exact reads?_eq_some.2 ⟨due, x, hs, hx, hframe⟩
          simp [reads?, hs, quiet, hx, hnext]
  | _ => simp [reads?, hs, quiet]

theorem quiet_read {s : System ρ ν} {loop : Nat}
    (h : ∀ k frame, s.reads? loop = some (k, some frame) → Topic.announced? frame ≠ none) :
    (s.read loop).quiet = s.quiet.read loop := by
  have hreads := reads?_quiet h
  cases hr : s.reads? loop with
  | none => rw [read_of_none hr, read_of_none (hreads.trans hr)]
  | some p =>
      rcases p with ⟨k, frame⟩
      cases frame with
      | none => rw [read_of_end hr, read_of_end (hreads.trans hr), quiet_turn]
      | some frame =>
          rcases read_of_frame hr with ⟨x, rest, hx, hin, hread⟩
          rcases read_of_frame (hreads.trans hr) with ⟨y, rest', hy, hin', hread'⟩
          rw [hread, hread', quiet_turn]
          congr 1
          -- The first thing that is unread is the same, so the rest is too.
          have hquiet : y.inbound = x.inbound.filter matters := by
            have hy' : s.quiet.sessions[k]? = some x.quiet := by simp [quiet, hx]
            rw [Option.some.inj (hy.symm.trans hy')]
            rfl
          have hmatters : matters (.ok frame) = true := by
            simpa [matters, Option.isSome_iff_ne_none] using h k frame hr
          rw [hin, hin', List.filter_cons_of_pos hmatters, List.cons.injEq] at hquiet
          refine quiet_modifySession ?_ s k
          intro z
          rw [hquiet.2]
          rfl

theorem quiet_pass (s : System ρ ν) (time : Nat) : (s.pass time).quiet = s.quiet.pass time := by
  unfold pass
  split
  · next h => exact (if_pos (c := s.now ≤ time ∧ s.link.loops.all _ = true) h).symm
  · next h => exact (if_neg (c := s.now ≤ time ∧ s.link.loops.all _ = true) h).symm

theorem serves_quiet (s : System ρ ν) (n : Nat) : s.quiet.serves n = s.serves n := by
  unfold serves
  simp only [quiet, List.getElem?_map]
  cases s.sessions[n]? <;> rfl

theorem isReachable_quiet (s : System ρ ν) (n : Nat) : s.quiet.isReachable n = s.isReachable n := by
  unfold isReachable
  simp only [quiet, List.getElem?_map]
  cases s.sessions[n]? <;> rfl

theorem announced?_of_reads? {s : System ρ ν} {loop : Nat} (idle : s.hub.fanOuts.isEmpty = true)
    (h : s.isNoise (.read loop) = false) (k : Nat) (frame : String)
    (hreads : s.reads? loop = some (k, some frame)) : Topic.announced? frame ≠ none := by
  intro hnone
  simp [isNoise, reading?, whenIdle?, idle, hreads, hnone] at h

/-- An event that is no noise does the same without the noise that is unread. -/
theorem quiet_step {s : System ρ ν} {e : Event ρ ν} (h : s.isNoise e = false) :
    (s.step e).quiet = s.quiet.step e := by
  cases e with
  | hub e' => rfl
  | connect | dispose | disposed _ | drop => exact quiet_turn s _
  | start loop | follow loop | resume loop | stop loop =>
      rw [step, quiet_whenIdle, quiet_turn]
      rfl
  | grant loop =>
      rw [step, quiet_whenIdle, quiet_grant]
      rfl
  | deny loop e =>
      rw [step, quiet_whenIdle, quiet_deny]
      rfl
  | beat loop =>
      rw [step, quiet_whenIdle, quiet_beat]
      rfl
  | read loop =>
      rw [step, step, quiet_whenIdle]
      unfold whenIdle
      split
      · next hidle => exact quiet_read (announced?_of_reads? hidle h)
      · rfl
  | deliver n m =>
      have hnoise : m.isNoise = false := h
      rw [step, step, serves_quiet]
      split
      · refine quiet_modifySession ?_ s n
        intro x
        simp [Session.quiet, List.filter_append, filter_reading, hnoise]
      · rfl
  | breakOff n e =>
      rw [step, step, isReachable_quiet]
      split
      · refine quiet_modifySession ?_ s n
        intro x
        rfl
      · rfl
  | close n | jam n e =>
      refine quiet_modifySession ?_ s n
      intro x
      rfl
  | pass time => exact quiet_pass s time

/-- A frame without a topic is taken off its session, and that is all. -/
theorem step_read_of_noise {s : System ρ ν} {loop k : Nat} {frame : String}
    (h : s.reading? (.read loop) = some (k, some frame)) (hnone : Topic.announced? frame = none) :
    ∃ x rest, s.sessions[k]? = some x ∧ x.inbound = .ok frame :: rest ∧
      s.step (.read loop) = s.modifySession k fun x => { x with inbound := rest } := by
  rcases whenIdle?_eq_some.1 h with ⟨hidle, hreads⟩
  rcases reads?_eq_some.1 hreads with ⟨due, -, hs, -, -⟩
  rcases read_of_frame hreads with ⟨x, rest, hx, hin, hread⟩
  have hreceived : s.link.step s.now (.received loop frame) = (s.link, []) := by
    cases ht : Topic.ofFrame frame with
    | ok t => simp [Topic.announced?, ht, Except.toOption] at hnone
    | error e => simp [Link.step, Link.received, hs, ht]
  have hturn : (s.modifySession k fun x => { x with inbound := rest }).turn (.received loop frame) =
      s.modifySession k fun x => { x with inbound := rest } := turn_eq_self hreceived
  exact ⟨x, rest, hx, hin, (whenIdle_of_isEmpty hidle).trans (hread.trans hturn)⟩

/-- Noise changes nothing but what is unread, and the hub is told nothing. -/
theorem quiet_step_of_isNoise {s : System ρ ν} {e : Event ρ ν} (h : s.isNoise e = true) :
    (s.step e).quiet = s.quiet ∧ s.told e = [] := by
  cases e with
  | deliver n m =>
      have hnoise : m.isNoise = true := h
      refine ⟨?_, rfl⟩
      rw [step]
      split
      · refine quiet_modifySession_of_eq fun x _ => ?_
        simp [Session.quiet, List.filter_append, filter_reading, hnoise]
      · rfl
  | read loop =>
      unfold isNoise at h
      split at h
      · next k frame hreading =>
          have hnone : Topic.announced? frame = none := Option.isNone_iff_eq_none.1 h
          refine ⟨?_, by simpa [hnone] using (told_of_frame hreading).2⟩
          rcases step_read_of_noise hreading hnone with ⟨x, rest, hx, hin, hstep⟩
          rw [hstep]
          refine quiet_modifySession_of_eq fun y hy => ?_
          obtain rfl : x = y := Option.some.inj (hx.symm.trans hy)
          have hmatters : ¬ matters (.ok frame) = true := by simp [matters, hnone]
          simp [Session.quiet, hin, hmatters]
      · cases h
  | _ => cases h

/-- An event that is no noise tells the hub the same without the noise that is unread. -/
theorem told_quiet {s : System ρ ν} {e : Event ρ ν} (h : s.isNoise e = false) :
    s.quiet.told e = s.told e := by
  have hturn : s.quiet.turn? e = s.turn? e := by
    cases e with
    | grant loop =>
        have hlength : s.quiet.sessions.length = s.sessions.length := by simp [quiet]
        simp only [turn?, hlength]
        rfl
    | beat loop =>
        simp only [turn?, beats?_quiet]
        rfl
    | read loop =>
        have hhub : s.quiet.hub = s.hub := rfl
        simp only [turn?, whenIdle?, hhub]
        split
        · next hidle => rw [reads?_quiet (announced?_of_reads? hidle h)]
        · rfl
    | _ => rfl
  have heffects : s.quiet.effects e = s.effects e := by
    rw [effects, effects, hturn]
    rfl
  cases e with
  | hub e' => rfl
  | _ => exact congrArg (List.filterMap Link.Effect.asks) heffects

/-! ## Runs without noise -/

/-- A run and what it tells the hub are the same without its noise. -/
theorem quiet_run (s : System ρ ν) (events : List (Event ρ ν)) :
    (s.run events).quiet = s.quiet.run (s.withoutNoise events) ∧
      seen step told s events = seen step told s.quiet (s.withoutNoise events) := by
  induction events generalizing s with
  | nil => exact ⟨rfl, rfl⟩
  | cons e events ih =>
      -- The second run passes over an event of noise, and any other does the same in both.
      rcases ih (s.step e) with ⟨hrun, htold⟩
      rw [withoutNoise]
      cases h : s.isNoise e with
      | true =>
          rcases quiet_step_of_isNoise h with ⟨hstep, hnone⟩
          rw [hstep] at hrun htold
          refine ⟨hrun, ?_⟩
          rw [if_pos rfl, seen, hnone]
          exact htold
      | false =>
          rw [quiet_step h] at hrun htold
          refine ⟨hrun, ?_⟩
          rw [if_neg (by simp), seen, seen, told_quiet h, htold]

/-- How much is unread of the session that a loop follows. -/
def backlog (s : System ρ ν) (loop : Nat) : Nat :=
  (((s.link.stageOf loop).session?).map fun k => (s.unread k).length).getD 0

theorem backlog_lt {s : System ρ ν} {loop : Nat} (h : s.isNoise (.read loop) = true) :
    (s.step (.read loop)).backlog loop < s.backlog loop := by
  unfold isNoise at h
  split at h
  · next k frame hreading =>
      have hnone : Topic.announced? frame = none := Option.isNone_iff_eq_none.1 h
      rcases step_read_of_noise hreading hnone with ⟨x, rest, hx, hin, hstep⟩
      rcases reads?_eq_some.1 (whenIdle?_eq_some.1 hreading).2 with ⟨due, -, hs, -, -⟩
      have hunread : (s.step (.read loop)).unread k = rest := by
        rw [hstep]
        exact unread_modifySession_self hx _
      have hs' : (s.step (.read loop)).link.stageOf loop = .live k due := by
        rw [hstep]
        exact hs
      simp [backlog, hs, hs', Stage.session?, hunread, unread_of_getElem? hx, hin]
  · cases h

/-- Enough turns of a loop read the noise that stands before anything else. -/
theorem exists_reads (s : System ρ ν) (loop : Nat) :
    ∃ n, (∀ events, s.withoutNoise (List.replicate n (.read loop) ++ events) =
        (s.run (List.replicate n (.read loop))).withoutNoise events) ∧
      (s.run (List.replicate n (.read loop))).isNoise (.read loop) = false := by
  -- Every turn that reads noise leaves less unread.
  induction hn : s.backlog loop using Nat.strongRecOn generalizing s with
  | ind n ih =>
      cases h : s.isNoise (.read loop) with
      | false => exact ⟨0, fun _ => rfl, h⟩
      | true =>
          have hlt := backlog_lt h
          rw [hn] at hlt
          rcases ih _ hlt (s.step (.read loop)) rfl with ⟨m, hevents, hlast⟩
          refine ⟨m + 1, ?_, hlast⟩
          intro events
          rw [List.replicate_succ, List.cons_append, withoutNoise, if_pos h]
          exact hevents events

/-- Whatever noise is sent in a run, there are turns of its loops that read it in time. -/
theorem exists_in_time (s : System ρ ν) (events : List (Event ρ ν)) :
    ∃ more : List (Event ρ ν),
      more.filter (fun e => !e.isRead) = events.filter (fun e => !e.isRead) ∧
      s.withoutNoise more = events.filter fun e => !e.isNoise := by
  induction events generalizing s with
  | nil => exact ⟨[], rfl, rfl⟩
  | cons e events ih =>
      cases hread : e.isRead with
      | true =>
          have hloop : ∃ loop, e = .read loop := by
            cases e with
            | read loop => exact ⟨loop, rfl⟩
            | _ => cases hread
          rcases hloop with ⟨loop, rfl⟩
          rcases exists_reads s loop with ⟨n, hflush, hlast⟩
          -- The noise that stands before is read first, and then what is to be read.
          rcases ih ((s.run (List.replicate n (.read loop))).step (.read loop)) with
            ⟨more, hreads, hnoise⟩
          refine ⟨List.replicate n (.read loop) ++ .read loop :: more, ?_, ?_⟩
          · simp [hread, hreads]
          · rw [hflush, withoutNoise, if_neg (by simp [hlast]), hnoise]
            rfl
      | false =>
          rcases ih (s.step e) with ⟨more, hreads, hnoise⟩
          have hsame : s.isNoise e = e.isNoise := by
            cases e <;> first | rfl | cases hread
          refine ⟨e :: more, ?_, ?_⟩
          · simp [hread, hreads]
          · cases hn : e.isNoise <;> simp [withoutNoise, hsame, hn, hnoise]

theorem isNoise_of_isNoise (s : System ρ ν) {e : Event ρ ν} (h : e.isNoise = true) :
    s.isNoise e = true := by
  cases e with
  | deliver n m => exact h
  | _ => cases h

theorem isRead_of_isNoise {s : System ρ ν} {e : Event ρ ν} (h : s.isNoise e = true)
    (hnot : e.isNoise = false) : e.isRead = true := by
  cases e with
  | read loop => rfl
  | deliver n m =>
      have hnoise : m.isNoise = true := h
      simp [Event.isNoise, hnoise] at hnot
  | _ => cases h

/-- What is sent in a run stays, but of the turns of its loops only those that read no noise. -/
theorem exists_thinned (s : System ρ ν) {events noisy : List (Event ρ ν)}
    (h : noisy.filter (fun e => !e.isNoise) = events.filter fun e => !e.isNoise) :
    ∃ thin : List (Event ρ ν),
      thin.filter (fun e => !e.isRead) = noisy.filter (fun e => !e.isRead) ∧
      thin.filter (fun e => !e.isNoise) = s.withoutNoise events := by
  induction events generalizing s noisy with
  | nil => exact ⟨noisy, rfl, h⟩
  | cons e events ih =>
      cases hnoise : e.isNoise with
      | true =>
          have hsame := s.isNoise_of_isNoise hnoise
          rw [List.filter_cons_of_neg (by simp [hnoise])] at h
          rw [withoutNoise, if_pos hsame]
          exact ih (s.step e) h
      | false =>
          rw [List.filter_cons_of_pos (by simp [hnoise]), List.filter_eq_cons_iff] at h
          -- The event is found in the other run, after some noise.
          rcases h with ⟨before, after, rfl, hbefore, -, hafter⟩
          have hquiet : before.filter (fun e => !e.isNoise) = [] := List.filter_eq_nil_iff.2 hbefore
          rcases ih (s.step e) hafter with ⟨thin, hreads, hthin⟩
          rw [withoutNoise]
          cases hs : s.isNoise e with
          | true =>
              have hread := isRead_of_isNoise hs hnoise
              exact ⟨before ++ thin, by simp [hreads, hread], by simp [hquiet, hthin]⟩
          | false =>
              refine ⟨before ++ e :: thin, ?_, by simp [hquiet, hthin, hnoise]⟩
              cases hread : e.isRead <;> simp [hreads, hread]

/-- A run may be given any noise at any place, and its loops take their turns so that it differs
only in noise from the run that it was. -/
theorem exists_noisy (s : System ρ ν) {events noisy : List (Event ρ ν)}
    (h : noisy.filter (fun e => !e.isNoise) = events.filter fun e => !e.isNoise) :
    ∃ more : List (Event ρ ν),
      more.filter (fun e => !e.isRead) = noisy.filter (fun e => !e.isRead) ∧
      s.withoutNoise more = s.withoutNoise events := by
  rcases s.exists_thinned h with ⟨thin, hreads, hthin⟩
  rcases s.exists_in_time thin with ⟨more, hreads', hmore⟩
  exact ⟨more, hreads'.trans hreads, hmore.trans hthin⟩

/-! ## What a session makes the link call -/

/-- What a run tells of session `k`. -/
structure Streams (k : Nat) (s : System ρ ν) (events : List (Event ρ ν)) : Prop where
  /-- The session makes the hub call the topics of the frames that are read of it, in their order.
  -/
  announced : s.announced k events = (s.heard k events).filterMap Topic.announced?
  /-- The frames that are read are texts that the service sent, in their order and from the first.
  -/
  heard : s.heard k events <+: texts (s.delivered k events)
  /-- When a loop comes to the end, be it a message or that no more will come, it has read all the
  texts before it. -/
  complete : ∀ loop, (s.run events).reading? (.read loop) = some (k, none) →
    s.breakings k events = [] →
    s.heard k events = texts ((s.delivered k events).takeWhile fun m => !m.isEnd)
  /-- After the session broke off nothing is read that was not. -/
  broken : ∀ n e error, events[n]? = some e → (s.after events n).breaks? k e = some error →
    s.heard k events = s.heard k (events.take n)
  /-- After a loop let go of the session nothing is read of it. -/
  left : ∀ n loop, ((s.after events n).link.stageOf loop).session? = some k →
    ((s.after events (n + 1)).link.stageOf loop).session? ≠ some k →
    s.heard k events = s.heard k (events.take (n + 1))

theorem heard_eq_take {k : Nat} {s : System ρ ν} {events : List (Event ρ ν)} {n : Nat}
    (h : (s.after events n).heard k (events.drop n) = []) :
    s.heard k events = s.heard k (events.take n) := by
  have happend : s.heard k (events.take n ++ events.drop n) =
      s.heard k (events.take n) ++ (s.after events n).heard k (events.drop n) := seen_append ..
  rwa [h, List.append_nil, List.take_append_drop] at happend

theorem takeWhile_of_next? {x : Session} (h : x.next? = some none) :
    x.inbound.takeWhile (fun reading => reading.isOk) = [] := by
  unfold Session.next? at h
  cases hin : x.inbound with
  | nil => rfl
  | cons reading rest =>
      cases reading with
      | ok frame => simp [hin] at h
      | error e => rfl

theorem announced_eq (k : Nat) (s : System ρ ν) (events : List (Event ρ ν)) :
    s.announced k events = (s.heard k events).filterMap Topic.announced? := by
  induction events generalizing s with
  | nil => rfl
  | cons e events ih =>
      have hrest := ih (s.step e)
      simp only [announced, heard, seen] at hrest ⊢
      rw [announces_eq, hrest, List.filterMap_append]

theorem streams {s : System ρ ν} (hempty : s.sessions = []) (hapart : s.Apart) (k : Nat)
    (events : List (Event ρ ν)) : Streams k s events := by
  have hunread : s.unread k = [] := by simp [unread, hempty]
  have hheard := heard_or_stuck k s hunread events
  refine ⟨announced_eq k s events, ?_, ?_, ?_, ?_⟩
  · rcases hheard with heq | ⟨-, -, hprefix⟩
    · have hframes := congrArg frames heq
      rw [frames_append, frames_map_ok, frames_readings] at hframes
      exact ⟨_, hframes⟩
    · exact hprefix
  · intro loop hreading hunbroken
    have heq := hheard.resolve_right fun h => h.2.1 hunbroken
    rcases reads?_eq_some.1 (whenIdle?_eq_some.1 hreading).2 with ⟨due, x, -, hx, hnext⟩
    -- What is unread begins with the end, so what was read is all that stands before it.
    have hend : ((s.run events).unread k).takeWhile (fun reading => reading.isOk) = [] := by
      rw [unread_of_getElem? hx]
      exact takeWhile_of_next? hnext
    have hok : ∀ reading ∈ (s.heard k events).map (Except.ok (ε := SocketError)),
        reading.isOk = true := by
      simp [Except.isOk, Except.toBool]
    rw [← frames_readings, readings_takeWhile, ← heq, List.takeWhile_append_of_pos hok, hend,
      List.append_nil, frames_map_ok]
  · intro n e error he hbreaks
    refine heard_eq_take ?_
    have hdrop : events.drop n = e :: events.drop (n + 1) := by
      rw [List.drop_eq_getElem?_toList_append, he]
      rfl
    rcases stuck_of_breaks? hbreaks with ⟨hhears, hstuck⟩
    have hrest := heard_of_stuck hstuck (events.drop (n + 1))
    simpa [hdrop, heard, seen, hhears] using hrest
  · intro n loop hbefore hafter
    refine heard_eq_take (heard_of_left ?_ _)
    rcases s.after_succ_cases events n with ⟨e, -, hstep⟩ | ⟨-, hsame⟩
    · rw [hstep] at hafter ⊢
      exact (apart_after hapart n).left (change_step _ e) hbefore hafter
    · rw [hsame] at hafter
      exact absurd hbefore hafter

/-- What the link does with what the service sends it. -/
structure Dispatch (s : System ρ ν) : Prop where
  /-- The hub does as it is told, by others or by the link. -/
  hub : ∀ events, (s.run events).hub = s.hub.run (seen step told s events)
  /-- The link makes the hub call everything when a session is opened, and later the topics that the
  session announces, one at a time. -/
  told : ∀ events n e, events[n]? = some e → (∀ e', e ≠ .hub e') →
    (s.after events n).told e = [] ∨
      (∃ loop, e = .grant loop ∧ (s.after events n).told e = [.notifyAll] ∧
        (s.after events (n + 1)).link.stageOf loop =
          .opening (s.after events n).sessions.length (s.after events n).now) ∨
      ∃ k t, (s.after events n).told e = [.notify t] ∧ (s.after events n).announces k e = [t]
  streams : ∀ k events, Streams k s events
  /-- Runs that differ only in noise lead to the same, and tell the hub the same. -/
  noise : ∀ events events', s.withoutNoise events = s.withoutNoise events' →
    (s.run events).quiet = (s.run events').quiet ∧
      seen step System.told s events = seen step System.told s events'
  /-- A run may be given any noise at any place, and there are turns of its loops, which read the
  noise, such that it differs only in noise from the run that it was. -/
  noisy : ∀ events noisy : List (Event ρ ν),
    noisy.filter (fun e => !e.isNoise) = events.filter (fun e => !e.isNoise) →
    ∃ more : List (Event ρ ν),
      more.filter (fun e => !e.isRead) = noisy.filter (fun e => !e.isRead) ∧
      s.withoutNoise more = s.withoutNoise events

theorem hub_run (s : System ρ ν) (events : List (Event ρ ν)) :
    (s.run events).hub = s.hub.run (seen step told s events) := by
  induction events generalizing s with
  | nil => rfl
  | cons e events ih =>
      have hrest := ih (s.step e)
      rw [hub_step] at hrest
      rw [seen, Hub.run, List.foldl_append]
      exact hrest

/-- In every run the topics that a session makes the hub call are those of the frames that are read
of it, which are all the texts that the service sent before the end if the session came to it; and
what is no frame of a topic changes nothing but what is unread. -/
theorem dispatch_exact (config : LinkConfig) (scheme : String) :
    (create config scheme : System ρ ν).Dispatch := by
  have hs : (create config scheme : System ρ ν).quiet = create config scheme := rfl
  have hapart : (create config scheme : System ρ ν).Apart := apart_create config scheme
  have hempty : (create config scheme : System ρ ν).sessions = [] := rfl
  generalize (create config scheme : System ρ ν) = s at hs hapart hempty
  refine ⟨hub_run s, ?_, streams hempty hapart, ?_, fun _ _ => exists_noisy s⟩
  · intro events n e he hnot
    rcases (s.after events n).told_cases hnot with h | ⟨loop, rfl, h, hstage⟩ | h
    · exact .inl h
    · rw [s.after_succ he]
      exact .inr (.inl ⟨loop, rfl, h, hstage⟩)
    · rcases h with ⟨loop, k, frame, t, rfl, hreading, ht, h⟩
      have hann := announces_eq k (s.after events n) (.read loop)
      refine .inr (.inr ⟨k, t, h, ?_⟩)
      simpa [hears, hreading, frameOf, Topic.announced?, ht, Except.toOption] using hann
  · intro events events' hsame
    rcases quiet_run s events with ⟨hrun, htold⟩
    rcases quiet_run s events' with ⟨hrun', htold'⟩
    rw [hrun, htold, hrun', htold', hsame]
    exact ⟨rfl, rfl⟩

/-- A session on which frames come in the midst of noise, and one more after the end. -/
def chatter : List (Event Unit Nat) :=
  [.connect, .start 0, .grant 0, .hub .finish, .deliver 0 (.ping []), .follow 0,
    .deliver 0 (.text Topic.user.frame), .deliver 0 (.text "user"), .read 0, .hub .finish, .read 0,
    .deliver 0 (.text Topic.apod.frame), .deliver 0 .close, .deliver 0 (.text Topic.group.frame),
    .read 0, .hub .finish, .read 0]

example : (create .default "ws" : System Unit Nat).announced 0 chatter = [.user, .apod] := by cbv

end System

end LiveFeed
