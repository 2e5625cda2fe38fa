import LiveFeed.Link

/-!
# Moves of a run loop

Every turn of a run loop takes it from one stage to another and causes a few things outside.  The
moves are listed once, with their conditions; what holds of a link is then shown move by move.

* `Link.Move`: what a run loop can do in one turn;
* `Link.turned_start` and the like: every turn of a loop is a move, or nothing;
* `Link.Call`: what a call of the owner can do;
* `Link.called_connect` and the like: every call is one of these, or nothing.
-/

namespace LiveFeed

namespace Link

/-- What an event can make of the run loop `n` that it is a turn of, and what the loop causes. -/
inductive Move (config : LinkConfig) (now n : Nat) :
    Event → RunLoop → RunLoop → List Effect → Prop where
  | start {r : RunLoop} (stage : r.stage = .starting) :
      Move config now n (.start n) r { r with stage := .attempting now } [.publish .connecting]
  | opened {r : RunLoop} {since : Nat} (session : Nat) (stage : r.stage = .attempting since) :
      Move config now n (.opened n session) r
        { r with stage := .opening session now, failures := 0 } [.publish .connected, .announceAll]
  | follow {r : RunLoop} {session since : Nat} (stage : r.stage = .opening session since) :
      Move config now n (.follow n) r { r with stage := .live session (now + config.heartbeat) } []
  /-- The time of the first sign of life is beyond the clock. -/
  | overrun {r : RunLoop} {session since : Nat} (stage : r.stage = .opening session since)
      (unreachable : clockLimit ≤ now + config.heartbeat) :
      Move config now n (.follow n) r { r with stage := .crashed } [.release session]
  | giveUp {r : RunLoop} {since : Nat} {e : SocketError} {reason : String}
      (stage : r.stage = .attempting since)
      (refused : refusal config.limit r.failures e = .giveUp reason) :
      Move config now n (.refused n e) r { r with stage := .ended } [.publish (.failed reason)]
  | overcount {r : RunLoop} {since : Nat} {e : SocketError} (stage : r.stage = .attempting since)
      (refused : refusal config.limit r.failures e = .crash) :
      Move config now n (.refused n e) r { r with stage := .crashed } []
  | retry {r : RunLoop} {since : Nat} {e : SocketError} {failures : UInt32}
      (stage : r.stage = .attempting since)
      (refused : refusal config.limit r.failures e = .retry failures) :
      Move config now n (.refused n e) r
        { r with stage := .pausing (now + config.pause), failures := failures }
        [.publish .reconnecting]
  | lost {r : RunLoop} {session due : Nat} (stage : r.stage = .live session due) :
      Move config now n (.lost n) r { r with stage := .pausing (now + config.pause) }
        [.release session, .publish .reconnecting]
  | beat {r : RunLoop} {session due : Nat} (stage : r.stage = .live session due) (late : due ≤ now) :
      Move config now n (.beat n true) r { r with stage := .live session (now + config.heartbeat) } []
  /-- The sign of life could not be sent. -/
  | missed {r : RunLoop} {session due : Nat} (stage : r.stage = .live session due)
      (late : due ≤ now) :
      Move config now n (.beat n false) r { r with stage := .pausing (now + config.pause) }
        [.release session, .publish .reconnecting]
  | resume {r : RunLoop} {due : Nat} (stage : r.stage = .pausing due) (late : due ≤ now) :
      Move config now n (.resume n) r { r with stage := .attempting now } [.publish .connecting]
  | stopAttempt {r : RunLoop} {since : Nat} (stage : r.stage = .attempting since)
      (stopping : r.stopping = true) :
      Move config now n (.stop n) r { r with stage := .ended } [.publish .disposed]
  | stopPause {r : RunLoop} {due : Nat} (stage : r.stage = .pausing due)
      (stopping : r.stopping = true) :
      Move config now n (.stop n) r { r with stage := .ended } [.publish .disposed]
  | stopSession {r : RunLoop} {session due : Nat} (stage : r.stage = .live session due)
      (stopping : r.stopping = true) :
      Move config now n (.stop n) r { r with stage := .ended }
        [.close session, .release session, .publish .disposed]

/-- The status that is published with some effects; no move publishes two. -/
def told : List Effect → Option LinkStatus
  | [] => none
  | .publish status :: _ => some status
  | _ :: effects => told effects

/-- The link after one of its loops moved. -/
def moved (l : Link) (n : Nat) (r : RunLoop) (effects : List Effect) : Link :=
  { l with loops := l.loops.set n r, status := (told effects).getD l.status }

/-- A turn of loop `n` is a move of it, or nothing. -/
def Turned (l : Link) (now n : Nat) (e : Event) : Prop :=
  l.step now e = (l, []) ∨
    ∃ r r' effects, l.loops[n]? = some r ∧ Move l.config now n e r r' effects ∧
      l.step now e = (l.moved n r' effects, effects)

theorem stageOf_of_getElem? {l : Link} {n : Nat} {r : RunLoop} (h : l.loops[n]? = some r) :
    l.stageOf n = r.stage := by
  simp [stageOf, h]

theorem exists_loop_of_stageOf {l : Link} {n : Nat} (h : l.stageOf n ≠ .ended) :
    ∃ r, l.loops[n]? = some r ∧ r.stage = l.stageOf n := by
  cases hr : l.loops[n]? with
  | none => exact absurd (by simp [stageOf, hr]) h
  | some r => exact ⟨r, rfl, (stageOf_of_getElem? hr).symm⟩

theorem modify_eq_set {α : Type} {xs : List α} {n : Nat} {x : α} (h : xs[n]? = some x)
    (f : α → α) : xs.modify n f = xs.set n (f x) := by
  refine List.ext_getElem? fun m => ?_
  rw [List.getElem?_modify, List.getElem?_set]
  by_cases hm : n = m
  · subst hm
    rcases List.getElem?_eq_some_iff.1 h with ⟨hlt, hget⟩
    simp [hlt, hget]
  · simp [hm]

theorem modifyLoop_eq {l : Link} {n : Nat} {r : RunLoop} (h : l.loops[n]? = some r)
    (f : RunLoop → RunLoop) : l.modifyLoop n f = { l with loops := l.loops.set n (f r) } := by
  rw [modifyLoop, modify_eq_set h]

/-- A move of one loop leaves the others where they stand. -/
theorem stageOf_moved {l : Link} {n : Nat} {r : RunLoop} (hr : l.loops[n]? = some r) (r' : RunLoop)
    (effects : List Effect) (m : Nat) :
    (l.moved n r' effects).stageOf m = if m = n then r'.stage else l.stageOf m := by
  have hlt : n < l.loops.length := (List.getElem?_eq_some_iff.1 hr).1
  by_cases hm : m = n
  · simp [stageOf, moved, hm, hlt]
  · simp [stageOf, moved, hm, List.getElem?_set_ne (Ne.symm hm)]

/-! ## Every turn is a move -/

theorem turned_start (l : Link) (now n : Nat) : Turned l now n (.start n) := by
  cases hs : l.stageOf n with
  | starting =>
      rcases exists_loop_of_stageOf (l := l) (n := n) (by simp [hs]) with ⟨r, hr, hstage⟩
      refine .inr ⟨r, _, _, hr, .start (hstage.trans hs), ?_⟩
      simp [step, start, hs, moveTo, modifyLoop_eq hr, publish, moved, told]
  | _ => exact .inl (by simp [step, start, hs])

theorem turned_follow (l : Link) (now n : Nat) : Turned l now n (.follow n) := by
  cases hs : l.stageOf n with
  | opening session since =>
      rcases exists_loop_of_stageOf (l := l) (n := n) (by simp [hs]) with ⟨r, hr, hstage⟩
      -- The first sign of life may be due at a time that the clock cannot name.
      by_cases hlt : now + l.config.heartbeat < clockLimit
      · refine .inr ⟨r, _, _, hr, .follow (hstage.trans hs), ?_⟩
        simp [step, follow, hs, hlt, moveTo, modifyLoop_eq hr, moved, told]
      · refine .inr ⟨r, _, _, hr, .overrun (hstage.trans hs) (Nat.le_of_not_lt hlt), ?_⟩
        simp [step, follow, hs, hlt, moveTo, modifyLoop_eq hr, moved, told]
  | _ => exact .inl (by simp [step, follow, hs])

theorem moves_opened {l : Link} {n since : Nat} {r : RunLoop} (now session : Nat)
    (hr : l.loops[n]? = some r) (stage : r.stage = .attempting since) :
    ∃ r' effects, Move l.config now n (.opened n session) r r' effects ∧
      l.step now (.opened n session) = (l.moved n r' effects, effects) := by
  have hs := (stageOf_of_getElem? hr).trans stage
  refine ⟨_, _, .opened session stage, ?_⟩
  simp [step, opened, hs, modifyLoop_eq hr, moved, told]

/-- A failed attempt is never without a consequence. -/
theorem moves_refused {l : Link} {n since : Nat} {r : RunLoop} (now : Nat) (e : SocketError)
    (hr : l.loops[n]? = some r) (stage : r.stage = .attempting since) :
    ∃ r' effects, Move l.config now n (.refused n e) r r' effects ∧
      l.step now (.refused n e) = (l.moved n r' effects, effects) := by
  have hs := (stageOf_of_getElem? hr).trans stage
  cases href : refusal l.config.limit r.failures e with
  | giveUp reason =>
      refine ⟨_, _, .giveUp stage href, ?_⟩
      simp [step, refused, hs, hr, href, moveTo, modifyLoop_eq hr, publish, moved, told]
  | crash =>
      refine ⟨_, _, .overcount stage href, ?_⟩
      simp [step, refused, hs, hr, href, moveTo, modifyLoop_eq hr, moved, told]
  | retry failures =>
      refine ⟨_, _, .retry stage href, ?_⟩
      simp [step, refused, hs, hr, href, modifyLoop_eq hr, publish, moved, told]

/-- A frame that is read changes nothing of the link. -/
theorem received_eq {l : Link} {n session due : Nat} {r : RunLoop} (hr : l.loops[n]? = some r)
    (stage : r.stage = .live session due) (now : Nat) (frame : String) :
    l.step now (.received n frame) = (l, match Topic.ofFrame frame with
      | .ok t => [.announce t]
      | .error _ => []) := by
  have hs := (stageOf_of_getElem? hr).trans stage
  cases ht : Topic.ofFrame frame <;> simp [step, received, hs, ht]

theorem moves_lost {l : Link} {n session due : Nat} {r : RunLoop} (hr : l.loops[n]? = some r)
    (stage : r.stage = .live session due) (now : Nat) :
    ∃ r' effects, Move l.config now n (.lost n) r r' effects ∧
      l.step now (.lost n) = (l.moved n r' effects, effects) := by
  have hs := (stageOf_of_getElem? hr).trans stage
  refine ⟨_, _, .lost stage, ?_⟩
  simp [step, lost, lose, hs, moveTo, modifyLoop_eq hr, moved, told]

/-- A sign of life that is due is sent, or the session is lost. -/
theorem moves_beat {l : Link} {now n session due : Nat} {r : RunLoop} (hr : l.loops[n]? = some r)
    (stage : r.stage = .live session due) (late : due ≤ now) (sent : Bool) :
    ∃ r' effects, Move l.config now n (.beat n sent) r r' effects ∧
      l.step now (.beat n sent) = (l.moved n r' effects, effects) := by
  have hs := (stageOf_of_getElem? hr).trans stage
  have hlate : ¬ now < due := Nat.not_lt_of_le late
  cases sent with
  | true =>
      refine ⟨_, _, .beat stage late, ?_⟩
      simp [step, beat, hs, hlate, moveTo, modifyLoop_eq hr, moved, told]
  | false =>
      refine ⟨_, _, .missed stage late, ?_⟩
      simp [step, beat, lose, hs, hlate, moveTo, modifyLoop_eq hr, moved, told]

theorem turned_resume (l : Link) (now n : Nat) : Turned l now n (.resume n) := by
  cases hs : l.stageOf n with
  | pausing due =>
      rcases exists_loop_of_stageOf (l := l) (n := n) (by simp [hs]) with ⟨r, hr, hstage⟩
      by_cases hlt : now < due
      · exact .inl (by simp [step, resume, hs, hlt])
      · refine .inr ⟨r, _, _, hr, .resume (hstage.trans hs) (Nat.le_of_not_lt hlt), ?_⟩
        simp [step, resume, hs, hlt, moveTo, modifyLoop_eq hr, publish, moved, told]
  | _ => exact .inl (by simp [step, resume, hs])

theorem turned_stop (l : Link) (now n : Nat) : Turned l now n (.stop n) := by
  cases hstop : l.isStopping n with
  | false => exact .inl (by simp [step, stop, hstop])
  | true =>
      cases hr : l.loops[n]? with
      | none => simp [isStopping, hr] at hstop
      | some r =>
          have hstopping : r.stopping = true := by simpa [isStopping, hr] using hstop
          have hs := stageOf_of_getElem? hr
          cases hstage : r.stage with
          | attempting since =>
              refine .inr ⟨r, _, _, hr, .stopAttempt hstage hstopping, ?_⟩
              simp [step, stop, hstop, hs, hstage, moveTo, modifyLoop_eq hr, publish, moved, told]
          | pausing due =>
              refine .inr ⟨r, _, _, hr, .stopPause hstage hstopping, ?_⟩
              simp [step, stop, hstop, hs, hstage, moveTo, modifyLoop_eq hr, publish, moved, told]
          | live session due =>
              refine .inr ⟨r, _, _, hr, .stopSession hstage hstopping, ?_⟩
              simp [step, stop, hstop, hs, hstage, moveTo, modifyLoop_eq hr, moved, told]
          -- A loop that waits for nothing does not notice.
          | _ => exact .inl (by simp [step, stop, hstop, hs, hstage])

/-! ## Calls of the owner -/

/-- What a call of the owner can do, and the status that is published with it. -/
inductive Call (l : Link) : Event → Link → Option LinkStatus → Prop where
  /-- There is no way to open a socket at the address. -/
  | refuse (dropped : l.dropped = false) (idle : l.running = none)
      (unfinished : l.status.isFinal = false) (reason : String) :
      Call l .connect { l with status := .failed reason } (some (.failed reason))
  | spawn (dropped : l.dropped = false) (idle : l.running = none)
      (unfinished : l.status.isFinal = false) :
      Call l .connect { l with loops := l.loops ++ [.fresh], running := some l.loops.length } none
  | disposeIdle (dropped : l.dropped = false) (idle : l.running = none) :
      Call l .dispose { l with status := .disposed } (some .disposed)
  | ask {n : Nat} (dropped : l.dropped = false) (running : l.running = some n) :
      Call l .dispose { l.modifyLoop n (fun r => { r with stopping := true }) with
        running := none, disposing := l.disposing ++ [n] } none
  | disposed {n : Nat} (asked : n ∈ l.disposing) (done : (l.stageOf n).isDone = true) :
      Call l (.disposed n) { l with disposing := l.disposing.erase n, status := .disposed }
        (some .disposed)
  | dropIdle (idle : l.running = none) : Call l .drop { l with dropped := true, running := none } none
  | dropRunning {n : Nat} (running : l.running = some n) :
      Call l .drop (Link.modifyLoop { l with dropped := true, running := none } n
        fun r => { r with stopping := true }) none

/-- The owner calls `c`, and it does something or nothing. -/
def Called (l : Link) (now : Nat) (c : Event) : Prop :=
  l.step now c = (l, []) ∨
    ∃ l' st, Call l c l' st ∧ l.step now c = (l', st.toList.map Effect.publish)

theorem called_connect (l : Link) (now : Nat) : Called l now .connect := by
  by_cases hno : l.dropped = true ∨ l.running.isSome = true ∨ l.status.isFinal = true
  · exact .inl (by simp [step, connect, hno])
  · simp only [not_or, Bool.not_eq_true, Option.isSome_eq_false_iff, Option.isNone_iff_eq_none] at hno
    -- There is nothing that keeps a loop from being started but the address.
    rcases hno with ⟨hdropped, hidle, hopen⟩
    by_cases hscheme : isSocketScheme l.scheme = true
    · refine .inr ⟨_, _, .spawn hdropped hidle hopen, ?_⟩
      simp [step, connect, hdropped, hidle, hopen, hscheme]
    · refine .inr ⟨_, _, .refuse hdropped hidle hopen
        (SocketError.unsupportedScheme l.scheme).message, ?_⟩
      simp [step, connect, hdropped, hidle, hopen, hscheme, publish]

/-- A call of `dispose` is never without a consequence, unless nobody holds the link. -/
theorem calls_dispose {l : Link} (dropped : l.dropped = false) (now : Nat) :
    ∃ l' st, Call l .dispose l' st ∧
      l.step now .dispose = (l', st.toList.map Effect.publish) := by
  cases hr : l.running with
  | none =>
      refine ⟨_, _, .disposeIdle dropped hr, ?_⟩
      simp [step, dispose, dropped, hr, publish]
  | some n => exact ⟨_, _, .ask dropped hr, by simp [step, dispose, dropped, hr]⟩

theorem called_dispose (l : Link) (now : Nat) : Called l now .dispose := by
  cases hdropped : l.dropped with
  | true => exact .inl (by simp [step, dispose, hdropped])
  | false => exact .inr (calls_dispose hdropped now)

theorem called_disposed (l : Link) (now n : Nat) : Called l now (.disposed n) := by
  by_cases h : n ∈ l.disposing ∧ (l.stageOf n).isDone = true
  · exact .inr ⟨_, _, .disposed h.1 h.2, by simp [step, disposed, h, publish]⟩
  · exact .inl (by simp [step, disposed, h])

theorem called_drop (l : Link) (now : Nat) : Called l now .drop := by
  cases hr : l.running with
  | none => exact .inr ⟨_, _, .dropIdle hr, by simp [step, drop, hr]⟩
  | some n => exact .inr ⟨_, _, .dropRunning hr, by simp [step, drop, hr]⟩

end Link

end LiveFeed
