import LiveFeed.Proofs.Lifecycle

/-!
# The end of a link

A call of `dispose` gives up its hold on the run loop before it waits for it, so a call that comes
in between finds no loop running.  Another `dispose` then returns at once, with the loop still alive,
and a `connect` starts a second loop that nobody waits for.

* `Link.Attended`: in every run, who a run loop that is alive belongs to;
* `Link.Closing`: a link that was disposed of, and whatever of it is left is waited for;
* `System.disposal_final`: when nothing comes any more of a link that was disposed of;
* `System.not_finished_connectedMeanwhile`: a run in which much does.
-/

namespace LiveFeed

variable {ρ ν : Type}

namespace Link

/-- A run loop has something left to do. -/
def Alive (l : Link) (n : Nat) : Prop :=
  (l.stageOf n).isDone = false

/-- A loop that is alive is the running one or is waited for, until the link is let go of. -/
def Attended (l : Link) : Prop :=
  l.dropped = false → ∀ n, l.Alive n → l.running = some n ∨ n ∈ l.disposing

/-- A link that was disposed of: every loop that is alive is waited for, and when none is waited for
the status is the last one. -/
structure Closing (l : Link) : Prop where
  idle : l.running = none
  waited : ∀ n, l.Alive n → n ∈ l.disposing
  status : l.disposing = [] → l.status = .disposed

theorem Alive.ne_of_isDone {l : Link} {m n : Nat} (h : l.Alive n)
    (done : (l.stageOf m).isDone = true) : n ≠ m := by
  rintro rfl
  simp [Alive, done] at h

theorem not_alive_create (config : LinkConfig) (scheme : String) (n : Nat) :
    ¬ (create config scheme).Alive n := by
  simp [Alive, create, stageOf, Stage.isDone]

/-- A link without a loop that is alive has only loops that are done. -/
theorem isDone_of_not_alive {l : Link} (h : ∀ n, ¬ l.Alive n) :
    ∀ r ∈ l.loops, r.stage.isDone = true := by
  intro r hr
  rcases List.mem_iff_getElem?.1 hr with ⟨n, hn⟩
  have hnot := h n
  simpa [Alive, stageOf_of_getElem? hn] using hnot

/-- A loop that is done holds no session. -/
theorem Holds.alive {l : Link} {session : Nat} (h : l.Holds session) : ∃ n, l.Alive n := by
  rcases h with ⟨n, hn⟩
  refine ⟨n, ?_⟩
  unfold Alive
  cases hstage : l.stageOf n <;> simp [hstage, Stage.session?, Stage.isDone] at hn ⊢

/-! ## What keeps a loop alive -/

/-- A loop that is alive after a move was alive before. -/
theorem alive_of_moved {l : Link} {n : Nat} {r : RunLoop} (hr : l.loops[n]? = some r)
    (hnot : r.stage.isDone = false) {r' : RunLoop} {effects : List Effect} {m : Nat}
    (h : (l.moved n r' effects).Alive m) : l.Alive m := by
  by_cases hm : m = n
  · simpa [Alive, hm, stageOf_of_getElem? hr] using hnot
  · simpa [Alive, stageOf_moved hr, hm] using h

/-- A loop that is asked to stop is as alive as it was. -/
theorem alive_asked (l : Link) (m n : Nat) :
    (l.modifyLoop m fun r => { r with stopping := true }).Alive n ↔ l.Alive n := by
  have hstage := l.stageOf_modifyLoop m n (f := fun r => { r with stopping := true }) fun _ => rfl
  simp [Alive, hstage]

/-- A call starts no loop but the one that is then running. -/
theorem Call.alive {l l' : Link} {c : Event} {st : Option LinkStatus} (h : Call l c l' st) {n : Nat}
    (hn : l'.Alive n) : l.Alive n ∨ c = .connect ∧ l'.running = some n := by
  cases h with
  | spawn dropped idle unfinished =>
      rcases Nat.lt_trichotomy n l.loops.length with hlt | heq | hgt
      · left
        simpa [Alive, stageOf, List.getElem?_append_left hlt] using hn
      · right
        simp [heq]
      · -- There is no such loop.
        have hnone : (l.loops ++ [RunLoop.fresh])[n]? = none :=
          List.getElem?_eq_none (by simpa [Nat.succ_le_iff] using hgt)
        simp [Alive, stageOf, hnone, Stage.isDone] at hn
  | @ask m => exact .inl ((l.alive_asked m n).1 hn)
  | @dropRunning m => exact .inl ((l.alive_asked m n).1 hn)
  | _ => exact .inl hn

/-! ## Loops and those who wait for them -/

theorem attended_create (config : LinkConfig) (scheme : String) :
    (create config scheme).Attended := by
  intro _ n hn
  exact absurd hn (not_alive_create config scheme n)

theorem Attended.moved {l : Link} (h : l.Attended) {n : Nat} {r r' : RunLoop}
    {effects : List Effect} (hr : l.loops[n]? = some r) (hnot : r.stage.isDone = false) :
    (l.moved n r' effects).Attended := by
  intro hdropped m hm
  exact h hdropped m (alive_of_moved hr hnot hm)

theorem Attended.call {l l' : Link} (h : l.Attended) {c : Event} {st : Option LinkStatus}
    (hcall : Call l c l' st) : l'.Attended := by
  intro hdropped n hn
  rcases hcall.alive hn with halive | ⟨-, hrunning⟩
  · cases hcall with
    | refuse => exact h hdropped n halive
    | spawn _ idle _ =>
        -- Those that were there are waited for, because none of them was running.
        have hattended := h hdropped n halive
        simp only [idle, reduceCtorEq, false_or] at hattended
        exact .inr hattended
    | disposeIdle => exact h hdropped n halive
    | @ask m _ running =>
        right
        rcases h hdropped n halive with hrunning | hwaited
        · obtain rfl : m = n := Option.some.inj (running.symm.trans hrunning)
          exact List.mem_append_right _ (List.mem_singleton_self m)
        · exact List.mem_append_left _ hwaited
    | @disposed m asked done =>
        rcases h hdropped n halive with hrunning | hwaited
        · exact .inl hrunning
        · -- The loop that is waited for no more is done, so it is another one.
          exact .inr ((List.mem_erase_of_ne (halive.ne_of_isDone done)).2 hwaited)
    | dropIdle => cases hdropped
    | dropRunning => cases hdropped
  · exact .inl hrunning

/-! ## After a call of `dispose` -/

theorem Attended.closing {l l' : Link} (h : l.Attended) {st : Option LinkStatus}
    (hcall : Call l .dispose l' st) : l'.Closing := by
  have hattended := h.call hcall
  cases hcall with
  | disposeIdle dropped idle =>
      refine ⟨idle, ?_, fun _ => rfl⟩
      intro n hn
      simpa [idle] using hattended dropped n hn
  | ask dropped running =>
      refine ⟨rfl, ?_, ?_⟩
      · intro n hn
        simpa using hattended dropped n hn
      · intro hnil
        simp at hnil

theorem Closing.moved {l : Link} (h : l.Closing) {n : Nat} {r r' : RunLoop} {effects : List Effect}
    (hr : l.loops[n]? = some r) (hnot : r.stage.isDone = false) :
    (l.moved n r' effects).Closing := by
  refine ⟨h.idle, fun m hm => h.waited m (alive_of_moved hr hnot hm), ?_⟩
  intro hnil
  -- The loop that moves is waited for.
  have hwaited : n ∈ l.disposing := h.waited n (by simpa [Alive, stageOf_of_getElem? hr] using hnot)
  rw [show l.disposing = [] from hnil] at hwaited
  cases hwaited

/-- What a call keeps of a link that was disposed of, unless it is one of `connect` while somebody
waits. -/
theorem Closing.call {l l' : Link} (h : l.Closing) {c : Event} {st : Option LinkStatus}
    (hcall : Call l c l' st) (hconnect : c = .connect → l.disposing = []) : l'.Closing := by
  have hfinal : l.disposing = [] → l.status.isFinal = true := fun hnil => by rw [h.status hnil]; rfl
  cases hcall with
  | refuse _ _ unfinished => simp [hfinal (hconnect rfl)] at unfinished
  | spawn _ _ unfinished => simp [hfinal (hconnect rfl)] at unfinished
  | disposeIdle => exact ⟨h.idle, h.waited, fun _ => rfl⟩
  | ask _ running => simp [h.idle] at running
  | @disposed m asked done =>
      refine ⟨h.idle, ?_, fun _ => rfl⟩
      intro n hn
      have halive : l.Alive n := hn
      exact (List.mem_erase_of_ne (halive.ne_of_isDone done)).2 (h.waited n halive)
  | dropIdle => exact ⟨rfl, h.waited, h.status⟩
  | dropRunning running => simp [h.idle] at running

theorem Closing.isDone {l : Link} (h : l.Closing) (hnil : l.disposing = []) :
    ∀ r ∈ l.loops, r.stage.isDone = true := by
  refine isDone_of_not_alive fun n hn => ?_
  have hwaited := h.waited n hn
  simp [hnil] at hwaited

/-- Nobody begins to wait for a link that was disposed of. -/
theorem Closing.disposing_call {l l' : Link} (h : l.Closing) {c : Event} {st : Option LinkStatus}
    (hcall : Call l c l' st) (hnil : l.disposing = []) : l'.disposing = [] := by
  cases hcall with
  | ask _ running => simp [h.idle] at running
  | disposed => simp [hnil]
  | _ => exact hnil

end Link

namespace System

variable {s s' : System ρ ν} {events : List (Event ρ ν)}

theorem Change.attended {e : Event ρ ν} (h : Change s e s') (hs : s.link.Attended) :
    s'.link.Attended := by
  rcases h.link_cases with hsame | ⟨c, st, -, hcall⟩ | ⟨c, n, r, r', effects, hr, hmove, hmoved⟩
  · simpa [hsame] using hs
  · exact hs.call hcall
  · simpa [hmoved] using hs.moved hr hmove.not_done

theorem Change.closing {e : Event ρ ν} (h : Change s e s') (hs : s.link.Closing)
    (hconnect : e = .connect → s.link.disposing = []) : s'.link.Closing := by
  rcases h.link_cases with hsame | ⟨c, st, hasks, hcall⟩ | ⟨c, n, r, r', effects, hr, hmove, hmoved⟩
  · simpa [hsame] using hs
  · refine hs.call hcall ?_
    rintro rfl
    exact hconnect (Event.asks_eq_connect hasks)
  · simpa [hmoved] using hs.moved hr hmove.not_done

theorem attended_after (config : LinkConfig) (scheme : String) (n : Nat) :
    ((create config scheme : System ρ ν).after events n).link.Attended := by
  refine after_induction (motive := fun s => s.link.Attended) (Nat.zero_le n) ?_ ?_
  · exact Link.attended_create config scheme
  · intro k e _ _ _ hattended
    exact (change_step _ e).attended hattended

variable (s events)

/-- Event `j` of a run is a call of `dispose`, and at point `m` nobody waits for a run loop any
more, so that this call has returned like all the others. -/
structure Returned (j m : Nat) : Prop where
  call : events[j]? = some .dispose
  held : (s.after events j).link.dropped = false
  later : j < m
  none_waits : (s.after events m).link.disposing = []

/-- Between event `j` of a run and point `m` nobody calls `connect` while a `dispose` waits. -/
def Unconnected (j m : Nat) : Prop :=
  ∀ k, j < k → k < m → events[k]? = some .connect → (s.after events k).link.disposing = []

/-- At point `n` of a run the link is disposed of and no run loop is alive; since point `m` no
attempt was made and nothing was sent, and the link calls nothing. -/
structure Finished (m n : Nat) : Prop where
  status : (s.after events n).link.status = .disposed
  loops : ∀ r ∈ (s.after events n).link.loops, r.stage.isDone = true
  attempts : (s.after events n).attempts = (s.after events m).attempts
  sent : (s.after events n).sessions.map (·.sent) = (s.after events m).sessions.map (·.sent)
  silent : ¬ s.Announcing events n

variable {s events}

theorem Returned.closing {j m : Nat} (h : s.Returned events j m)
    (hunconnected : s.Unconnected events j m) (hattended : (s.after events j).link.Attended) :
    (s.after events m).link.Closing := by
  have hcalled : (s.after events (j + 1)).link.Closing := by
    rcases Link.calls_dispose h.held (s.after events j).now with ⟨l, st, hcall, heq⟩
    rw [s.after_succ h.call, step, link_turn, heq]
    exact hattended.closing hcall
  refine after_induction (motive := fun s => s.link.Closing) h.later hcalled ?_
  intro k e hjk hkm he hclosing
  refine (change_step _ e).closing hclosing ?_
  rintro rfl
  exact hunconnected k hjk hkm he

/-- A link that was disposed of, and that nobody waits for, is left as it is by whatever happens. -/
theorem Change.finished {e : Event ρ ν} (h : Change s e s') (hs : s.link.Closing)
    (hnil : s.link.disposing = []) :
    s'.link.Closing ∧ s'.link.disposing = [] ∧ s'.attempts = s.attempts ∧
      s'.sessions.map (·.sent) = s.sessions.map (·.sent) := by
  rcases h.still (hs.isDone hnil) with ⟨hattempts, hsent, hlink⟩
  refine ⟨h.closing hs fun _ => hnil, ?_, hattempts, hsent⟩
  rcases hlink with hsame | ⟨c, st, hcall⟩
  · simpa [hsame] using hnil
  · exact hs.disposing_call hcall hnil

theorem finished_of_closing {m n : Nat} (hclosing : (s.after events m).link.Closing)
    (hnil : (s.after events m).link.disposing = []) (hmn : m ≤ n) : s.Finished events m n := by
  have hkept : (s.after events n).link.Closing ∧ (s.after events n).link.disposing = [] ∧
      (s.after events n).attempts = (s.after events m).attempts ∧
      (s.after events n).sessions.map (·.sent) = (s.after events m).sessions.map (·.sent) := by
    refine after_induction (motive := fun s' => s'.link.Closing ∧ s'.link.disposing = [] ∧
      s'.attempts = (s.after events m).attempts ∧
      s'.sessions.map (·.sent) = (s.after events m).sessions.map (·.sent)) hmn
      ⟨hclosing, hnil, rfl, rfl⟩ ?_
    rintro k e - - - ⟨hclosing', hnil', hattempts, hsent⟩
    rcases (change_step _ e).finished hclosing' hnil' with ⟨hclosing'', hnil'', hattempts', hsent'⟩
    exact ⟨hclosing'', hnil'', hattempts'.trans hattempts, hsent'.trans hsent⟩
  rcases hkept with ⟨hclosing', hnil', hattempts, hsent⟩
  refine ⟨hclosing'.status hnil', hclosing'.isDone hnil', hattempts, hsent, ?_⟩
  intro hannouncing
  -- What the link makes the hub call, it does with a session, and a loop that is alive holds it.
  rcases holds_of_announcing hannouncing with ⟨session, hholds⟩
  rcases hholds.alive with ⟨loop, halive⟩
  have hwaited := hclosing'.waited loop halive
  simp [hnil'] at hwaited

/-- When a call of `dispose` has returned and no other one waits, and `connect` was not called while
one waited, then nothing comes of the link any more, whatever is called and whatever happens. -/
theorem disposal_final (config : LinkConfig) (scheme : String) (events : List (Event ρ ν))
    {j m n : Nat} (hreturned : (create config scheme : System ρ ν).Returned events j m)
    (hunconnected : (create config scheme : System ρ ν).Unconnected events j m) (hmn : m ≤ n) :
    (create config scheme : System ρ ν).Finished events m n := by
  have hclosing := hreturned.closing hunconnected (attended_after config scheme j)
  exact finished_of_closing hclosing hreturned.none_waits hmn

/-- A link that follows a session, is disposed of twice at the same time, and then connected. -/
def disposedTwice : List (Event Unit Nat) :=
  [.connect, .start 0, .grant 0, .hub .finish, .follow 0, .dispose, .dispose, .stop 0, .disposed 0,
    .connect, .dispose, .start 1, .pass 10000]

theorem disposal_final_disposedTwice :
    (create .default "ws" : System Unit Nat).Returned disposedTwice 5 9 ∧
      (create .default "ws" : System Unit Nat).Unconnected disposedTwice 5 9 ∧
      (create .default "ws" : System Unit Nat).Finished disposedTwice 9 13 := by
  have hreturned : (create .default "ws" : System Unit Nat).Returned disposedTwice 5 9 :=
    ⟨rfl, by cbv, by decide, by cbv⟩
  have hunconnected : (create .default "ws" : System Unit Nat).Unconnected disposedTwice 5 9 := by
    intro k hk hk' he
    interval_cases k <;> simp [disposedTwice] at he
  exact ⟨hreturned, hunconnected,
    disposal_final .default "ws" disposedTwice hreturned hunconnected (by decide)⟩

/-- A link that is connected while a call of `dispose` waits for its run loop. -/
def connectedMeanwhile : List (Event Unit Nat) :=
  [.connect, .start 0, .dispose, .connect, .stop 0, .disposed 0, .start 1, .grant 1, .hub .finish,
    .follow 1, .pass 10000, .beat 1]

/-- A call of `connect` that comes while a `dispose` waits starts a second run loop.  The link is
disposed of when that `dispose` returns, and yet an attempt is made later, the link is connected,
and a frame is sent. -/
theorem not_finished_connectedMeanwhile :
    (create .default "ws" : System Unit Nat).Returned connectedMeanwhile 2 6 ∧
      ((create .default "ws" : System Unit Nat).after connectedMeanwhile 6).link.status = .disposed ∧
      ¬ (create .default "ws" : System Unit Nat).Finished connectedMeanwhile 6 12 ∧
      ((create .default "ws" : System Unit Nat).run connectedMeanwhile).link.status = .connected ∧
      ((create .default "ws" : System Unit Nat).run connectedMeanwhile).attempts = 1 ∧
      ((create .default "ws" : System Unit Nat).run connectedMeanwhile).sessions.map (·.sent) =
        [[(10000, Link.heartbeatFrame)]] := by
  have hconnected :
      ((create .default "ws" : System Unit Nat).after connectedMeanwhile 12).link.status =
        .connected := by
    cbv
  refine ⟨⟨rfl, by cbv, by decide, by cbv⟩, by cbv, ?_, by cbv, by cbv, by cbv⟩
  intro hfinished
  cases hconnected.symm.trans hfinished.status

/-- A second `dispose` does not wait: it returns while the run loop is alive, and that one may still
connect. -/
example :
    let events : List (Event Unit Nat) := [.connect, .start 0, .dispose, .dispose, .grant 0]
    let s : System Unit Nat := create .default "ws"
    (s.after events 3).link.running = none ∧ (s.after events 4).link.status = .disposed ∧
      (s.after events 5).link.status = .connected := by
  cbv

end System

end LiveFeed
