import Mathlib
import LiveFeed.Proofs.OrderlyLink
import LiveFeed.Proofs.SystemSteps

/-!
# The life of a link

Calls of `connect` and `dispose` may come at any time, but none while a `dispose` waits for the run
loop.  Then the statuses that are published follow each other as they may, there is one run loop and one
session at most, and after the end nothing comes any more.

* `System.Sequential`: the runs in question;
* `System.Kept`, `System.kept_after`: what holds at every point of such a run;
* `System.lifecycle`: what that means to the owner and to the service.
-/

namespace LiveFeed

variable {ρ ν : Type}

namespace System

variable (s : System ρ ν) (events : List (Event ρ ν))

/-- No call of `connect` or `dispose` comes while another `dispose` waits for a run loop. -/
def Sequential : Prop :=
  ∀ n, events[n]? = some .connect ∨ events[n]? = some .dispose →
    (s.after events n).link.disposing = []

/-- With event `n` of a run `connect` starts a run loop, or refuses to. -/
def Connects (n : Nat) : Prop :=
  events[n]? = some .connect ∧ (s.after events (n + 1)).link ≠ (s.after events n).link

/-- At point `n` of a run a fan-out is in progress that the link began. -/
def Announcing (n : Nat) : Prop :=
  ∃ m e, m < n ∧ events[m]? = some e ∧ (∀ e', e ≠ .hub e') ∧
    (s.after events (m + 1)).hub ≠ (s.after events m).hub ∧
    ∀ k, m < k → k ≤ n → (s.after events k).hub.fanOuts ≠ []

/-- The statuses that the link ever had, newest first. -/
def statuses : List LinkStatus :=
  s.published ++ [.idle]

/-- What holds of a system whose owner calls it in order: its link is orderly, the statuses that were
published follow each other as they may, and a session is held by the run loop only. -/
structure Kept (s : System ρ ν) : Prop where
  orderly : s.link.Orderly
  newest : s.statuses.head? = some s.link.status
  chain : s.statuses.IsChain fun next status => status.leadsTo next = true
  held : ∀ k x, s.sessions[k]? = some x → x.held = true → s.link.Holds k

variable {s events}

theorem kept_create (config : LinkConfig) (scheme : String) :
    (create config scheme : System ρ ν).Kept := by
  refine ⟨Link.orderly_create config scheme, rfl, List.isChain_singleton _, ?_⟩
  intro k x hx
  simp [create] at hx

/-- A status that is published goes before those that were. -/
theorem Kept.publish (h : s.Kept) {s' : System ρ ν} {st : Option LinkStatus}
    (hpublished : s'.published = st.toList ++ s.published)
    (hnext : ∀ next ∈ st, s.link.status.leadsTo next = true) :
    s'.statuses.head? = some (st.getD s.link.status) ∧
      s'.statuses.IsChain fun next status => status.leadsTo next = true := by
  rw [statuses, hpublished]
  cases st with
  | none => exact ⟨h.newest, h.chain⟩
  | some next =>
      -- The status before it is the one that the link has.
      refine ⟨rfl, List.isChain_cons.2 ⟨?_, h.chain⟩⟩
      intro status hstatus
      obtain rfl : s.link.status = status := Option.some.inj (h.newest.symm.trans hstatus)
      exact hnext next rfl

/-- What becomes of a system when its only loop moves. -/
theorem Kept.moved (h : s.Kept) {s' : System ρ ν} {c : Link.Event} {n : Nat} {r r' : RunLoop}
    {effects : List Link.Effect} (hr : s.link.loops[n]? = some r)
    (hmove : Link.Move s.link.config s.now n c r r' effects)
    (hlink : s'.link = s.link.moved n r' effects)
    (hpublished : s'.published = (Link.told effects).toList ++ s.published)
    (hheld : ∀ k x, s'.sessions[k]? = some x → x.held = true → r'.stage.session? = some k) :
    s'.Kept := by
  rcases Link.orderly_moved h.orderly hr hmove with ⟨hs, htold⟩
  rcases h.publish hpublished htold with ⟨hnewest, hchain⟩
  refine ⟨?_, ?_, hchain, ?_⟩
  · rw [hlink]
    exact .inr ⟨r', hs⟩
  · rw [hlink]
    exact hnewest
  · intro k x hx hxheld
    rw [hlink]
    exact hs.holds_iff.2 (hheld k x hx hxheld)

/-- A session that is held is the one of the loop. -/
theorem Kept.session_of_held (h : s.Kept) {n k : Nat} {r : RunLoop} {x : Session}
    (hr : s.link.loops[n]? = some r) (hx : s.sessions[k]? = some x) (hheld : x.held = true) :
    r.stage.session? = some k :=
  (h.orderly.started hr).2.holds_iff.1 (h.held k x hx hheld)

/-- A change that lets a session be held if it was held before. -/
theorem held_of_modify {sessions : List Session} {k m : Nat} {f : Session → Session} {x : Session}
    (hf : ∀ y : Session, (f y).held = true → y.held = true)
    (hx : (sessions.modify m f)[k]? = some x) (hheld : x.held = true) :
    ∃ y, sessions[k]? = some y ∧ y.held = true := by
  by_cases hm : m = k
  · subst hm
    rw [List.getElem?_modify_eq] at hx
    rcases Option.map_eq_some_iff.1 hx with ⟨y, hy, rfl⟩
    exact ⟨y, hy, hf y hheld⟩
  · rw [List.getElem?_modify_ne _ _ hm] at hx
    exact ⟨x, hx, hheld⟩

/-- The sessions may change, as long as no session is held that was not. -/
theorem Kept.sessions (h : s.Kept) {s' : System ρ ν} (hlink : s'.link = s.link)
    (hpublished : s'.published = s.published)
    (hheld : ∀ (k : Nat) (x : Session), s'.sessions[k]? = some x → x.held = true →
      ∃ y : Session, s.sessions[k]? = some y ∧ y.held = true) : s'.Kept := by
  refine ⟨?_, ?_, ?_, ?_⟩
  · rw [hlink]
    exact h.orderly
  · rw [statuses, hpublished, hlink]
    exact h.newest
  · rw [statuses, hpublished]
    exact h.chain
  · intro k x hx hxheld
    rcases hheld k x hx hxheld with ⟨y, hy, hyheld⟩
    rw [hlink]
    exact h.held k y hy hyheld

theorem Kept.call (h : s.Kept) {c : Link.Event} {l : Link} {st : Option LinkStatus}
    (hcall : s.link.Call c l st) (hseq : c = .connect ∨ c = .dispose → s.link.disposing = []) :
    Kept { s with link := l, published := st.toList ++ s.published } := by
  rcases Link.orderly_call h.orderly hcall hseq with ⟨horderly, htold⟩
  refine ⟨horderly, ?_, ?_, ?_⟩
  · rw [hcall.status_eq]
    exact (h.publish rfl htold).1
  · exact (h.publish rfl htold).2
  · intro k x hx hxheld
    exact hcall.holds (h.held k x hx hxheld)

/-- What holds of a system is kept by every event that comes in order. -/
theorem Kept.step (h : s.Kept) {s' : System ρ ν} {e : Event ρ ν} (hchange : Change s e s')
    (hseq : e = .connect ∨ e = .dispose → s.link.disposing = []) : s'.Kept := by
  cases hchange with
  | stay => exact h
  | hub e => exact ⟨h.orderly, h.newest, h.chain, h.held⟩
  | call asks call =>
      refine h.call call ?_
      rintro (rfl | rfl)
      · exact hseq (.inl (Event.asks_eq_connect asks))
      · exact hseq (.inr (Event.asks_eq_dispose asks))
  | shift idle loop move before after counted =>
      refine h.moved loop move rfl rfl ?_
      intro k x hx hxheld
      have hsession := h.session_of_held loop hx hxheld
      rw [before] at hsession
      cases hsession
  | opens idle loop stage =>
      refine h.moved loop (.opened _ stage) rfl rfl ?_
      intro k x hx hxheld
      rcases Nat.lt_or_ge k s.sessions.length with hlt | hge
      · -- The loop holds none of the sessions there were.
        rw [List.getElem?_append_left hlt] at hx
        have hsession := h.session_of_held loop hx hxheld
        rw [stage] at hsession
        cases hsession
      · have hlt := (List.getElem?_eq_some_iff.1 hx).1
        rw [List.length_append] at hlt
        obtain rfl : k = s.sessions.length := Nat.le_antisymm (Nat.le_of_lt_succ hlt) hge
        rfl
  | follows idle loop stage =>
      refine h.moved loop (.follow stage) rfl rfl ?_
      intro k x hx hxheld
      have hsession := h.session_of_held loop hx hxheld
      rw [stage] at hsession
      exact hsession
  | hears idle loop stage found inbound topic =>
      refine h.sessions rfl rfl ?_
      intro k x hx hxheld
      refine held_of_modify ?_ hx hxheld
      intro y hy
      exact hy
  | skips idle loop stage found inbound malformed =>
      refine h.sessions rfl rfl ?_
      intro k x hx hxheld
      refine held_of_modify ?_ hx hxheld
      intro y hy
      exact hy
  | beats idle loop stage late =>
      refine h.moved loop (.beat stage late) rfl rfl ?_
      intro k x hx hxheld
      rcases held_of_modify (fun y hy => held_send y _ _ ▸ hy) hx hxheld with ⟨y, hy, hyheld⟩
      have hsession := h.session_of_held loop hy hyheld
      rw [stage] at hsession
      exact hsession
  | @leaves _ _ _ session _ _ _ _ idle loop move before after releases =>
      refine h.moved loop move rfl rfl ?_
      intro k x hx hxheld
      by_cases hk : session = k
      · -- This one was let go of.
        subst hk
        rw [List.getElem?_modify_eq] at hx
        rcases Option.map_eq_some_iff.1 hx with ⟨y, hy, rfl⟩
        rw [(releases y hy).held] at hxheld
        cases hxheld
      · rw [List.getElem?_modify_ne _ _ hk] at hx
        have hsession := h.session_of_held loop hx hxheld
        rw [before] at hsession
        exact absurd (Option.some.inj hsession) hk
  | serves session serves =>
      refine h.sessions rfl rfl ?_
      intro k x hx hxheld
      exact held_of_modify (fun y hy => serves.held y ▸ hy) hx hxheld
  | pass time => exact ⟨h.orderly, h.newest, h.chain, h.held⟩

theorem kept_after (hs : s.Kept) (hseq : s.Sequential events) (n : Nat) : (s.after events n).Kept := by
  refine after_induction (motive := Kept) (Nat.zero_le n) hs ?_
  intro k e _ _ he hkept
  refine hkept.step (change_step _ e) ?_
  rintro (rfl | rfl)
  · exact hseq k (.inl he)
  · exact hseq k (.inr he)

/-! ## After the end -/

/-- While no run loop has anything left to do, no attempt is made and nothing is sent, and only a call
changes the link. -/
theorem Change.still {s s' : System ρ ν} {e : Event ρ ν} (h : Change s e s')
    (hdone : ∀ r ∈ s.link.loops, r.stage.isDone = true) :
    s'.attempts = s.attempts ∧ s'.sessions.map (·.sent) = s.sessions.map (·.sent) ∧
      (s'.link = s.link ∨ ∃ c st, s.link.Call c s'.link st) := by
  -- A loop that takes a turn is not done.
  have hbusy : ∀ {n : Nat} {r : RunLoop}, s.link.loops[n]? = some r →
      r.stage.isDone = false → False := by
    intro n r hr hnot
    have hisDone := hdone r (List.mem_of_getElem? hr)
    rw [hnot] at hisDone
    cases hisDone
  cases h with
  | stay => exact ⟨rfl, rfl, .inl rfl⟩
  | hub e => exact ⟨rfl, rfl, .inl rfl⟩
  | call asks call => exact ⟨rfl, rfl, .inr ⟨_, _, call⟩⟩
  | shift idle loop move before after counted => exact (hbusy loop move.not_done).elim
  | opens idle loop stage => exact (hbusy loop (by rw [stage]; rfl)).elim
  | follows idle loop stage => exact (hbusy loop (by rw [stage]; rfl)).elim
  | hears idle loop stage found inbound topic => exact (hbusy loop (by rw [stage]; rfl)).elim
  | skips idle loop stage found inbound malformed => exact (hbusy loop (by rw [stage]; rfl)).elim
  | beats idle loop stage late => exact (hbusy loop (by rw [stage]; rfl)).elim
  | leaves idle loop move before after releases => exact (hbusy loop move.not_done).elim
  | serves session serves => exact ⟨rfl, map_modify_eq serves.sent _ _, .inl rfl⟩
  | pass time => exact ⟨rfl, rfl, .inl rfl⟩

/-- When the status is final, whatever happens leaves it final, no attempt is made and nothing is
sent. -/
theorem Kept.quiet (h : s.Kept) {s' : System ρ ν} {e : Event ρ ν} (hchange : Change s e s')
    (hfinal : s.link.status.isFinal = true) :
    s'.link.status.isFinal = true ∧ s'.attempts = s.attempts ∧
      s'.sessions.map (·.sent) = s.sessions.map (·.sent) := by
  rcases hchange.still (h.orderly.isDone hfinal) with ⟨hattempts, hsent, hlink⟩
  refine ⟨?_, hattempts, hsent⟩
  rcases hlink with hsame | ⟨c, st, hcall⟩
  · rw [hsame]
    exact hfinal
  · exact hcall.isFinal hfinal

theorem quiet_after (hs : s.Kept) (hseq : s.Sequential events) {m n : Nat} (hmn : m ≤ n)
    (hfinal : (s.after events m).link.status.isFinal = true) :
    (s.after events n).link.status.isFinal = true ∧
      (s.after events n).attempts = (s.after events m).attempts ∧
      (s.after events n).sessions.map (·.sent) = (s.after events m).sessions.map (·.sent) := by
  refine after_induction (motive := fun s' => s'.link.status.isFinal = true ∧
    s'.attempts = (s.after events m).attempts ∧
    s'.sessions.map (·.sent) = (s.after events m).sessions.map (·.sent)) hmn ⟨hfinal, rfl, rfl⟩ ?_
  rintro k e - - - ⟨hfinal', hattempts, hsent⟩
  rcases (kept_after hs hseq k).quiet (change_step _ e) hfinal' with ⟨hfinal'', hattempts', hsent'⟩
  exact ⟨hfinal'', hattempts'.trans hattempts, hsent'.trans hsent⟩

/-! ## Further calls of `connect` -/

theorem Change.begun {s s' : System ρ ν} {e : Event ρ ν} (h : Change s e s')
    (hbegun : s.link.Begun) : s'.link.Begun := by
  rcases h.link_cases with hsame | ⟨c, st, -, hcall⟩ | ⟨c, n, r, r', effects, hr, -, hmoved⟩
  · rw [hsame]
    exact hbegun
  · exact hcall.begun hbegun
  · -- There is a loop that moved, and it is still there.
    have hlt := (List.getElem?_eq_some_iff.1 hr).1
    have hlength : s'.link.loops.length = s.link.loops.length := by simp [hmoved, Link.moved]
    exact .inl (List.ne_nil_of_length_pos (by omega))

theorem begun_after {m n : Nat} (hmn : m ≤ n) (hbegun : (s.after events m).link.Begun) :
    (s.after events n).link.Begun :=
  after_induction (motive := fun s => s.link.Begun) hmn hbegun fun _ e _ _ _ hk =>
    (change_step _ e).begun hk

theorem after_connect (hs : s.Kept) (hseq : s.Sequential events) {m n : Nat} (hmn : m < n)
    (hconnects : s.Connects events m) (he : events[n]? = some .connect) :
    s.after events (n + 1) = s.after events n := by
  -- The first call left a run loop behind or a final status, and either is there to stay.
  have hbegun : (s.after events (m + 1)).link.Begun := by
    have hne := hconnects.2
    rw [s.after_succ hconnects.1, step, link_turn] at hne ⊢
    exact Link.begun_of_connect hne
  rw [s.after_succ he, step]
  exact turn_eq_self ((kept_after hs hseq n).orderly.step_connect (begun_after hmn hbegun)
    (hseq n (.inl he)) _)

/-! ## Fan-outs that the link begins -/

/-- What the link makes the hub call, it does with a session. -/
theorem Change.holds_of_begins {s s' : System ρ ν} {e : Event ρ ν} (h : Change s e s')
    (hnot : ∀ e', e ≠ .hub e') (hne : s'.hub ≠ s.hub) : ∃ k, s'.link.Holds k := by
  cases h with
  | hub e => exact absurd rfl (hnot e)
  | @opens n since r idle loop stage =>
      refine ⟨s.sessions.length, n, ?_⟩
      have hlt := (List.getElem?_eq_some_iff.1 loop).1
      simp [Link.stageOf, Link.moved, hlt, Stage.session?]
  | @hears n session due r x frame rest t idle loop stage found inbound topic =>
      refine ⟨session, n, ?_⟩
      rw [Link.stageOf_of_getElem? loop, stage]
      rfl
  | _ => exact absurd rfl hne

/-- While a fan-out is in progress no session is let go of. -/
theorem Change.holds_of_busy {s s' : System ρ ν} {e : Event ρ ν} (h : Change s e s')
    (hbusy : s.hub.fanOuts ≠ []) {k : Nat} (hk : s.link.Holds k) : s'.link.Holds k := by
  cases h with
  | call asks call => exact call.holds hk
  | shift idle => exact absurd idle hbusy
  | opens idle => exact absurd idle hbusy
  | follows idle => exact absurd idle hbusy
  | beats idle => exact absurd idle hbusy
  | leaves idle => exact absurd idle hbusy
  | _ => exact hk

theorem holds_of_announcing {n : Nat} (h : s.Announcing events n) :
    ∃ k, (s.after events n).link.Holds k := by
  induction n with
  | zero =>
      rcases h with ⟨m, e, hm, -⟩
      cases hm
  | succ n ih =>
      rcases h with ⟨m, e, hm, he, hnot, hne, hbusy⟩
      rcases Nat.lt_succ_iff_lt_or_eq.1 hm with hlt | rfl
      · -- A fan-out that is older was in progress one event earlier, and no loop took a turn since.
        have hearlier : s.Announcing events n :=
          ⟨m, e, hlt, he, hnot, hne, fun k hmk hkn => hbusy k hmk (Nat.le_succ_of_le hkn)⟩
        rcases ih hearlier with ⟨k, hk⟩
        rcases s.after_succ_cases events n with ⟨e', -, hstep⟩ | ⟨-, hsame⟩
        · rw [hstep]
          exact ⟨k, (change_step _ e').holds_of_busy (hbusy n hlt (Nat.le_succ n)) hk⟩
        · rw [hsame]
          exact ⟨k, hk⟩
      · rw [s.after_succ he] at hne ⊢
        exact (change_step _ e).holds_of_begins hnot hne

/-! ## The life of a link -/

/-- What a run of a system tells of its link. -/
structure Lifecycle (s : System ρ ν) (events : List (Event ρ ν)) : Prop where
  /-- Newest first, from the status of a link that was never connected. -/
  statuses : (s.run events).statuses.IsChain fun next status => status.leadsTo next = true
  newest : (s.run events).statuses.head? = some (s.run events).link.status
  /-- One run loop at most was ever started. -/
  loops : (s.run events).link.loops.length ≤ 1
  /-- Two sessions are never open at the same time. -/
  sessions : ∀ (j k : Nat) (x y : Session), (s.run events).sessions[j]? = some x →
    (s.run events).sessions[k]? = some y → x.held = true → y.held = true → j = k
  connected : ∀ (k : Nat) (x : Session), (s.run events).sessions[k]? = some x → x.held = true →
    (s.run events).link.status = .connected
  /-- After a call of `connect` that started the run loop or refused to, further ones do nothing. -/
  connects : ∀ m n, m < n → s.Connects events m → events[n]? = some .connect →
    s.after events (n + 1) = s.after events n
  /-- A status that is final stays so; no attempt is made any more, nothing is sent, the run loop does
  nothing and nothing is called. -/
  final : ∀ m n, m ≤ n → n ≤ events.length → (s.after events m).link.status.isFinal = true →
    (s.after events n).link.status.isFinal = true ∧
      (s.after events n).attempts = (s.after events m).attempts ∧
      (s.after events n).sessions.map (·.sent) = (s.after events m).sessions.map (·.sent) ∧
      (∀ r ∈ (s.after events n).link.loops, r.stage.isDone = true) ∧ ¬ s.Announcing events n

/-- Whatever happens to a link that is not called while `dispose` waits, its statuses follow each other
as they may, it has one run loop and one open session at most, a session only while it is connected,
and nothing happens after the end. -/
theorem lifecycle (config : LinkConfig) (scheme : String) (events : List (Event ρ ν))
    (hseq : (create config scheme : System ρ ν).Sequential events) :
    Lifecycle (create config scheme) events := by
  have hs : (create config scheme : System ρ ν).Kept := kept_create config scheme
  generalize (create config scheme : System ρ ν) = s at hseq hs
  -- Everything but the last two follows from what holds at the end.
  have hkept := kept_after hs hseq events.length
  rw [after_length] at hkept
  refine ⟨hkept.chain, hkept.newest, hkept.orderly.length_le, ?_, ?_, ?_, ?_⟩
  · intro j k x y hx hy hxheld hyheld
    exact (hkept.orderly.connected (hkept.held k y hy hyheld)).2 j (hkept.held j x hx hxheld)
  · intro k x hx hxheld
    exact (hkept.orderly.connected (hkept.held k x hx hxheld)).1
  · intro m n hmn hconnects he
    exact after_connect hs hseq hmn hconnects he
  · intro m n hmn _ hfinal
    rcases quiet_after hs hseq hmn hfinal with ⟨hfinal', hattempts, hsent⟩
    have horderly := (kept_after hs hseq n).orderly
    refine ⟨hfinal', hattempts, hsent, horderly.isDone hfinal', ?_⟩
    intro hannouncing
    -- The session that the link announces for is open, and the status is not final.
    rcases holds_of_announcing hannouncing with ⟨k, hk⟩
    rw [(horderly.connected hk).1] at hfinal'
    cases hfinal'

/-- A link that is connected more than once, loses a session, is disposed of during the next one, and
connected and disposed of again. -/
def wholeLife : List (Event Unit Nat) :=
  [.connect, .connect, .start 0, .grant 0, .hub .finish, .connect, .follow 0, .breakOff 0 .closed,
    .read 0, .pass 1000, .resume 0, .grant 0, .dispose, .hub .finish, .follow 0, .stop 0, .disposed 0,
    .connect, .dispose]

theorem lifecycle_wholeLife :
    (create .default "ws" : System Unit Nat).Sequential wholeLife ∧
      Lifecycle (create .default "ws" : System Unit Nat) wholeLife ∧
      ((create .default "ws" : System Unit Nat).run wholeLife).statuses =
        [.disposed, .disposed, .disposed, .connected, .connecting, .reconnecting, .connected,
          .connecting, .idle] := by
  have hseq : (create .default "ws" : System Unit Nat).Sequential wholeLife := by
    intro n hn
    have hlt : n < wholeLife.length := by
      rcases hn with hn | hn <;> exact (List.getElem?_eq_some_iff.1 hn).1
    simp only [wholeLife, List.length_cons, List.length_nil] at hlt
    interval_cases n <;> first | (simp [wholeLife] at hn; done) | cbv
  exact ⟨hseq, lifecycle .default "ws" wholeLife hseq, by cbv⟩

end System

end LiveFeed
