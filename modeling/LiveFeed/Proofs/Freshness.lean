import Mathlib
import LiveFeed.Proofs.FanOuts
import LiveFeed.Proofs.SystemSteps

/-!
# Freshness of observed cells

A notification may be lost with the session that brought it, and nobody tells what changed while there
was no session.  Still no observed cell stays behind: once everything was announced at the opening of a
session and all its frames have been dispatched, the cell has issued a fetch since the opening, since
every frame of its topic, and since somebody began to observe it.

* `System.Opens`, `System.Receives`, `System.Dispatches`, `System.Awakens`: what asks for a fetch;
* `System.FetchesSince`: a cell issued a fetch at some event or after it;
* `System.CaughtUp`: an open session of which everything was announced and dispatched;
* `System.freshness`: what then holds of every observed cell.
-/

namespace LiveFeed

variable {ρ ν : Type}

namespace System

variable (s : System ρ ν) (events : List (Event ρ ν))

/-- Event `n` of a run makes cell `i` issue a fetch. -/
def Fetches (i n : Nat) : Prop :=
  Hub.Issues (s.after events n).hub (s.after events (n + 1)).hub i

/-- Cell `i` issued a fetch at event `n` of a run or after it. -/
def FetchesSince (i n : Nat) : Prop :=
  ∃ q, n ≤ q ∧ q < events.length ∧ s.Fetches events i q

/-- Event `n` of a run opens a session. -/
def Opens (session n : Nat) : Prop :=
  ∃ loop, events[n]? = some (.grant loop) ∧ (s.after events n).sessions.length = session ∧
    (s.after events (n + 1)).sessions.length = session + 1

/-- With event `n` of a run the service sends a frame on a session that is open. -/
structure Receives (session : Nat) (t : Topic) (n : Nat) : Prop where
  serves : (s.after events n).serves session = true
  event : ∃ frame, events[n]? = some (.deliver session (.text frame)) ∧ Topic.ofFrame frame = .ok t

/-- With event `n` of a run a loop reads a frame of its session, and the frame is dispatched. -/
structure Dispatches (session : Nat) (t : Topic) (n : Nat) : Prop where
  idle : (s.after events n).hub.fanOuts = []
  event : ∃ loop due x frame rest, events[n]? = some (.read loop) ∧
    (s.after events n).link.stageOf loop = .live session due ∧
    (s.after events n).sessions[session]? = some x ∧ x.inbound = .ok frame :: rest ∧
    Topic.ofFrame frame = .ok t

/-- With event `n` of a run somebody begins to observe cell `i`, which nobody observed. -/
def Awakens (i n : Nat) : Prop :=
  ∃ c c', (s.after events n).hub.cells[i]? = some c ∧
    (s.after events (n + 1)).hub.cells[i]? = some c' ∧ c.observers = 0 ∧ 0 < c'.observers

/-- The fan-out that the link began with event `n` of a run has come to its end. -/
def Over (n : Nat) : Prop :=
  ∃ k, n < k ∧ k ≤ events.length ∧ (s.after events k).hub.fanOuts = []

/-- At the end of a run a session is open, everything was announced at its opening, and every frame
that arrived on it was dispatched. -/
structure CaughtUp (session : Nat) : Prop where
  held : ∃ x, (s.run events).sessions[session]? = some x ∧ x.held = true ∧
    ∀ frame, .ok frame ∉ x.inbound
  announced : ∀ n, s.Opens events session n → s.Over events n
  dispatched : ∀ t n, s.Dispatches events session t n → s.Over events n

variable {s events}

theorem FetchesSince.mono {i m n : Nat} (hmn : m ≤ n) :
    s.FetchesSince events i n → s.FetchesSince events i m := by
  rintro ⟨q, hq, hlt, hf⟩
  exact ⟨q, Nat.le_trans hmn hq, hlt, hf⟩

/-! ## The hub of a system -/

/-- An event leaves the hub of a system as it is, or something happens to it. -/
theorem Change.hub_cases {s s' : System ρ ν} {e : Event ρ ν} (h : Change s e s') :
    s'.hub = s.hub ∨ ∃ e', s'.hub = s.hub.step e' := by
  cases h with
  | hub e => exact .inr ⟨e, rfl⟩
  | opens => exact .inr ⟨.notifyAll, rfl⟩
  | @hears _ _ _ _ _ _ _ t => exact .inr ⟨.notify t, rfl⟩
  | _ => exact .inl rfl

theorem hub_after_succ (s : System ρ ν) (events : List (Event ρ ν)) (n : Nat) :
    (s.after events (n + 1)).hub = (s.after events n).hub ∨
      ∃ e, (s.after events (n + 1)).hub = (s.after events n).hub.step e := by
  rcases s.after_succ_cases events n with ⟨e, -, hstep⟩ | ⟨-, hsame⟩
  · rw [hstep]
    exact (change_step _ e).hub_cases
  · rw [hsame]
    exact .inl rfl

theorem consistent_after (hs : Hub.Consistent s.hub) (n : Nat) :
    Hub.Consistent (s.after events n).hub := by
  refine after_induction (motive := fun s => Hub.Consistent s.hub) (Nat.zero_le n) hs ?_
  intro k e _ _ _ hk
  rcases (change_step (s.after events k) e).hub_cases with hsame | ⟨e', hstep⟩
  · rw [hsame]
    exact hk
  · rw [hstep]
    exact Hub.consistent_step hk e'

/-- A cell is never lost and never changes its topic. -/
theorem exists_cell_after {i m n : Nat} (hmn : m ≤ n) {c : Cell ρ ν}
    (hc : (s.after events m).hub.cells[i]? = some c) :
    ∃ c', (s.after events n).hub.cells[i]? = some c' ∧ c'.topic = c.topic := by
  refine after_induction (motive := fun s => ∃ c', s.hub.cells[i]? = some c' ∧ c'.topic = c.topic) hmn
    ⟨c, hc, rfl⟩ ?_
  rintro k e - - - ⟨d, hd, htopic⟩
  rcases (change_step (s.after events k) e).hub_cases with hsame | ⟨e', hstep⟩
  · rw [hsame]
    exact ⟨d, hd, htopic⟩
  · rcases Hub.exists_change hd e' with ⟨d', hd', hchange⟩
    rw [← hstep] at hd'
    refine ⟨d', hd', ?_⟩
    cases hchange with
    | keep alike _ => rw [alike.topic, htopic]
    | issue request alike => rw [alike.topic, Cell.topic_issue, htopic]
    | land generation landing _ => rw [(d.holders_land generation landing).1, htopic]

/-! ## A fetch that is asked for is issued -/

/-- Between event `n` of a run and its point `m` cell `i` issued a fetch, or nobody observes it. -/
def Settled (s : System ρ ν) (events : List (Event ρ ν)) (i n m : Nat) : Prop :=
  (s.after events m).hub.Unobserved i ∨ ∃ q, n ≤ q ∧ q < m ∧ s.Fetches events i q

theorem Settled.succ {i n m : Nat} (hnm : n ≤ m) (h : s.Settled events i n m) :
    s.Settled events i n (m + 1) := by
  rcases h with hu | ⟨q, hnq, hqm, hq⟩
  · rcases hub_after_succ s events m with hsame | ⟨e, hstep⟩
    · refine .inl ?_
      rw [hsame]
      exact hu
    · rcases Hub.unobserved_step hu e with hu' | hissues
      · refine .inl ?_
        rw [hstep]
        exact hu'
      · refine .inr ⟨m, hnm, Nat.lt_succ_self m, ?_⟩
        rw [Fetches, hstep]
        exact hissues
  · exact .inr ⟨q, hnq, Nat.lt_succ_of_lt hqm, hq⟩

/-- A fan-out that owes a cell its call at point `n + 1` of a run still does, or the cell is
settled. -/
theorem owes_or_settled {i n m : Nat} (hnm : n < m)
    (h : (s.after events (n + 1)).hub.Owes i ∨ s.Settled events i n (n + 1)) :
    (s.after events m).hub.Owes i ∨ s.Settled events i n m := by
  induction hnm with
  | refl => exact h
  | @step m hnm ih =>
      have hle : n ≤ m := Nat.le_of_lt hnm
      rcases ih with ho | hsettled
      · -- The debt is kept, or paid, or the cell lost its observers, which settles it as well.
        rcases hub_after_succ s events m with hsame | ⟨e, hstep⟩
        · rw [hsame]
          exact .inl ho
        · rcases Hub.owes_step ho e with ho' | hu | hissues
          · rw [hstep]
            exact .inl ho'
          · exact .inr (Settled.succ hle (.inl hu))
          · refine .inr (.inr ⟨m, hle, Nat.lt_succ_self m, ?_⟩)
            rw [Fetches, hstep]
            exact hissues
      · exact .inr (hsettled.succ hle)

theorem Settled.mono {i n k m : Nat} (hnk : n ≤ k) (hkm : k ≤ m) (h : s.Settled events i n k) :
    s.Settled events i n m := by
  induction hkm with
  | refl => exact h
  | @step m hkm ih => exact ih.succ (Nat.le_trans hnk hkm)

/-- A cell that is observed in the end was settled with a fetch. -/
theorem Settled.fetchesSince {i n : Nat} {c : Cell ρ ν}
    (h : s.Settled events i n events.length) (hc : (s.run events).hub.cells[i]? = some c)
    (hpos : 0 < c.observers) : s.FetchesSince events i n := by
  rcases h with hu | ⟨q, hnq, hq, hf⟩
  · rw [after_length] at hu
    have h0 := hu c hc
    omega
  · exact ⟨q, hnq, hq, hf⟩

/-- What a fan-out owes is called before it has come to its end. -/
theorem fetchesSince_of_over {i n : Nat} {c : Cell ρ ν}
    (hbegun : (s.after events (n + 1)).hub.Owes i ∨ s.Settled events i n (n + 1))
    (hover : s.Over events n) (hc : (s.run events).hub.cells[i]? = some c)
    (hpos : 0 < c.observers) : s.FetchesSince events i n := by
  rcases hover with ⟨k, hnk, hk, hidle⟩
  rcases owes_or_settled hnk hbegun with ho | hsettled
  · -- Without a fan-out nothing is owed.
    exact absurd ho (Hub.not_owes_of_idle hidle)
  · exact (hsettled.mono (Nat.le_of_lt hnk) hk).fetchesSince hc hpos

/-- A fan-out that the link begins owes a call to every observed cell that it is about. -/
theorem owes_or_settled_of_begun {i n : Nat} {c : Cell ρ ν}
    (hc : (s.run events).hub.cells[i]? = some c) (hn : n < events.length)
    (howes : ∀ d, (s.after events n).hub.cells[i]? = some d → d.topic = c.topic →
      0 < d.observers → (s.after events (n + 1)).hub.Owes i) :
    (s.after events (n + 1)).hub.Owes i ∨ s.Settled events i n (n + 1) := by
  cases hd : (s.after events n).hub.cells[i]? with
  | none =>
      refine .inr (Settled.succ (Nat.le_refl n) (.inl ?_))
      intro d hget
      rw [hd] at hget
      cases hget
  | some d =>
      rcases Nat.eq_zero_or_pos d.observers with h0 | hpos
      · refine .inr (Settled.succ (Nat.le_refl n) (.inl ?_))
        intro d' hget
        obtain rfl : d = d' := Option.some.inj (hd.symm.trans hget)
        exact h0
      · refine .inl (howes d hd ?_ hpos)
        -- The topic is the one that the cell has in the end.
        rcases exists_cell_after (Nat.le_of_lt hn) hd with ⟨c', hc', htopic⟩
        rw [after_length] at hc'
        obtain rfl : c' = c := Option.some.inj (hc'.symm.trans hc)
        exact htopic.symm

/-! ## The opening of a session -/

/-- Sessions are opened one at a time, and with each everything is announced. -/
theorem Change.sessions_cases {s s' : System ρ ν} {e : Event ρ ν} (h : Change s e s') :
    s'.sessions.length = s.sessions.length ∨
      (∃ loop, e = .grant loop) ∧ s.hub.fanOuts = [] ∧ s'.hub = s.hub.step .notifyAll ∧
        s'.sessions.length = s.sessions.length + 1 := by
  cases h with
  | @opens n _ _ idle _ _ => exact .inr ⟨⟨n, rfl⟩, idle, rfl, by simp⟩
  | hears => exact .inl (by simp)
  | skips => exact .inl (by simp)
  | beats => exact .inl (by simp)
  | leaves => exact .inl (by simp)
  | serves => exact .inl (by simp)
  | _ => exact .inl rfl

theorem fetchesSince_of_opens {i n session : Nat} {c : Cell ρ ν} (hs : Hub.Consistent s.hub)
    (hopens : s.Opens events session n) (hover : s.Over events n)
    (hc : (s.run events).hub.cells[i]? = some c) (hpos : 0 < c.observers) :
    s.FetchesSince events i n := by
  rcases hopens with ⟨loop, he, hbefore, hafter⟩
  have hn : n < events.length := (List.getElem?_eq_some_iff.1 he).1
  refine fetchesSince_of_over (owes_or_settled_of_begun hc hn ?_) hover hc hpos
  intro d hd _ hdpos
  have hchange := change_step (s.after events n) (.grant loop)
  rw [← s.after_succ he] at hchange
  rcases hchange.sessions_cases with hsame | ⟨-, hidle, hhub, -⟩
  · omega
  · rw [hhub]
    exact Hub.owes_notifyAll (consistent_after hs n) hidle hd hdpos

/-- Every session there is was opened by some event. -/
theorem exists_opens {session m : Nat} (hm : m ≤ events.length) (hnone : s.sessions = [])
    (h : session < (s.after events m).sessions.length) : ∃ n, s.Opens events session n := by
  induction m with
  | zero =>
      rw [after_zero, hnone] at h
      cases h
  | succ m ih =>
      have he : events[m]? = some events[m] := List.getElem?_eq_getElem hm
      have hchange := change_step (s.after events m) events[m]
      rw [← s.after_succ he] at hchange
      rcases hchange.sessions_cases with hsame | ⟨⟨loop, hgrant⟩, -, -, hlength⟩
      · rw [hsame] at h
        exact ih (Nat.le_of_succ_le hm) h
      · rw [hlength] at h
        -- Either the session was there already, or it is the one that is opened.
        rcases Nat.lt_succ_iff_lt_or_eq.1 h with hlt | rfl
        · exact ih (Nat.le_of_succ_le hm) hlt
        · exact ⟨m, loop, by rw [he, hgrant], rfl, hlength⟩

/-! ## Frames -/

/-- A frame of a topic that is read is dispatched. -/
theorem read_eq {s : System ρ ν} {loop session due : Nat} {x : Session} {frame : String}
    {rest : List (Except SocketError String)} {t : Topic}
    (hstage : s.link.stageOf loop = .live session due) (hx : s.sessions[session]? = some x)
    (hin : x.inbound = .ok frame :: rest) (ht : Topic.ofFrame frame = .ok t) :
    (s.read loop).hub = s.hub.step (.notify t) := by
  simp [read, turn, Link.step, Link.received, modifySession, hstage, hx, hin, ht, cause]

theorem fetchesSince_of_dispatches {i n session : Nat} {c : Cell ρ ν} (hs : Hub.Consistent s.hub)
    (hdispatches : s.Dispatches events session c.topic n) (hover : s.Over events n)
    (hc : (s.run events).hub.cells[i]? = some c) (hpos : 0 < c.observers) :
    s.FetchesSince events i n := by
  have hidle := hdispatches.idle
  rcases hdispatches.event with ⟨loop, due, x, frame, rest, he, hstage, hx, hin, ht⟩
  have hn : n < events.length := (List.getElem?_eq_some_iff.1 he).1
  refine fetchesSince_of_over (owes_or_settled_of_begun hc hn ?_) hover hc hpos
  intro d hd htopic hdpos
  have hhub : (s.after events (n + 1)).hub = (s.after events n).hub.step (.notify d.topic) := by
    rw [s.after_succ he, step, whenIdle, hidle, htopic, ← read_eq hstage hx hin ht]
    rfl
  rw [hhub]
  exact Hub.owes_notify (consistent_after hs n) hidle hd hdpos

/-- A frame arrived on a session and has not been read. -/
def Waits (sessions : List Session) (session : Nat) (frame : String) : Prop :=
  ∃ x, sessions[session]? = some x ∧ .ok frame ∈ x.inbound

theorem Waits.modify {sessions : List Session} {session k : Nat} {frame : String}
    {f : Session → Session} (hw : Waits sessions session frame)
    (hf : ∀ x, sessions[session]? = some x → k = session → .ok frame ∈ x.inbound →
      .ok frame ∈ (f x).inbound) : Waits (sessions.modify k f) session frame := by
  rcases hw with ⟨x, hx, hmem⟩
  by_cases hk : k = session
  · refine ⟨f x, ?_, hf x hx hk hmem⟩
    rw [hk, List.getElem?_modify_eq, hx]
    rfl
  · refine ⟨x, ?_, hmem⟩
    rw [List.getElem?_modify_ne _ _ hk, hx]

/-- Reading the first of what arrived leaves the rest, and the first is the frame or leaves the
frame. -/
theorem Waits.read {sessions : List Session} {session k : Nat} {frame head : String} {x : Session}
    {rest : List (Except SocketError String)} (hw : Waits sessions session frame)
    (hx : sessions[k]? = some x) (hin : x.inbound = .ok head :: rest) :
    Waits (sessions.modify k fun x => { x with inbound := rest }) session frame ∨
      k = session ∧ head = frame := by
  by_cases hhead : k = session ∧ head = frame
  · exact .inr hhead
  · refine .inl (hw.modify ?_)
    intro y hy hk hmem
    subst hk
    obtain rfl : x = y := Option.some.inj (hx.symm.trans hy)
    rw [hin] at hmem
    rcases List.mem_cons.1 hmem with heq | hmem
    · exact absurd ⟨rfl, (Except.ok.inj heq).symm⟩ hhead
    · exact hmem

/-- A frame that announces a topic waits until it is dispatched. -/
theorem Change.waits {s s' : System ρ ν} {e : Event ρ ν} (h : Change s e s') {session : Nat}
    {frame : String} {t : Topic} (ht : Topic.ofFrame frame = .ok t)
    (hw : Waits s.sessions session frame) :
    Waits s'.sessions session frame ∨ ∃ loop due x rest, e = .read loop ∧ s.hub.fanOuts = [] ∧
      s.link.stageOf loop = .live session due ∧ s.sessions[session]? = some x ∧
      x.inbound = .ok frame :: rest := by
  cases h with
  | opens =>
      rcases hw with ⟨x, hx, hmem⟩
      have hlt : session < s.sessions.length := (List.getElem?_eq_some_iff.1 hx).1
      exact .inl ⟨x, by rw [List.getElem?_append_left hlt, hx], hmem⟩
  | @hears n _ due r x _ rest _ idle loop stage found inbound topic =>
      rcases hw.read found inbound with hw' | ⟨rfl, rfl⟩
      · exact .inl hw'
      · exact .inr ⟨n, due, x, rest, rfl, idle, (Link.stageOf_of_getElem? loop).trans stage, found,
          inbound⟩
  | skips idle loop stage found inbound malformed =>
      rcases hw.read found inbound with hw' | ⟨-, rfl⟩
      · exact .inl hw'
      · -- The frame that is passed over is malformed, and this one is not.
        rw [ht] at malformed
        cases malformed
  | beats =>
      refine .inl (hw.modify ?_)
      intro x _ _ hmem
      rw [inbound_send]
      exact hmem
  | leaves idle loop move before after releases =>
      refine .inl (hw.modify ?_)
      intro x hx hk hmem
      subst hk
      rw [(releases x hx).inbound]
      exact hmem
  | serves k serves =>
      refine .inl (hw.modify ?_)
      intro x _ _ hmem
      exact serves.inbound x _ hmem
  | _ => exact .inl hw

theorem waits_or_dispatches {session m n : Nat} {frame : String} {t : Topic}
    (ht : Topic.ofFrame frame = .ok t) (hmn : m ≤ n)
    (hw : Waits (s.after events m).sessions session frame) :
    Waits (s.after events n).sessions session frame ∨
      ∃ k, m ≤ k ∧ s.Dispatches events session t k := by
  refine after_induction (motive := fun s' => Waits s'.sessions session frame ∨
    ∃ k, m ≤ k ∧ s.Dispatches events session t k) hmn (.inl hw) ?_
  rintro k e hmk - he (hw | hdone)
  · rcases (change_step (s.after events k) e).waits ht hw with
      hw' | ⟨loop, due, x, rest, rfl, hidle, hstage, hx, hin⟩
    · exact .inl hw'
    · exact .inr ⟨k, hmk, hidle, loop, due, x, frame, rest, he, hstage, hx, hin, ht⟩
  · exact .inr hdone

/-- What arrived on a session that is caught up was dispatched. -/
theorem exists_dispatches {session n : Nat} {t : Topic} (hcaught : s.CaughtUp events session)
    (hreceives : s.Receives events session t n) :
    ∃ k, n ≤ k ∧ s.Dispatches events session t k := by
  rcases hreceives.event with ⟨frame, he, ht⟩
  have hn : n < events.length := (List.getElem?_eq_some_iff.1 he).1
  have hserves := hreceives.serves
  have hw : Waits (s.after events (n + 1)).sessions session frame := by
    cases hx : (s.after events n).sessions[session]? with
    | none => simp [serves, hx] at hserves
    | some x =>
        rw [s.after_succ he, step, if_pos hserves, modifySession]
        refine ⟨{ x with inbound := x.inbound ++ [.ok frame] }, ?_, by simp⟩
        rw [List.getElem?_modify_eq, hx]
        rfl
  rcases waits_or_dispatches ht hn hw with ⟨x, hx, hmem⟩ | ⟨k, hk, hdone⟩
  · -- The session has nothing more to be read.
    rcases hcaught.held with ⟨y, hy, -, hnone⟩
    rw [after_length] at hx
    obtain rfl : x = y := Option.some.inj (hx.symm.trans hy)
    exact absurd hmem (hnone frame)
  · exact ⟨k, Nat.le_of_succ_le hk, hdone⟩

/-! ## What holds of every observed cell -/

theorem fetchesSince_of_awakens {i n : Nat} (h : s.Awakens events i n) :
    s.FetchesSince events i n := by
  rcases h with ⟨c, c', hc, hc', h0, hpos⟩
  have hu : (s.after events n).hub.Unobserved i := by
    intro d hd
    obtain rfl : c = d := Option.some.inj (hc.symm.trans hd)
    exact h0
  have hnot : ¬ (s.after events (n + 1)).hub.Unobserved i := by
    intro hu'
    have := hu' c' hc'
    omega
  rcases s.after_succ_cases events n with ⟨e, he, -⟩ | ⟨-, hsame⟩
  · refine ⟨n, Nat.le_refl n, (List.getElem?_eq_some_iff.1 he).1, ?_⟩
    rcases hub_after_succ s events n with hsame | ⟨e', hstep⟩
    · rw [hsame] at hnot
      exact absurd hu hnot
    · rw [hstep] at hnot
      rw [Fetches, hstep]
      exact (Hub.unobserved_step hu e').resolve_left hnot
  · rw [hsame] at hnot
    exact absurd hu hnot

/-- In every reachable state in which a session is open, everything was announced at its opening, and
every frame that arrived on it was dispatched, each observed cell has issued a fetch since that session
was opened, since every frame of its topic arrived and was dispatched, and since every time somebody
began to observe it. -/
theorem freshness (config : LinkConfig) (scheme : String) (events : List (Event ρ ν))
    (session i : Nat) (c : Cell ρ ν)
    (hcaught : (create config scheme : System ρ ν).CaughtUp events session)
    (hc : ((create config scheme : System ρ ν).run events).hub.cells[i]? = some c)
    (hpos : 0 < c.observers) :
    (∃ n, (create config scheme : System ρ ν).Opens events session n ∧
        (create config scheme : System ρ ν).FetchesSince events i n) ∧
      (∀ n, (create config scheme : System ρ ν).Opens events session n ∨
        (create config scheme : System ρ ν).Receives events session c.topic n ∨
        (create config scheme : System ρ ν).Dispatches events session c.topic n ∨
        (create config scheme : System ρ ν).Awakens events i n →
        (create config scheme : System ρ ν).FetchesSince events i n) := by
  have hs : Hub.Consistent (create config scheme : System ρ ν).hub := Hub.consistent_empty
  have hnone : (create config scheme : System ρ ν).sessions = [] := rfl
  generalize (create config scheme : System ρ ν) = s at hcaught hc hs hnone
  have hopens : ∀ n, s.Opens events session n → s.FetchesSince events i n := by
    intro n hn
    exact fetchesSince_of_opens hs hn (hcaught.announced n hn) hc hpos
  have hdispatches : ∀ n, s.Dispatches events session c.topic n → s.FetchesSince events i n := by
    intro n hn
    exact fetchesSince_of_dispatches hs hn (hcaught.dispatched _ n hn) hc hpos
  refine ⟨?_, ?_⟩
  · rcases hcaught.held with ⟨x, hx, -, -⟩
    -- The session exists, so it was opened.
    rw [← after_length] at hx
    rcases exists_opens (Nat.le_refl _) hnone (List.getElem?_eq_some_iff.1 hx).1 with ⟨n, hn⟩
    exact ⟨n, hn, hopens n hn⟩
  · intro n hn
    rcases hn with hn | hn | hn | hn
    · exact hopens n hn
    · -- The frame was dispatched later, and what was fetched since then was fetched since now.
      rcases exists_dispatches hcaught hn with ⟨k, hk, hdone⟩
      exact (hdispatches k hdone).mono hk
    · exact hdispatches n hn
    · exact fetchesSince_of_awakens hn

/-- A session that breaks off with a frame unread, a cell that is let go of and observed again while
there is none, and another session with a frame that is dispatched. -/
def resumed : List (Event Unit Nat) :=
  [.hub (.create .user false), .hub (.observe 0 ()), .connect, .start 0, .grant 0, .hub (.call ()),
    .hub .finish, .follow 0, .deliver 0 (.text Topic.user.frame), .breakOff 0 .closed, .read 0,
    .hub (.unobserve 0), .hub (.observe 0 ()), .pass 1000, .resume 0, .grant 0, .hub (.call ()),
    .hub .finish, .follow 0, .deliver 1 (.text Topic.user.frame), .read 0, .hub (.call ()),
    .hub .finish]

theorem caughtUp_resumed : (create .default "ws" : System Unit Nat).CaughtUp resumed 1 := by
  have hidle : ((create .default "ws" : System Unit Nat).run resumed).hub.fanOuts = [] := by cbv
  have hover : ∀ n < resumed.length, (create .default "ws" : System Unit Nat).Over resumed n := by
    intro n hn
    exact ⟨resumed.length, hn, Nat.le_refl _, by rw [after_length, hidle]⟩
  refine ⟨⟨_, by cbv, rfl, ?_⟩, ?_, ?_⟩
  · intro frame hmem
    cases hmem
  · rintro n ⟨loop, he, -, -⟩
    exact hover n (List.getElem?_eq_some_iff.1 he).1
  · rintro t n ⟨-, loop, due, x, frame, rest, he, -⟩
    exact hover n (List.getElem?_eq_some_iff.1 he).1

theorem freshness_resumed :
    ∃ c, ((create .default "ws" : System Unit Nat).run resumed).hub.cells[0]? = some c ∧
      0 < c.observers ∧ (create .default "ws" : System Unit Nat).CaughtUp resumed 1 ∧
      ∃ n, (create .default "ws" : System Unit Nat).Opens resumed 1 n ∧
        (create .default "ws" : System Unit Nat).FetchesSince resumed 0 n := by
  refine ⟨_, by cbv, by decide, caughtUp_resumed, ?_⟩
  exact (freshness .default "ws" resumed 1 0 _ caughtUp_resumed (by cbv) (by decide)).1

end System

end LiveFeed
