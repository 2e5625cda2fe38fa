import LiveFeed.Proofs.LinkMoves

/-!
# One run loop

As long as the owner does not call a link while `dispose` waits, the link has at most one run loop, and
its status says where the loop stands.

* `LinkStatus.leadsTo`: which status may be published after which;
* `Link.Fits`: the status while a loop stands somewhere;
* `Link.Orderly`: a link without a run loop, or with one that its status fits;
* `Link.orderly_moved`, `Link.orderly_call`: what a turn of the loop and a call of the owner keep.
-/

namespace LiveFeed

/-- Whether a status may be published after another. -/
def LinkStatus.leadsTo : LinkStatus → LinkStatus → Bool
  | idle, connecting => true
  | idle, failed _ => true
  | idle, disposed => true
  | connecting, connected => true
  | connecting, reconnecting => true
  | connecting, failed _ => true
  | connecting, disposed => true
  | connected, reconnecting => true
  | connected, disposed => true
  | reconnecting, connecting => true
  | reconnecting, disposed => true
  | failed _, disposed => true
  | disposed, disposed => true
  | _, _ => false

namespace Link

/-- The status while the only run loop stands at some stage. -/
def Fits : Stage → LinkStatus → Prop
  | .starting, status => status = .idle
  | .attempting _, status => status = .connecting
  | .opening _ _, status => status = .connected
  | .live _ _, status => status = .connected
  | .pausing _, status => status = .reconnecting
  | .ended, status => status.isFinal = true
  | .crashed, status => status = .connecting ∨ status = .connected ∨ status = .disposed

/-- A status fits only a loop that is done, if it is final. -/
theorem Fits.isDone {stage : Stage} {status : LinkStatus} (h : Fits stage status)
    (hfinal : status.isFinal = true) : stage.isDone = true := by
  cases stage with
  | ended => rfl
  | crashed => rfl
  | _ =>
      rw [h] at hfinal
      cases hfinal

theorem Fits.connected {stage : Stage} {status : LinkStatus} {session : Nat} (h : Fits stage status)
    (hsession : stage.session? = some session) : status = .connected := by
  cases stage with
  | opening _ _ => exact h
  | live _ _ => exact h
  | _ => cases hsession

theorem fits_disposed {stage : Stage} (h : stage.isDone = true) : Fits stage .disposed := by
  cases stage with
  | ended => rfl
  | crashed => exact .inr (.inr rfl)
  | _ => cases h

/-- A link without a run loop. -/
structure Unstarted (l : Link) : Prop where
  loops : l.loops = []
  running : l.running = none
  disposing : l.disposing = []
  status : l.status = .idle ∨ l.status.isFinal = true

/-- A link with one run loop, which is running, or waited for, or left alone for good. -/
structure Started (l : Link) (r : RunLoop) : Prop where
  loops : l.loops = [r]
  fits : Fits r.stage l.status
  holder : l.running = some 0 ∧ l.disposing = [] ∨ l.running = none ∧
    (l.disposing = [0] ∨ l.disposing = [] ∧ (l.dropped = true ∨ l.status = .disposed))

/-- At most one run loop, and a status that says where it stands. -/
def Orderly (l : Link) : Prop :=
  l.Unstarted ∨ ∃ r, l.Started r

/-- A loop of the link holds a session. -/
def Holds (l : Link) (session : Nat) : Prop :=
  ∃ n, (l.stageOf n).session? = some session

theorem orderly_create (config : LinkConfig) (scheme : String) : (create config scheme).Orderly :=
  .inl ⟨rfl, rfl, rfl, .inl rfl⟩

theorem Orderly.length_le {l : Link} (h : l.Orderly) : l.loops.length ≤ 1 := by
  rcases h with hu | ⟨r, hs⟩
  · rw [hu.loops]
    exact Nat.zero_le 1
  · rw [hs.loops]
    exact Nat.le_refl 1

/-- The loop that is found is the only one. -/
theorem Orderly.started {l : Link} (h : l.Orderly) {n : Nat} {r : RunLoop}
    (hr : l.loops[n]? = some r) : n = 0 ∧ l.Started r := by
  rcases h with hu | ⟨r', hs⟩
  · rw [hu.loops] at hr
    cases hr
  · rw [hs.loops] at hr
    cases n with
    | zero =>
        obtain rfl : r' = r := Option.some.inj hr
        exact ⟨rfl, hs⟩
    | succ n => cases hr

theorem Started.holds_iff {l : Link} {r : RunLoop} (h : l.Started r) {session : Nat} :
    l.Holds session ↔ r.stage.session? = some session := by
  constructor
  · rintro ⟨n, hn⟩
    cases n with
    | zero => simpa [stageOf, h.loops] using hn
    | succ n => simp [stageOf, h.loops, Stage.session?] at hn
  · intro hsession
    exact ⟨0, by simpa [stageOf, h.loops] using hsession⟩

theorem Unstarted.not_holds {l : Link} (h : l.Unstarted) {session : Nat} : ¬ l.Holds session := by
  rintro ⟨n, hn⟩
  simp [stageOf, h.loops, Stage.session?] at hn

/-- Two sessions are never held, and while one is the status says so. -/
theorem Orderly.connected {l : Link} (h : l.Orderly) {session : Nat} (hh : l.Holds session) :
    l.status = .connected ∧ ∀ session', l.Holds session' → session' = session := by
  rcases h with hu | ⟨r, hs⟩
  · exact absurd hh hu.not_holds
  · have hsession := hs.holds_iff.1 hh
    refine ⟨hs.fits.connected hsession, ?_⟩
    intro session' hh'
    exact Option.some.inj ((hs.holds_iff.1 hh').symm.trans hsession)

theorem Orderly.isDone {l : Link} (h : l.Orderly) (hfinal : l.status.isFinal = true) :
    ∀ r ∈ l.loops, r.stage.isDone = true := by
  intro r hr
  rcases h with hu | ⟨r', hs⟩
  · rw [hu.loops] at hr
    cases hr
  · rw [hs.loops] at hr
    obtain rfl := List.mem_singleton.1 hr
    exact hs.fits.isDone hfinal

/-! ## Turns of the loop -/

theorem Move.not_done {config : LinkConfig} {now n : Nat} {c : Event} {r r' : RunLoop}
    {effects : List Effect} (h : Move config now n c r r' effects) : r.stage.isDone = false := by
  cases h <;> simp [Stage.isDone, *]

theorem Move.fits {config : LinkConfig} {now n : Nat} {c : Event} {r r' : RunLoop}
    {effects : List Effect} (h : Move config now n c r r' effects) {status : LinkStatus}
    (hfits : Fits r.stage status) :
    Fits r'.stage ((told effects).getD status) ∧
      ∀ next ∈ told effects, status.leadsTo next = true := by
  cases h <;> simp_all [Fits, told, LinkStatus.isFinal, LinkStatus.leadsTo]

theorem orderly_moved {l : Link} (h : l.Orderly) {now n : Nat} {c : Event} {r r' : RunLoop}
    {effects : List Effect} (hr : l.loops[n]? = some r)
    (hmove : Move l.config now n c r r' effects) :
    (l.moved n r' effects).Started r' ∧ ∀ next ∈ told effects, l.status.leadsTo next = true := by
  rcases h.started hr with ⟨rfl, hs⟩
  -- The loop that moves is the only one, and its status moves along.
  rcases hmove.fits hs.fits with ⟨hfits, htold⟩
  refine ⟨⟨?_, hfits, ?_⟩, htold⟩
  · simp [moved, hs.loops]
  · rcases hs.holder with hrunning | ⟨hnone, hdisposing | ⟨hnil, hdropped | hdisposed⟩⟩
    · exact .inl hrunning
    · exact .inr ⟨hnone, .inl hdisposing⟩
    · exact .inr ⟨hnone, .inr ⟨hnil, .inl hdropped⟩⟩
    · -- A link that was disposed of has no loop that could move.
      have hdone := hs.fits.isDone (by rw [hdisposed]; rfl)
      rw [hmove.not_done] at hdone
      cases hdone

/-! ## Calls of the owner -/

/-- An idle link whose loop nobody waits for was let go of or disposed of. -/
theorem Started.dropped_or_disposed {l : Link} {r : RunLoop} (h : l.Started r)
    (hidle : l.running = none) (hnil : l.disposing = []) :
    l.dropped = true ∨ l.status = .disposed := by
  rcases h.holder with ⟨hrunning, -⟩ | ⟨-, hdisposing | ⟨-, hleft⟩⟩
  · rw [hidle] at hrunning
    cases hrunning
  · rw [hnil] at hdisposing
    cases hdisposing
  · exact hleft

/-- A loop that is waited for is the only one and does not run any more. -/
theorem Started.disposing {l : Link} {r : RunLoop} (h : l.Started r) {n : Nat}
    (hn : n ∈ l.disposing) : n = 0 ∧ l.disposing = [0] ∧ l.running = none := by
  rcases h.holder with ⟨-, hnil⟩ | ⟨hnone, hdisposing | ⟨hnil, -⟩⟩
  · rw [hnil] at hn
    cases hn
  · rw [hdisposing] at hn
    exact ⟨List.mem_singleton.1 hn, hdisposing, hnone⟩
  · rw [hnil] at hn
    cases hn

theorem Started.running {l : Link} {r : RunLoop} (h : l.Started r) {n : Nat}
    (hn : l.running = some n) : n = 0 ∧ l.disposing = [] := by
  rcases h.holder with ⟨hrunning, hnil⟩ | ⟨hnone, -⟩
  · exact ⟨Option.some.inj (hn.symm.trans hrunning), hnil⟩
  · rw [hnone] at hn
    cases hn

/-- A loop that was never started is not found running. -/
theorem Orderly.started_of_running {l : Link} (h : l.Orderly) {n : Nat} (hn : l.running = some n) :
    ∃ r, l.Started r := by
  rcases h with hu | hs
  · rw [hu.running] at hn
    cases hn
  · exact hs

/-- Only a link that was never started is neither busy nor left alone for good. -/
theorem Orderly.unstarted {l : Link} (h : l.Orderly) (dropped : l.dropped = false)
    (idle : l.running = none) (nil : l.disposing = []) (unfinished : l.status.isFinal = false) :
    l.Unstarted ∧ l.status = .idle := by
  rcases h with hu | ⟨r, hs⟩
  · refine ⟨hu, hu.status.resolve_right ?_⟩
    rw [unfinished]
    exact Bool.false_ne_true
  · rcases hs.dropped_or_disposed idle nil with hdropped | hdisposed
    · rw [dropped] at hdropped
      cases hdropped
    · rw [hdisposed] at unfinished
      cases unfinished

theorem leadsTo_disposed (status : LinkStatus) : status.leadsTo .disposed = true := by
  cases status <;> rfl

/-- What a call keeps, if no `dispose` waits when it is one of `connect` and `dispose`. -/
theorem orderly_call {l l' : Link} {c : Event} {st : Option LinkStatus} (h : l.Orderly)
    (hcall : Call l c l' st) (hseq : c = .connect ∨ c = .dispose → l.disposing = []) :
    l'.Orderly ∧ ∀ next ∈ st, l.status.leadsTo next = true := by
  cases hcall with
  | refuse dropped idle unfinished reason =>
      rcases h.unstarted dropped idle (hseq (.inl rfl)) unfinished with ⟨hu, hstatus⟩
      refine ⟨.inl ⟨hu.loops, hu.running, hu.disposing, .inr rfl⟩, ?_⟩
      rintro next ⟨⟩
      rw [hstatus]
      rfl
  | spawn dropped idle unfinished =>
      rcases h.unstarted dropped idle (hseq (.inl rfl)) unfinished with ⟨hu, hstatus⟩
      -- The loop is the first one.
      refine ⟨.inr ⟨.fresh, ?_, hstatus, .inl ⟨?_, hu.disposing⟩⟩, ?_⟩
      · rw [hu.loops]
        rfl
      · rw [hu.loops]
        rfl
      · rintro next ⟨⟩
  | disposeIdle dropped idle =>
      refine ⟨?_, ?_⟩
      · rcases h with hu | ⟨r, hs⟩
        · exact .inl ⟨hu.loops, hu.running, hu.disposing, .inr rfl⟩
        · -- It was disposed of before, and stays so.
          have hleft := hs.dropped_or_disposed idle (hseq (.inr rfl))
          rw [dropped] at hleft
          have hstatus := hleft.resolve_left Bool.false_ne_true
          exact .inr ⟨r, hs.loops, hstatus ▸ hs.fits, .inr ⟨idle, .inr ⟨hseq (.inr rfl), .inr rfl⟩⟩⟩
      · rintro next ⟨⟩
        exact leadsTo_disposed _
  | @ask n dropped running =>
      rcases h.started_of_running running with ⟨r, hs⟩
      rcases hs.running running with ⟨rfl, hnil⟩
      refine ⟨.inr ⟨{ r with stopping := true }, ?_, hs.fits, .inr ⟨rfl, .inl ?_⟩⟩, ?_⟩
      · simp [modifyLoop, hs.loops]
      · simp [hnil]
      · rintro next ⟨⟩
  | @disposed n asked done =>
      rcases h with hu | ⟨r, hs⟩
      · rw [hu.disposing] at asked
        cases asked
      · rcases hs.disposing asked with ⟨rfl, hdisposing, hnone⟩
        -- The loop has come to its end, with whatever status it left.
        have hdone : r.stage.isDone = true := by simpa [stageOf, hs.loops] using done
        refine ⟨.inr ⟨r, hs.loops, fits_disposed hdone, .inr ⟨hnone, .inr ⟨?_, .inr rfl⟩⟩⟩, ?_⟩
        · simp [hdisposing]
        · rintro next ⟨⟩
          exact leadsTo_disposed _
  | dropIdle idle =>
      refine ⟨?_, by rintro next ⟨⟩⟩
      rcases h with hu | ⟨r, hs⟩
      · exact .inl ⟨hu.loops, rfl, hu.disposing, hu.status⟩
      · refine .inr ⟨r, hs.loops, hs.fits, .inr ⟨rfl, ?_⟩⟩
        rcases hs.holder with ⟨hrunning, -⟩ | ⟨-, hdisposing | ⟨hnil, -⟩⟩
        · rw [idle] at hrunning
          cases hrunning
        · exact .inl hdisposing
        · exact .inr ⟨hnil, .inl rfl⟩
  | @dropRunning n running =>
      rcases h.started_of_running running with ⟨r, hs⟩
      rcases hs.running running with ⟨rfl, hnil⟩
      refine ⟨.inr ⟨{ r with stopping := true }, ?_, hs.fits,
        .inr ⟨rfl, .inr ⟨hnil, .inl rfl⟩⟩⟩, by rintro next ⟨⟩⟩
      simp [modifyLoop, hs.loops]

theorem stageOf_modifyLoop (l : Link) (m n : Nat) {f : RunLoop → RunLoop}
    (hf : ∀ r, (f r).stage = r.stage) : (l.modifyLoop m f).stageOf n = l.stageOf n := by
  simp only [stageOf, modifyLoop, List.getElem?_modify]
  cases l.loops[n]? with
  | none => rfl
  | some r =>
      by_cases hm : m = n
      · simp [hm, hf]
      · simp [hm]

/-- No call takes a session from a loop, or gives it one. -/
theorem Call.session_eq {l l' : Link} {c : Event} {st : Option LinkStatus} (h : Call l c l' st)
    (n : Nat) : (l'.stageOf n).session? = (l.stageOf n).session? := by
  cases h with
  | spawn dropped idle unfinished =>
      by_cases hlt : n < l.loops.length
      · simp [stageOf, List.getElem?_append_left hlt]
      · have hnone : l.loops[n]? = none := List.getElem?_eq_none (Nat.le_of_not_lt hlt)
        -- The loop that is started holds no session yet.
        simp only [stageOf, List.getElem?_append_right (Nat.le_of_not_lt hlt), hnone]
        cases n - l.loops.length <;> rfl
  | @ask m dropped running =>
      have hsame := l.stageOf_modifyLoop m n (f := fun r => { r with stopping := true }) fun _ => rfl
      exact congrArg Stage.session? hsame
  | @dropRunning m running =>
      rw [stageOf_modifyLoop (f := fun r => { r with stopping := true }) _ m n fun _ => rfl]
      rfl
  | _ => rfl

theorem Call.holds {l l' : Link} {c : Event} {st : Option LinkStatus} (h : Call l c l' st)
    {session : Nat} (hh : l.Holds session) : l'.Holds session := by
  rcases hh with ⟨n, hn⟩
  exact ⟨n, (h.session_eq n).trans hn⟩

/-- No call brings a link back that came to its end. -/
theorem Call.isFinal {l l' : Link} {c : Event} {st : Option LinkStatus} (h : Call l c l' st)
    (hfinal : l.status.isFinal = true) : l'.status.isFinal = true := by
  cases h with
  | refuse => rfl
  | disposeIdle => rfl
  | disposed => rfl
  | _ => exact hfinal

theorem Call.status_eq {l l' : Link} {c : Event} {st : Option LinkStatus} (h : Call l c l' st) :
    l'.status = st.getD l.status := by
  cases h <;> rfl

/-- A run loop was started, or refused, or the link was disposed of. -/
def Begun (l : Link) : Prop :=
  l.loops ≠ [] ∨ l.status.isFinal = true

theorem Call.begun {l l' : Link} {c : Event} {st : Option LinkStatus} (h : Call l c l' st)
    (hbegun : l.Begun) : l'.Begun := by
  rcases hbegun with hloops | hfinal
  · left
    cases h with
    | spawn => simp
    | ask => simpa [modifyLoop] using hloops
    | dropRunning => simpa [modifyLoop] using hloops
    | _ => exact hloops
  · exact .inr (h.isFinal hfinal)

theorem begun_of_connect {l : Link} {now : Nat} (h : (l.step now .connect).1 ≠ l) :
    (l.step now .connect).1.Begun := by
  rcases l.called_connect now with hsame | ⟨l', st, hcall, heq⟩
  · rw [hsame] at h
    exact absurd rfl h
  · rw [heq]
    cases hcall with
    | refuse => exact .inr rfl
    | spawn => exact .inl (by simp)

/-- Once begun, and while no `dispose` waits, a call of `connect` does nothing. -/
theorem Orderly.step_connect {l : Link} (h : l.Orderly) (hbegun : l.Begun)
    (nil : l.disposing = []) (now : Nat) : l.step now .connect = (l, []) := by
  have hnot : ¬ (l.Unstarted ∧ l.status = .idle) := by
    rintro ⟨hu, hidle⟩
    rcases hbegun with hloops | hfinal
    · exact hloops hu.loops
    · rw [hidle] at hfinal
      cases hfinal
  rcases l.called_connect now with hsame | ⟨l', st, hcall, -⟩
  · exact hsame
  · cases hcall with
    | refuse dropped idle unfinished => exact absurd (h.unstarted dropped idle nil unfinished) hnot
    | spawn dropped idle unfinished => exact absurd (h.unstarted dropped idle nil unfinished) hnot

end Link

end LiveFeed
