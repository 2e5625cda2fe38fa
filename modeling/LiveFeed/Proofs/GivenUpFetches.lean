import LiveFeed.Proofs.NewestValue

/-!
# Fetches that are given up

An aborting cell gives up a fetch that is overtaken, and nobody can tell: what such a fetch would have
brought is dropped anyway.  Two runs that differ in nothing but which cells are aborting look alike at
every point, as long as the owners hold their cells.

* `Cell.face`: what others can tell of a cell;
* `Hub.LooksLike`, `Hub.LooksLike.step`: hubs that look alike still do after the same event;
* `Hub.SameToOthers`, `Hub.GivesUpOvertaken`: what that means, and what is given up;
* `Hub.aborting_unnoticed`: both hold of every run.
-/

namespace LiveFeed

variable {ρ ν : Type}

namespace Cell

/-- What others can tell of a cell: nothing of fetches that were overtaken, of updates that wait, and
of what the cell does about either. -/
def face (c : Cell ρ ν) : Cell ρ ν :=
  { c with
    aborting := false
    flights := c.flights.filter fun f => f.generation = c.generation
    awaited := [] }

/-- When a fetch is issued it is the only one that others can tell of. -/
theorem face_issue {c : Cell ρ ν} (hb : c.Bounded) (request : ρ) :
    (c.issue request).face = { c.face with
      generation := c.generation + 1
      flights := [⟨c.generation + 1, request⟩] } := by
  have hold : ∀ flights : List (Flight ρ), (∀ f ∈ flights, f ∈ c.flights) →
      flights.filter (fun f => f.generation = c.generation + 1) = [] := by
    intro flights hsub
    refine List.filter_eq_nil_iff.2 ?_
    intro f hf
    have := hb f (hsub f hf)
    simp only [decide_eq_true_eq]
    omega
  unfold issue without
  split
  · have hkept := hold (c.flights.filter fun f => f.generation != c.generation)
      fun f hf => (List.mem_filter.1 hf).1
    simp [face, hkept]
  · simp [face, hold c.flights fun f hf => hf]

theorem face_issue_congr {c c' : Cell ρ ν} (hb : c.Bounded) (hb' : c'.Bounded)
    (heq : c'.face = c.face) (request : ρ) : (c'.issue request).face = (c.issue request).face := by
  have hgen : c'.generation = c.generation := (congrArg generation heq :)
  rw [face_issue hb', face_issue hb, heq, hgen]

theorem isFlying_face (c : Cell ρ ν) (generation : Nat) :
    c.face.isFlying generation = true ↔
      c.isFlying generation = true ∧ generation = c.generation := by
  rw [isFlying_iff, isFlying_iff]
  constructor
  · rintro ⟨f, hf, rfl⟩
    rcases List.mem_filter.1 hf with ⟨hmem, hgen⟩
    exact ⟨⟨f, hmem, rfl⟩, of_decide_eq_true hgen⟩
  · rintro ⟨⟨f, hf, rfl⟩, hgen⟩
    exact ⟨f, List.mem_filter.2 ⟨hf, decide_eq_true hgen⟩, rfl⟩

theorem face_without (c : Cell ρ ν) (generation : Nat) :
    (c.without generation).face = c.face.without generation := by
  have hcomm : (c.flights.filter fun f => f.generation != generation).filter
        (fun f => decide (f.generation = c.generation)) =
      (c.flights.filter fun f => decide (f.generation = c.generation)).filter
        fun f => f.generation != generation := by
    rw [List.filter_filter, List.filter_filter]
    exact List.filter_congr fun f _ => Bool.and_comm _ _
  exact congrArg (fun flights => { c with aborting := false, flights := flights, awaited := [] }) hcomm

theorem without_eq_self {c : Cell ρ ν} {generation : Nat} (h : ¬ c.isFlying generation = true) :
    c.without generation = c := by
  have hall : c.flights.filter (fun f => f.generation != generation) = c.flights := by
    refine List.filter_eq_self.2 ?_
    intro f hf
    have hne : f.generation ≠ generation := fun heq => h (isFlying_iff.2 ⟨f, hf, heq⟩)
    simpa using hne
  rw [without, hall]

/-- The end of a fetch is to others what it would be without those that were overtaken. -/
theorem face_land (c : Cell ρ ν) (generation : Nat) (landing : Landing ν) :
    (c.land generation landing).face = c.face.land generation landing := by
  cases hfly : c.isFlying generation with
  | false =>
      have hface : c.face.isFlying generation = false := by
        rw [Bool.eq_false_iff, ne_eq, isFlying_face, hfly]
        simp
      rw [land_of_not_isFlying hfly, land_of_not_isFlying hface]
  | true =>
      by_cases hgen : generation = c.generation
      · have hface : c.face.isFlying generation = true := (isFlying_face c _).2 ⟨hfly, hgen⟩
        have hgen' : generation = c.face.generation := hgen
        cases landing with
        | value v =>
            have hstored : c.land generation (.value v) = (c.without generation).store v := by
              rw [hgen] at hfly ⊢
              exact land_newest hfly v
            have hstored' : c.face.land generation (.value v) =
                (c.face.without generation).store v := by
              rw [hgen'] at hface ⊢
              exact land_newest hface v
            rw [hstored, hstored', ← face_without]
            rfl
        | nothing | crash => simp [land, hfly, hface, face_without]
      · -- What an overtaken fetch brings is dropped, and others cannot tell that it ended.
        have hface : ¬ c.face.isFlying generation = true := fun h =>
          hgen ((isFlying_face c _).1 h).2
        have hdropped : c.land generation landing = c.without generation := by
          rcases land_of_isFlying hfly landing with heq | ⟨v, -, heq, -⟩
          · exact heq
          · exact absurd heq hgen
        rw [hdropped, face_without, without_eq_self hface,
          land_of_not_isFlying (Bool.not_eq_true _ ▸ hface)]

@[simp] theorem aborting_issue (c : Cell ρ ν) (request : ρ) :
    (c.issue request).aborting = c.aborting := by
  unfold issue without
  split <;> rfl

/-- Nothing is on its way but the fetch issued last, if that. -/
def OnlyNewest (c : Cell ρ ν) : Prop :=
  c.flights = [] ∨ ∃ request, c.flights = [⟨c.generation, request⟩]

theorem aborting_land (c : Cell ρ ν) (generation : Nat) (landing : Landing ν) :
    (c.land generation landing).aborting = c.aborting := by
  cases h : c.isFlying generation with
  | false => rw [land_of_not_isFlying h]
  | true => rcases land_of_isFlying h landing with hl | ⟨v, -, -, hl⟩ <;> rw [hl] <;> rfl

theorem flights_land (c : Cell ρ ν) (generation : Nat) (landing : Landing ν) :
    (c.land generation landing).flights =
      c.flights.filter fun f => f.generation != generation := by
  cases h : c.isFlying generation with
  | false =>
      have hwithout : c.without generation = c := without_eq_self (Bool.eq_false_iff.1 h)
      rw [land_of_not_isFlying h]
      exact (congrArg flights hwithout).symm
  | true => rcases land_of_isFlying h landing with hl | ⟨v, -, -, hl⟩ <;> rw [hl] <;> rfl

end Cell

namespace Hub

/-! ## Hubs that look alike -/

/-- Two hubs that differ in nothing but what others cannot tell of their cells. -/
structure LooksLike (h h' : Hub ρ ν) : Prop where
  registry : h'.registry = h.registry
  handed : h'.handed = h.handed
  cells : h'.cells.map Cell.face = h.cells.map Cell.face
  observers : h'.observers = h.observers
  nextObserver : h'.nextObserver = h.nextObserver
  fanOuts : h'.fanOuts = h.fanOuts

theorem LooksLike.refl (h : Hub ρ ν) : h.LooksLike h := ⟨rfl, rfl, rfl, rfl, rfl, rfl⟩

/-- A cell of one of them looks like the one of the other, or there is none in either. -/
theorem LooksLike.cell_cases {h h' : Hub ρ ν} (hl : h.LooksLike h') (i : Nat) :
    (h.cells[i]? = none ∧ h'.cells[i]? = none) ∨
      ∃ c c', h.cells[i]? = some c ∧ h'.cells[i]? = some c' ∧ c'.face = c.face := by
  have hface : (h'.cells[i]?).map Cell.face = (h.cells[i]?).map Cell.face := by
    rw [← List.getElem?_map, ← List.getElem?_map, hl.cells]
  cases hc : h.cells[i]? with
  | none =>
      rw [hc] at hface
      exact .inl ⟨rfl, Option.map_eq_none_iff.1 hface⟩
  | some c =>
      rw [hc] at hface
      rcases Option.map_eq_some_iff.1 hface with ⟨c', hc', heq⟩
      exact .inr ⟨c, c', rfl, hc', heq⟩

/-- When the same cell changes in both, they look alike if the two cells do. -/
theorem LooksLike.modifyCell {h h' : Hub ρ ν} (hl : h.LooksLike h') (i : Nat)
    {f f' : Cell ρ ν → Cell ρ ν}
    (hf : ∀ c c', h.cells[i]? = some c → h'.cells[i]? = some c' → c'.face = c.face →
      (f' c').face = (f c).face) : (h.modifyCell i f).LooksLike (h'.modifyCell i f') := by
  refine ⟨hl.registry, hl.handed, ?_, hl.observers, hl.nextObserver, hl.fanOuts⟩
  refine List.ext_getElem? fun j => ?_
  rw [List.getElem?_map, List.getElem?_map, getElem?_modifyCell, getElem?_modifyCell]
  rcases hl.cell_cases j with ⟨hc, hc'⟩ | ⟨c, c', hc, hc', heq⟩
  · simp [hc, hc']
  · by_cases hj : i = j
    · subst hj
      simpa [hc, hc'] using hf c c' hc hc' heq
    · simpa [hc, hc', hj] using heq

/-- A change of what others can tell of a cell is the same in both. -/
theorem LooksLike.change {h h' : Hub ρ ν} (hl : h.LooksLike h') (i : Nat)
    {f g : Cell ρ ν → Cell ρ ν} (hf : ∀ c, (f c).face = g c.face) :
    (h.modifyCell i f).LooksLike (h'.modifyCell i f) := by
  refine hl.modifyCell i ?_
  intro c c' _ _ heq
  rw [hf, hf, heq]

/-- No fetch on its way is newer than what its cell issued last. -/
def Bounded (h : Hub ρ ν) : Prop :=
  ∀ (i : Nat) (c : Cell ρ ν), h.cells[i]? = some c → c.Bounded

theorem LooksLike.awaken {h h' : Hub ρ ν} (hl : h.LooksLike h') (hb : h.Bounded) (hb' : h'.Bounded)
    (i : Nat) (topic : Topic) (request : ρ) :
    (h.awaken i topic request).LooksLike (h'.awaken i topic request) := by
  have hregistry : h'.registry.register topic (.cell i) = h.registry.register topic (.cell i) := by
    rw [hl.registry]
  have hl' : LooksLike { h with registry := h.registry.register topic (.cell i) }
      { h' with registry := h'.registry.register topic (.cell i) } :=
    ⟨hregistry, hl.handed, hl.cells, hl.observers, hl.nextObserver, hl.fanOuts⟩
  refine hl'.modifyCell i ?_
  intro c c' hc hc' heq
  rw [hl.registry]
  -- A registration is nothing to the fetches of a cell.
  have hregistered : ({ c' with registration := some h.registry.nextId } : Cell ρ ν).face =
      ({ c with registration := some h.registry.nextId } : Cell ρ ν).face :=
    congrArg (fun d => { d with registration := some h.registry.nextId }) heq
  have hbound : ({ c with registration := some h.registry.nextId } : Cell ρ ν).Bounded := hb i c hc
  have hbound' : ({ c' with registration := some h.registry.nextId } : Cell ρ ν).Bounded :=
    hb' i c' hc'
  exact Cell.face_issue_congr hbound hbound' hregistered request

theorem LooksLike.observe {h h' : Hub ρ ν} (hl : h.LooksLike h') (hb : h.Bounded)
    (hb' : h'.Bounded) (i : Nat) (request : ρ) :
    (h.observe i request).LooksLike (h'.observe i request) := by
  rcases hl.cell_cases i with ⟨hc, hc'⟩ | ⟨c, c', hc, hc', heq⟩
  · simpa [Hub.observe, hc, hc'] using hl
  · have howned : c'.owned = c.owned := (congrArg Cell.owned heq :)
    have hcount : c'.observers = c.observers := (congrArg Cell.observers heq :)
    have htopic : c'.topic = c.topic := (congrArg Cell.topic heq :)
    have hversion : c'.version = c.version := (congrArg Cell.version heq :)
    -- One more observer counts alike in both.
    have hmore : ∀ {k k' : Hub ρ ν}, k.LooksLike k' →
        (k.modifyCell i fun c => { c with observers := c.observers + 1 }).LooksLike
          (k'.modifyCell i fun c => { c with observers := c.observers + 1 }) := fun hk =>
      hk.change i (g := fun c => { c with observers := c.observers + 1 }) fun _ => rfl
    unfold Hub.observe
    simp only [hc, hc', howned, hcount, htopic, hversion]
    split
    · exact hl
    · split
      · have hk := hl.awaken hb hb' i c.topic request
        have hk' := hmore hk
        refine ⟨hk'.registry, hk'.handed, hk'.cells, ?_, ?_, hk'.fanOuts⟩
        · rw [hk.observers, hk.nextObserver]
        · rw [hk.nextObserver]
      · have hk' := hmore hl
        refine ⟨hk'.registry, hk'.handed, hk'.cells, ?_, ?_, hk'.fanOuts⟩
        · rw [hl.observers, hl.nextObserver]
        · rw [hl.nextObserver]

theorem LooksLike.observer? {h h' : Hub ρ ν} (hl : h.LooksLike h') (id : Nat) :
    h'.observer? id = h.observer? id := by
  rw [Hub.observer?, Hub.observer?, hl.observers]

theorem LooksLike.unobserve {h h' : Hub ρ ν} (hl : h.LooksLike h') (id : Nat) :
    (h.unobserve id).LooksLike (h'.unobserve id) := by
  have hrest : LooksLike { h with observers := h.observers.filter fun p => p.id ≠ id }
      { h' with observers := h'.observers.filter fun p => p.id ≠ id } := by
    refine ⟨hl.registry, hl.handed, hl.cells, ?_, hl.nextObserver, hl.fanOuts⟩
    rw [hl.observers]
  unfold Hub.unobserve
  rw [hl.observer?]
  cases h.observer? id with
  | none => exact hl
  | some o =>
      rcases hl.cell_cases o.cell with ⟨hc, hc'⟩ | ⟨c, c', hc, hc', heq⟩
      · simpa only [hc, hc'] using hrest
      · have hcount : c'.observers = c.observers := (congrArg Cell.observers heq :)
        have htopic : c'.topic = c.topic := (congrArg Cell.topic heq :)
        have hregistration : c'.registration = c.registration := (congrArg Cell.registration heq :)
        have hless := hrest.change o.cell (f := fun c => { c with observers := c.observers - 1 })
          (g := fun c => { c with observers := c.observers - 1 }) fun _ => rfl
        simp only [hc, hc', hcount]
        split
        · -- The last one takes the cell off the registry, in both by the same number.
          unfold retire
          rw [hregistration, htopic]
          cases c.registration with
          | none => exact hless
          | some r =>
              have hunregistered := hless.change o.cell
                (f := fun c => { c with registration := none })
                (g := fun c => { c with registration := none }) fun _ => rfl
              refine ⟨?_, hunregistered.handed, hunregistered.cells, hunregistered.observers,
                hunregistered.nextObserver, hunregistered.fanOuts⟩
              exact congrArg (·.unregister r c.topic) hless.registry
        · exact hless

theorem LooksLike.poll {h h' : Hub ρ ν} (hl : h.LooksLike h') (id : Nat) :
    (h.poll id).LooksLike (h'.poll id) := by
  refine ⟨hl.registry, hl.handed, hl.cells, ?_, hl.nextObserver, hl.fanOuts⟩
  unfold Hub.poll
  simp only [hl.observers]
  refine List.map_congr_left ?_
  intro o _
  rcases hl.cell_cases o.cell with ⟨hc, hc'⟩ | ⟨c, c', hc, hc', heq⟩
  · rw [hc, hc']
  · have hversion : c'.version = c.version := (congrArg Cell.version heq :)
    rw [hc, hc']
    simp only [hversion]

theorem LooksLike.update {h h' : Hub ρ ν} (hl : h.LooksLike h') (hb : h.Bounded) (hb' : h'.Bounded)
    (i : Nat) (request : ρ) : (h.update i request).LooksLike (h'.update i request) := by
  refine hl.modifyCell i ?_
  intro c c' hc hc' heq
  have howned : c'.owned = c.owned := (congrArg Cell.owned heq :)
  simp only [howned]
  split
  · -- Others cannot tell that the update waits.
    exact Cell.face_issue_congr (hb i c hc) (hb' i c' hc') heq request
  · exact heq

/-- A cell that its owner holds issues a fetch whenever it is called.  Without its owner a plain cell
could live on through a fetch that was overtaken, and issue one where an aborting cell is gone. -/
theorem LooksLike.call {h h' : Hub ρ ν} (hl : h.LooksLike h') (hb : h.Bounded) (hb' : h'.Bounded)
    (howned : ∀ (i : Nat) (c : Cell ρ ν), h.cells[i]? = some c → c.owned = true) (request : ρ) :
    (h.call request).LooksLike (h'.call request) := by
  unfold Hub.call
  rw [hl.fanOuts]
  split
  · next r pending ran outer hf =>
      split
      · next i hr =>
          have hissued : (h.modifyCell i fun c => if c.isAlive then c.issue request else c).LooksLike
              (h'.modifyCell i fun c => if c.isAlive then c.issue request else c) := by
            refine hl.modifyCell i ?_
            intro c c' hc hc' heq
            have hc'owned : c'.owned = c.owned := (congrArg Cell.owned heq :)
            have halive : c.isAlive = true := by simp [Cell.isAlive, howned i c hc]
            have halive' : c'.isAlive = true := by simp [Cell.isAlive, hc'owned, howned i c hc]
            rw [if_pos halive, if_pos halive']
            exact Cell.face_issue_congr (hb i c hc) (hb' i c' hc') heq request
          exact ⟨hissued.registry, hissued.handed, hissued.cells, hissued.observers,
            hissued.nextObserver, rfl⟩
      · exact ⟨hl.registry, hl.handed, hl.cells, hl.observers, hl.nextObserver, rfl⟩
  · exact hl

theorem LooksLike.withFanOuts {h h' : Hub ρ ν} (hl : h.LooksLike h') (fanOuts : List FanOut) :
    LooksLike { h with fanOuts := fanOuts } { h' with fanOuts := fanOuts } :=
  ⟨hl.registry, hl.handed, hl.cells, hl.observers, hl.nextObserver, rfl⟩

theorem LooksLike.fanOut {h h' : Hub ρ ν} (hl : h.LooksLike h')
    (snapshot : List (Registration Callee)) : (h.fanOut snapshot).LooksLike (h'.fanOut snapshot) := by
  unfold Hub.fanOut
  rw [hl.fanOuts]
  exact hl.withFanOuts _

/-- An event without a say in whether a cell gives up what is overtaken. -/
def Event.plain : Event ρ ν → Event ρ ν
  | .create topic _ => .create topic false
  | e => e

theorem plain_eq_cases {e e' : Event ρ ν} (h : e.plain = e'.plain) :
    e' = e ∨ ∃ topic aborting aborting', e = .create topic aborting ∧ e' = .create topic aborting' := by
  cases e <;> cases e' <;> simp_all [Event.plain]

theorem LooksLike.create {h h' : Hub ρ ν} (hl : h.LooksLike h') (topic : Topic)
    (aborting aborting' : Bool) : (h.create topic aborting).LooksLike (h'.create topic aborting') := by
  refine ⟨hl.registry, hl.handed, ?_, hl.observers, hl.nextObserver, hl.fanOuts⟩
  simp [Hub.create, hl.cells, Cell.face, Cell.create]

/-- All cells are held by their owners. -/
def Held (h : Hub ρ ν) : Prop :=
  ∀ (i : Nat) (c : Cell ρ ν), h.cells[i]? = some c → c.owned = true

/-- Hubs that look alike still do after events that differ in no more than whether a new cell is
aborting. -/
theorem LooksLike.step {h h' : Hub ρ ν} (hl : h.LooksLike h') (hb : h.Bounded) (hb' : h'.Bounded)
    (hheld : h.Held) {e e' : Event ρ ν} (hplain : e.plain = e'.plain) :
    (h.step e).LooksLike (h'.step e') := by
  rcases plain_eq_cases hplain with rfl | ⟨topic, aborting, aborting', rfl, rfl⟩
  · cases e' with
    | create topic aborting => exact hl.create topic aborting aborting
    -- Who holds a cell is seen by others, so it changes alike in both.
    | disown i => exact hl.change i (g := fun c => { c with owned := false }) fun _ => rfl
    | observe i request => exact hl.observe hb hb' i request
    | unobserve id => exact hl.unobserve id
    | poll id => exact hl.poll id
    | update i request => exact hl.update hb hb' i request
    | land i generation landing =>
        exact hl.change i (g := fun c => c.land generation landing) fun c =>
          Cell.face_land c generation landing
    | join i generation =>
        -- An update that returns is nothing to others.
        refine hl.change i (g := id) fun c => ?_
        split <;> rfl
    | register topic label =>
        refine ⟨?_, ?_, hl.cells, hl.observers, hl.nextObserver, hl.fanOuts⟩
        · exact congrArg (·.register topic (.plain label)) hl.registry
        · simp only [Hub.step, register, hl.handed, hl.registry]
    | unregister id topic =>
        simp only [Hub.step, unregister, hl.handed]
        split
        · exact ⟨congrArg (·.unregister id topic) hl.registry, rfl, hl.cells, hl.observers,
            hl.nextObserver, hl.fanOuts⟩
        · exact hl
    | notify topic =>
        simp only [Hub.step, hl.registry]
        exact hl.fanOut _
    | notifyAll =>
        simp only [Hub.step, hl.registry]
        exact hl.fanOut _
    | call request => exact hl.call hb hb' hheld request
    | leave crashed =>
        simp only [Hub.step, leave, hl.fanOuts]
        split
        · exact hl.withFanOuts _
        · exact hl
    | finish =>
        simp only [Hub.step, finish, hl.fanOuts]
        split
        · exact hl.withFanOuts _
        · exact hl
  · exact hl.create topic aborting aborting'

theorem Held.modifyCell {h : Hub ρ ν} (hheld : h.Held) (i : Nat) {f : Cell ρ ν → Cell ρ ν}
    (hf : ∀ c, (f c).owned = c.owned) : (h.modifyCell i f).Held := by
  intro j c hc
  rw [getElem?_modifyCell] at hc
  split at hc
  · rcases Option.map_eq_some_iff.1 hc with ⟨d, hd, rfl⟩
    rw [hf]
    exact hheld j d hd
  · exact hheld j c hc

theorem Held.step {h : Hub ρ ν} (hheld : h.Held) {e : Event ρ ν} (hkept : ∀ i, e ≠ .disown i) :
    (h.step e).Held := by
  cases e with
  | create topic aborting =>
      intro i c hc
      rcases List.mem_append.1 (List.mem_of_getElem? hc) with hmem | hmem
      · rcases List.mem_iff_getElem?.1 hmem with ⟨j, hj⟩
        exact hheld j c hj
      · rw [List.mem_singleton.1 hmem]
        rfl
  | disown i => exact absurd rfl (hkept i)
  | observe i request =>
      rcases observe_cases h i request with heq | ⟨d, -, ⟨-, heq⟩ | ⟨-, heq⟩⟩
      · rw [Hub.step, heq]
        exact hheld
      · rw [Hub.step, heq]
        exact hheld.modifyCell i (f := fun c => c.wake _ request) fun c => c.owned_wake _ request
      · rw [Hub.step, heq]
        exact hheld.modifyCell i (f := fun c => { c with observers := c.observers + 1 }) fun _ => rfl
  | unobserve id =>
      rcases unobserve_cases h id with
        ⟨heq, -⟩ | ⟨o, -, ⟨-, heq⟩ | ⟨d, -, ⟨-, heq⟩ | ⟨r, -, -, heq⟩⟩⟩
      · rw [Hub.step, heq]
        exact hheld
      · rw [Hub.step, heq]
        exact hheld
      · rw [Hub.step, heq]
        exact hheld.modifyCell o.cell (f := fun c => { c with observers := c.observers - 1 })
          fun _ => rfl
      · rw [Hub.step, heq]
        exact hheld.modifyCell o.cell
          (f := fun c => { c with observers := c.observers - 1, registration := none }) fun _ => rfl
  | poll id => exact hheld
  | update i request =>
      refine hheld.modifyCell i fun c => ?_
      split
      · exact c.owned_issue request
      · rfl
  | land i generation landing =>
      exact hheld.modifyCell i fun c => c.owned_land generation landing
  | join i generation =>
      refine hheld.modifyCell i fun c => ?_
      split <;> rfl
  | register topic label => exact hheld
  | unregister id topic =>
      rw [Hub.step, unregister]
      split <;> exact hheld
  | notify topic => exact hheld
  | notifyAll => exact hheld
  | call request =>
      rcases call_cases h request with heq | ⟨_, _, _, _, -, ⟨j, -, heq⟩ | ⟨_, -, heq⟩⟩
      · rw [Hub.step, heq]
        exact hheld
      · rw [Hub.step, heq]
        refine hheld.modifyCell j (f := fun c => if c.isAlive then c.issue request else c) fun c => ?_
        split
        · exact c.owned_issue request
        · rfl
      · rw [Hub.step, heq]
        exact hheld
  | leave crashed =>
      rw [Hub.step, leave]
      split <;> exact hheld
  | finish =>
      rw [Hub.step, finish]
      split <;> exact hheld

/-! ## Two runs -/

section TwoRuns

variable {events events' : List (Event ρ ν)}

theorem plain_getElem? (hplain : events.map Event.plain = events'.map Event.plain) (n : Nat) :
    (events[n]?).map Event.plain = (events'[n]?).map Event.plain := by
  rw [← List.getElem?_map, ← List.getElem?_map, hplain]

theorem held_after (hkept : ∀ i, Event.disown i ∉ events) (n : Nat) :
    ((empty : Hub ρ ν).after events n).Held := by
  induction n with
  | zero =>
      intro i c hc
      simp [after_zero, empty] at hc
  | succ n ih =>
      rcases (empty : Hub ρ ν).after_succ_cases events n with ⟨e, he, hstep⟩ | ⟨-, hsame⟩
      · rw [hstep]
        refine ih.step fun i heq => ?_
        exact hkept i (heq ▸ List.mem_of_getElem? he)
      · rw [hsame]
        exact ih

/-- Two runs with the same events, which may make cells that abort or do not, look alike at every
point. -/
theorem looksLike_after (hplain : events.map Event.plain = events'.map Event.plain)
    (hkept : ∀ i, Event.disown i ∉ events) (n : Nat) :
    ((empty : Hub ρ ν).after events n).LooksLike ((empty : Hub ρ ν).after events' n) := by
  induction n with
  | zero => exact .refl _
  | succ n ih =>
      have hevent := plain_getElem? hplain n
      rcases (empty : Hub ρ ν).after_succ_cases events n with ⟨e, he, hstep⟩ | ⟨he, hsame⟩ <;>
        rcases (empty : Hub ρ ν).after_succ_cases events' n with ⟨e', he', hstep'⟩ | ⟨he', hsame'⟩
      · rw [hstep, hstep']
        rw [he, he'] at hevent
        -- Both are points of runs, so no fetch is newer than what its cell issued last.
        exact ih.step (fun i c => bounded_after) (fun i c => bounded_after) (held_after hkept n)
          (Option.some.inj hevent)
      · simp [he, he'] at hevent
      · simp [he, he'] at hevent
      · rw [hsame, hsame']
        exact ih

/-- Event `n` of a run makes cell `i` issue the fetch `f`. -/
def Fetches (events : List (Event ρ ν)) (i : Nat) (f : Flight ρ) (n : Nat) : Prop :=
  ∃ c', ((empty : Hub ρ ν).after events (n + 1)).cells[i]? = some c' ∧
    f ∈ c'.flights ∧ f.generation = c'.generation ∧
    ∀ c, ((empty : Hub ρ ν).after events n).cells[i]? = some c → c.generation < f.generation

/-- What others can tell of two runs is the same at every point: what is fetched and when, what is
stored and when, what every observer sees and hears of, and what is registered. -/
structure SameToOthers (events events' : List (Event ρ ν)) : Prop where
  fetches : ∀ i f n, Fetches events' i f n ↔ Fetches events i f n
  generations : ∀ n i : Nat, (((empty : Hub ρ ν).after events' n).cells[i]?).map Cell.generation =
    (((empty : Hub ρ ν).after events n).cells[i]?).map Cell.generation
  stores : ∀ i g n, Stores events' i g n ↔ Stores events i g n
  values : ∀ n i : Nat, (((empty : Hub ρ ν).after events' n).cells[i]?).map Cell.value =
    (((empty : Hub ρ ν).after events n).cells[i]?).map Cell.value
  observedValue : ∀ n id, ((empty : Hub ρ ν).after events' n).observedValue id =
    ((empty : Hub ρ ν).after events n).observedValue id
  hasChanged : ∀ n id, ((empty : Hub ρ ν).after events' n).hasChanged id =
    ((empty : Hub ρ ν).after events n).hasChanged id
  registry : ∀ n, ((empty : Hub ρ ν).after events' n).registry =
    ((empty : Hub ρ ν).after events n).registry

theorem LooksLike.map_cell {h h' : Hub ρ ν} (hl : h.LooksLike h') {α : Type} {see : Cell ρ ν → α}
    (hsee : ∀ c, see c.face = see c) (i : Nat) : (h'.cells[i]?).map see = (h.cells[i]?).map see := by
  rcases hl.cell_cases i with ⟨hc, hc'⟩ | ⟨c, c', hc, hc', heq⟩
  · rw [hc, hc']
  · rw [hc, hc', Option.map_some, Option.map_some, ← hsee c', heq, hsee]

theorem LooksLike.observedValue {h h' : Hub ρ ν} (hl : h.LooksLike h') (id : Nat) :
    h'.observedValue id = h.observedValue id := by
  rw [Hub.observedValue, Hub.observedValue, hl.observer?]
  cases h.observer? id with
  | none => rfl
  | some o =>
      rcases hl.cell_cases o.cell with ⟨hc, hc'⟩ | ⟨c, c', hc, hc', heq⟩
      · simp [hc, hc']
      · have hvalue : c'.value = c.value := (congrArg Cell.value heq :)
        simp [hc, hc', hvalue]

theorem LooksLike.hasChanged {h h' : Hub ρ ν} (hl : h.LooksLike h') (id : Nat) :
    h'.hasChanged id = h.hasChanged id := by
  rw [Hub.hasChanged, Hub.hasChanged, hl.observer?]
  cases h.observer? id with
  | none => rfl
  | some o =>
      rcases hl.cell_cases o.cell with ⟨hc, hc'⟩ | ⟨c, c', hc, hc', heq⟩
      · simp [hc, hc']
      · have hversion : c'.version = c.version := (congrArg Cell.version heq :)
        simp [hc, hc', hversion]

theorem mem_face_iff {c : Cell ρ ν} {f : Flight ρ} :
    f ∈ c.face.flights ↔ f ∈ c.flights ∧ f.generation = c.generation := by
  rw [Cell.face, List.mem_filter, decide_eq_true_iff]

/-- What one of two runs that look alike fetches, the other does. -/
theorem fetches_of_looksLike
    (hl : ∀ n, ((empty : Hub ρ ν).after events n).LooksLike ((empty : Hub ρ ν).after events' n))
    {i n : Nat} {f : Flight ρ} : Fetches events i f n → Fetches events' i f n := by
  rintro ⟨c, hc, hmem, hgen, hnew⟩
  rcases (hl (n + 1)).cell_cases i with ⟨hnone, -⟩ | ⟨d, c', hd, hc', heq⟩
  · rw [hc] at hnone
    cases hnone
  · obtain rfl : d = c := Option.some.inj (hd.symm.trans hc)
    -- The fetch issued last is one that others can tell of.
    have hface : f ∈ c'.face.flights := heq ▸ mem_face_iff.2 ⟨hmem, hgen⟩
    rcases mem_face_iff.1 hface with ⟨hmem', hgen'⟩
    refine ⟨c', hc', hmem', hgen', ?_⟩
    intro b' hb'
    rcases (hl n).cell_cases i with ⟨-, hnone⟩ | ⟨b, b'', hb, hb'', hbeq⟩
    · rw [hb'] at hnone
      cases hnone
    · obtain rfl : b'' = b' := Option.some.inj (hb''.symm.trans hb')
      calc b''.generation = b.generation := (congrArg Cell.generation hbeq :)
        _ < f.generation := hnew b hb

theorem stores_of_looksLike (hplain : events.map Event.plain = events'.map Event.plain)
    (hl : ∀ n, ((empty : Hub ρ ν).after events n).LooksLike ((empty : Hub ρ ν).after events' n))
    {i g n : Nat} : Stores events i g n → Stores events' i g n := by
  rintro ⟨landing, c, d, he, hc, hd, hlt⟩
  have hevent : events'[n]? = some (.land i g landing) := by
    have hmap := plain_getElem? hplain n
    rw [he] at hmap
    rcases Option.map_eq_some_iff.1 hmap.symm with ⟨e', he', heq⟩
    rcases plain_eq_cases heq.symm with rfl | ⟨_, _, _, hcreate, -⟩
    · exact he'
    · cases hcreate
  have hversion : ∀ {m : Nat} {b : Cell ρ ν},
      ((empty : Hub ρ ν).after events m).cells[i]? = some b →
      ∃ b', ((empty : Hub ρ ν).after events' m).cells[i]? = some b' ∧ b'.version = b.version := by
    intro m b hb
    rcases (hl m).cell_cases i with ⟨hnone, -⟩ | ⟨b₀, b', hb₀, hb', heq⟩
    · rw [hb] at hnone
      cases hnone
    · obtain rfl : b₀ = b := Option.some.inj (hb₀.symm.trans hb)
      exact ⟨b', hb', (congrArg Cell.version heq :)⟩
  rcases hversion hc with ⟨c', hc', hcv⟩
  rcases hversion hd with ⟨d', hd', hdv⟩
  exact ⟨landing, c', d', hevent, hc', hd', by rw [hcv, hdv]; exact hlt⟩

end TwoRuns

/-! ## What an aborting cell gives up -/

/-- Before event `n` of a run some event ended the fetch `g` of cell `i`, which was on its way. -/
def EndedBefore (events : List (Event ρ ν)) (i g n : Nat) : Prop :=
  ∃ m landing, m < n ∧ events[m]? = some (.land i g landing) ∧
    ((empty : Hub ρ ν).after events m).Flies i g

theorem EndedBefore.succ {events : List (Event ρ ν)} {i g n : Nat} :
    EndedBefore events i g n → EndedBefore events i g (n + 1) := by
  rintro ⟨m, landing, hm, hland⟩
  exact ⟨m, landing, Nat.lt_succ_of_lt hm, hland⟩

/-- Of the fetches of an aborting cell only the one issued last can be on its way, and in any cell
that one is on its way until it ends. -/
structure GivesUpOvertaken (events : List (Event ρ ν)) : Prop where
  onlyNewest : ∀ (n i : Nat) (c : Cell ρ ν),
    ((empty : Hub ρ ν).after events n).cells[i]? = some c → c.aborting = true → c.OnlyNewest
  newest : ∀ (n i : Nat) (c : Cell ρ ν),
    ((empty : Hub ρ ν).after events n).cells[i]? = some c →
      c.generation = 0 ∨ c.isFlying c.generation = true ∨ EndedBefore events i c.generation n

theorem Change.onlyNewest {i : Nat} {e : Event ρ ν} {c c' : Cell ρ ν} (hchange : Change i e c c')
    (hc : c.aborting = true → c.OnlyNewest) : c'.aborting = true → c'.OnlyNewest := by
  unfold Cell.OnlyNewest at hc ⊢
  cases hchange with
  | keep alike _ =>
      rw [alike.aborting, alike.flights, alike.generation]
      exact hc
  | issue request alike =>
      rw [alike.aborting, alike.flights, alike.generation, Cell.aborting_issue]
      intro ha
      refine .inr ⟨request, ?_⟩
      -- The one fetch that can be on its way is the one that is given up.
      rcases hc ha with hnone | ⟨last, hlast⟩
      · simp [Cell.issue, Cell.without, ha, hnone]
      · simp [Cell.issue, Cell.without, ha, hlast]
  | land generation landing _ =>
      rw [Cell.aborting_land, Cell.generation_land, Cell.flights_land]
      intro ha
      rcases hc ha with hnone | ⟨last, hlast⟩
      · exact .inl (by rw [hnone, List.filter_nil])
      · rw [hlast, List.filter_cons, List.filter_nil]
        split
        · exact .inr ⟨last, rfl⟩
        · exact .inl rfl

theorem onlyNewest_after {events : List (Event ρ ν)} {i n : Nat} {c : Cell ρ ν}
    (hc : ((empty : Hub ρ ν).after events n).cells[i]? = some c) :
    c.aborting = true → c.OnlyNewest := by
  refine cell_induction (motive := fun _ c => c.aborting = true → c.OnlyNewest) ?_ ?_ ?_ hc
  · intro n topic aborting _ _
    exact .inl rfl
  · intro n e c c' _ _ _ hchange hold
    exact hchange.onlyNewest hold
  · intro n c _ hold
    exact hold

theorem newest_flies_or_ended {events : List (Event ρ ν)} {i n : Nat} {c : Cell ρ ν}
    (hc : ((empty : Hub ρ ν).after events n).cells[i]? = some c) :
    c.generation = 0 ∨ c.isFlying c.generation = true ∨ EndedBefore events i c.generation n := by
  refine cell_induction (motive := fun n c => c.generation = 0 ∨ c.isFlying c.generation = true ∨
    EndedBefore events i c.generation n) ?_ ?_ ?_ hc
  · intro n topic aborting _
    exact .inl rfl
  · intro n e c c' he hd _ hchange hold
    cases hchange with
    | keep alike _ =>
        rw [alike.generation, Cell.isFlying, alike.flights, ← Cell.isFlying]
        exact hold.imp_right fun h => h.imp_right EndedBefore.succ
    | issue request alike =>
        refine .inr (.inl (Cell.isFlying_iff.2 ?_))
        rw [alike.generation, alike.flights]
        exact ⟨_, (Cell.mem_flights_issue c request _).2 (.inl rfl), rfl⟩
    | land generation landing hevent =>
        rw [Cell.generation_land]
        rcases hold with h0 | hfly | hended
        · exact .inl h0
        · by_cases hgen : generation = c.generation
          · refine .inr (.inr ⟨n, landing, Nat.lt_succ_self n, ?_, c, hd, hfly⟩)
            rw [he, hevent, hgen]
          · -- Another fetch ended, so that the last one is still on its way.
            rcases Cell.isFlying_iff.1 hfly with ⟨f, hf, hfg⟩
            refine .inr (.inl (Cell.isFlying_iff.2 ⟨f, ?_, hfg⟩))
            refine (Cell.mem_flights_land c _ _ f).2 ⟨hf, ?_⟩
            rw [hfg]
            exact Ne.symm hgen
        · exact .inr (.inr hended.succ)
  · intro n c _ hold
    exact hold.imp_right fun h => h.imp_right EndedBefore.succ

/-- Two runs with the same events, of which none takes a cell from its owner, are the same to others
whichever cells are aborting in either: the same fetches are issued and the same values stored at the
same points, every observer sees and hears of the same, and the same is registered.  An aborting cell
has no fetch on its way but the one it issued last, and that one is never given up. -/
theorem aborting_unnoticed (events events' : List (Event ρ ν))
    (hplain : events.map Event.plain = events'.map Event.plain)
    (hkept : ∀ i, Event.disown i ∉ events) :
    SameToOthers events events' ∧ GivesUpOvertaken events ∧ GivesUpOvertaken events' := by
  have hl := looksLike_after hplain hkept
  -- The other way round nothing is taken from its owner either.
  have hkept' : ∀ i, Event.disown i ∉ events' := by
    intro i hmem
    rcases List.mem_iff_getElem?.1 hmem with ⟨n, hn⟩
    have hmap := plain_getElem? hplain n
    rw [hn] at hmap
    rcases Option.map_eq_some_iff.1 hmap with ⟨e, he, heq⟩
    rcases plain_eq_cases heq with rfl | ⟨_, _, _, -, hcreate⟩
    · exact hkept i (List.mem_of_getElem? he)
    · cases hcreate
  have hl' := looksLike_after hplain.symm hkept'
  have hsame : SameToOthers events events' :=
    { fetches := fun i f n => ⟨fetches_of_looksLike hl', fetches_of_looksLike hl⟩
      generations := fun n i => (hl n).map_cell (fun _ => rfl) i
      stores := fun i g n =>
        ⟨stores_of_looksLike hplain.symm hl', stores_of_looksLike hplain hl⟩
      values := fun n i => (hl n).map_cell (fun _ => rfl) i
      observedValue := fun n id => (hl n).observedValue id
      hasChanged := fun n id => (hl n).hasChanged id
      registry := fun n => (hl n).registry }
  -- What is given up concerns one run, and not how it compares with another.
  have hgivesUp : ∀ events : List (Event ρ ν), GivesUpOvertaken events := fun events =>
    ⟨fun _ _ _ hc => onlyNewest_after hc, fun _ _ _ hc => newest_flies_or_ended hc⟩
  exact ⟨hsame, hgivesUp events, hgivesUp events'⟩

/-- A cell whose first fetch is overtaken and ends first, and which is given up or not. -/
def overtakenEarly (aborting : Bool) : List (Event Unit Nat) :=
  [.create .user aborting, .observe 0 (), .update 0 (), .land 0 1 (.value 5), .land 0 2 (.value 7),
    .poll 0]

theorem aborting_unnoticed_overtakenEarly :
    ((empty : Hub Unit Nat).after (overtakenEarly true) 3).cells.map (·.flights.length) = [1] ∧
      ((empty : Hub Unit Nat).after (overtakenEarly false) 3).cells.map (·.flights.length) = [2] ∧
      SameToOthers (overtakenEarly true) (overtakenEarly false) ∧
      GivesUpOvertaken (overtakenEarly true) ∧ GivesUpOvertaken (overtakenEarly false) := by
  refine ⟨rfl, rfl, aborting_unnoticed (overtakenEarly true) (overtakenEarly false) rfl ?_⟩
  intro i
  simp [overtakenEarly]

end Hub

end LiveFeed
