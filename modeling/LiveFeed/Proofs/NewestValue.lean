import LiveFeed.Proofs.CellSteps

/-!
# The value of a cell

The fetches of a cell end in any order, with a value, with nothing or broken off, and some are given
up.  Whatever the order, the cell has the value of the newest fetch that brought one while no newer
fetch had been issued.

* `Hub.BringsNewest`: an event ends a fetch with a value before a newer fetch was issued;
* `Hub.brings_lt_brings`: such fetches end in the order in which they were issued;
* `Hub.value_eq_newest`: the value of a cell in every reachable state.
-/

namespace LiveFeed

variable {ρ ν : Type}

namespace Cell

/-- No fetch on its way is newer than the cell's count of them. -/
def Bounded (c : Cell ρ ν) : Prop :=
  ∀ f ∈ c.flights, f.generation ≤ c.generation

/-- A fetch was issued and is not on its way any more. -/
def Spent (c : Cell ρ ν) (g : Nat) : Prop :=
  g ≤ c.generation ∧ ∀ f ∈ c.flights, f.generation ≠ g

theorem isFlying_iff {c : Cell ρ ν} {g : Nat} :
    c.isFlying g = true ↔ ∃ f ∈ c.flights, f.generation = g := by
  simp [isFlying]

theorem generation_le_of_isFlying {c : Cell ρ ν} {g : Nat} (hb : c.Bounded)
    (hg : c.isFlying g = true) : g ≤ c.generation := by
  rcases isFlying_iff.1 hg with ⟨f, hf, rfl⟩
  exact hb f hf

end Cell

namespace Hub

open Cell (Bounded Spent)

theorem Change.generation_le {i : Nat} {e : Event ρ ν} {c c' : Cell ρ ν} :
    Change i e c c' → c.generation ≤ c'.generation := by
  intro h
  cases h with
  | keep alike _ => exact Nat.le_of_eq alike.generation.symm
  | issue request alike =>
      rw [alike.generation, Cell.generation_issue]
      exact Nat.le_succ _
  | land generation landing _ => exact Nat.le_of_eq (Cell.generation_land c _ _).symm

theorem Change.bounded {i : Nat} {e : Event ρ ν} {c c' : Cell ρ ν} :
    Change i e c c' → Bounded c → Bounded c' := by
  intro h hb f hf
  cases h with
  | keep alike _ =>
      rw [alike.flights] at hf
      rw [alike.generation]
      exact hb f hf
  | issue request alike =>
      rw [alike.flights, Cell.mem_flights_issue] at hf
      rw [alike.generation, Cell.generation_issue]
      rcases hf with rfl | ⟨hf, -⟩
      · exact Nat.le_refl _
      · exact Nat.le_succ_of_le (hb f hf)
  | land generation landing _ =>
      rw [Cell.generation_land]
      exact hb f ((Cell.mem_flights_land c _ _ f).1 hf).1

theorem Change.spent {i : Nat} {e : Event ρ ν} {c c' : Cell ρ ν} {g : Nat} :
    Change i e c c' → Spent c g → Spent c' g := by
  intro h hs
  refine ⟨Nat.le_trans hs.1 h.generation_le, ?_⟩
  intro f hf
  cases h with
  | keep alike _ =>
      rw [alike.flights] at hf
      exact hs.2 f hf
  | issue request alike =>
      rw [alike.flights, Cell.mem_flights_issue] at hf
      rcases hf with rfl | ⟨hf, -⟩
      · -- The new fetch is newer than any that was issued before.
        have := hs.1
        simp only
        omega
      · exact hs.2 f hf
  | land generation landing _ => exact hs.2 f ((Cell.mem_flights_land c _ _ f).1 hf).1

/-! ## Fetches of a run -/

/-- The fetch `g` of cell `i` is on its way. -/
def Flies (h : Hub ρ ν) (i g : Nat) : Prop :=
  ∃ c, h.cells[i]? = some c ∧ c.isFlying g = true

/-- The fetch `g` of cell `i` was issued before event `n` of a run. -/
def IssuedBefore (events : List (Event ρ ν)) (i g n : Nat) : Prop :=
  ∃ m, m ≤ n ∧ ((empty : Hub ρ ν).after events m).Flies i g

/-- Event `n` of a run ends the fetch `g` of cell `i` with the value `v`, and no newer fetch of the
cell was issued before. -/
structure BringsNewest (events : List (Event ρ ν)) (i g : Nat) (v : ν) (n : Nat) : Prop where
  event : events[n]? = some (.land i g (.value v))
  flies : ((empty : Hub ρ ν).after events n).Flies i g
  newest : ∀ g', IssuedBefore events i g' n → g' ≤ g

/-- Event `n` of a run ends the fetch `g` of cell `i` and stores what it brought. -/
def Stores (events : List (Event ρ ν)) (i g n : Nat) : Prop :=
  ∃ landing c c', events[n]? = some (.land i g landing) ∧
    ((empty : Hub ρ ν).after events n).cells[i]? = some c ∧
    ((empty : Hub ρ ν).after events (n + 1)).cells[i]? = some c' ∧ c.version < c'.version

theorem bounded_after {events : List (Event ρ ν)} {i n : Nat} {c : Cell ρ ν}
    (hc : ((empty : Hub ρ ν).after events n).cells[i]? = some c) : Bounded c := by
  refine cell_induction (motive := fun _ c => Bounded c) ?_ ?_ ?_ hc
  · intro n topic aborting _ f hf
    simp [Cell.create] at hf
  · intro n e c c' _ _ _ hchange hb
    exact hchange.bounded hb
  · intro n c _ hb
    exact hb

theorem exists_cell_of_le {events : List (Event ρ ν)} {i m n : Nat} (hmn : m ≤ n) {c : Cell ρ ν}
    (hc : ((empty : Hub ρ ν).after events m).cells[i]? = some c) :
    ∃ c', ((empty : Hub ρ ν).after events n).cells[i]? = some c' ∧
      c.generation ≤ c'.generation :=
  exists_after_of_stable (P := fun c' => c.generation ≤ c'.generation)
    (fun _ _ _ hchange hle => Nat.le_trans hle hchange.generation_le) _ _ hmn
    ⟨c, hc, Nat.le_refl _⟩

theorem generation_le_of_issuedBefore {events : List (Event ρ ν)} {i g n : Nat} {c : Cell ρ ν}
    (hc : ((empty : Hub ρ ν).after events n).cells[i]? = some c) :
    IssuedBefore events i g n → g ≤ c.generation := by
  rintro ⟨m, hmn, d, hd, hg⟩
  -- Counts only grow, and the fetch was counted when it was seen.
  rcases exists_cell_of_le hmn hd with ⟨c', hc', hle⟩
  obtain rfl : c' = c := Option.some.inj (hc'.symm.trans hc)
  exact Nat.le_trans (Cell.generation_le_of_isFlying (bounded_after hd) hg) hle

/-- A cell's count of fetches is the number of one that was issued, unless none was. -/
theorem issuedBefore_generation {events : List (Event ρ ν)} {i n : Nat} {c : Cell ρ ν}
    (hc : ((empty : Hub ρ ν).after events n).cells[i]? = some c) :
    c.generation = 0 ∨ IssuedBefore events i c.generation n := by
  have later : ∀ {g n : Nat}, IssuedBefore events i g n → IssuedBefore events i g (n + 1) := by
    rintro g n ⟨m, hmn, hm⟩
    exact ⟨m, Nat.le_succ_of_le hmn, hm⟩
  refine cell_induction
    (motive := fun n c => c.generation = 0 ∨ IssuedBefore events i c.generation n) ?_ ?_ ?_ hc
  · intro n topic aborting _
    exact .inl rfl
  · intro n e c c' _ _ hc' hchange hold
    cases hchange with
    | keep alike _ =>
        rw [alike.generation]
        exact hold.imp_right later
    | issue request alike =>
        -- The fetch that is issued is seen right after the event.
        refine .inr ⟨n + 1, Nat.le_refl _, c', hc', Cell.isFlying_iff.2 ?_⟩
        refine ⟨⟨c.generation + 1, request⟩, ?_, ?_⟩
        · rw [alike.flights]
          exact (Cell.mem_flights_issue c request _).2 (.inl rfl)
        · rw [alike.generation, Cell.generation_issue]
    | land generation landing _ =>
        rw [Cell.generation_land]
        exact hold.imp_right later
  · intro n c _ hold
    exact hold.imp_right later

/-- No newer fetch was issued than one on its way if and only if that is the last one counted. -/
theorem newest_iff {events : List (Event ρ ν)} {i g n : Nat} {c : Cell ρ ν}
    (hc : ((empty : Hub ρ ν).after events n).cells[i]? = some c) (hg : c.isFlying g = true) :
    (∀ g', IssuedBefore events i g' n → g' ≤ g) ↔ g = c.generation := by
  have hle : g ≤ c.generation := Cell.generation_le_of_isFlying (bounded_after hc) hg
  constructor
  · intro hnewest
    -- The last fetch that was counted was issued, so it is not newer.
    rcases issuedBefore_generation hc with h0 | hissued
    · omega
    · exact Nat.le_antisymm hle (hnewest _ hissued)
  · rintro rfl g' hissued
    exact generation_le_of_issuedBefore hc hissued

/-! ## What is stored -/

theorem BringsNewest.cells_succ {events : List (Event ρ ν)} {i g n : Nat} {v : ν}
    (h : BringsNewest events i g v n) :
    ∃ c, ((empty : Hub ρ ν).after events n).cells[i]? = some c ∧ g = c.generation ∧
      ((empty : Hub ρ ν).after events (n + 1)).cells[i]? = some ((c.without g).store v) := by
  rcases h.flies with ⟨c, hc, hg⟩
  have hgen : g = c.generation := (newest_iff hc hg).1 h.newest
  refine ⟨c, hc, hgen, ?_⟩
  rw [(empty : Hub ρ ν).after_succ h.event, step, land, getElem?_modifyCell, if_pos rfl, hc]
  subst hgen
  exact congrArg some (Cell.land_newest hg v)

/-- Only the end of the newest fetch with a value changes what a cell keeps. -/
theorem keeps_of_not_brings {events : List (Event ρ ν)} {i n : Nat} {e : Event ρ ν}
    {c c' : Cell ρ ν} (he : events[n]? = some e)
    (hc : ((empty : Hub ρ ν).after events n).cells[i]? = some c) (hchange : Change i e c c')
    (hnot : ∀ g v, ¬ BringsNewest events i g v n) :
    c'.value = c.value ∧ c'.version = c.version := by
  cases hchange with
  | keep alike _ => exact ⟨alike.value, alike.version⟩
  | issue request alike =>
      rw [alike.value, alike.version, Cell.value_issue, Cell.version_issue]
      exact ⟨rfl, rfl⟩
  | land g landing hevent =>
      cases hg : c.isFlying g with
      | false =>
          rw [Cell.land_of_not_isFlying hg]
          exact ⟨rfl, rfl⟩
      | true =>
          rcases Cell.land_of_isFlying hg landing with hl | ⟨v, rfl, hgen, -⟩
          · rw [hl]
            exact ⟨rfl, rfl⟩
          · -- A value of the newest fetch would have been stored.
            have hbrings : BringsNewest events i g v n :=
              ⟨by rw [he, hevent], ⟨c, hc, hg⟩, (newest_iff hc hg).2 hgen⟩
            exact absurd hbrings (hnot g v)

/-- Fetches that bring the newest value end in the order in which they were issued. -/
theorem brings_lt_brings {events : List (Event ρ ν)} {i g g' n n' : Nat} {v v' : ν}
    (h : BringsNewest events i g v n) (h' : BringsNewest events i g' v' n') (hlt : n < n') :
    g < g' := by
  rcases h.cells_succ with ⟨c, hc, hgen, hsucc⟩
  -- Once it has ended, a fetch is never on its way again.
  have hspent : Spent ((c.without g).store v) g := by
    refine ⟨Nat.le_of_eq hgen, ?_⟩
    intro f hf
    simpa [Cell.without, Cell.store] using (List.mem_filter.1 hf).2
  rcases exists_after_of_stable (P := fun c => Spent c g) (fun _ _ _ hchange => hchange.spent)
    (empty : Hub ρ ν) events hlt ⟨_, hsucc, hspent⟩ with ⟨d, hd, hle, hnot⟩
  rcases h'.flies with ⟨d', hd', hg'⟩
  -- The later one was counted after the earlier one was spent, and is another.
  obtain rfl : d' = d := Option.some.inj (hd'.symm.trans hd)
  have hgen' : g' = d'.generation := (newest_iff hd' hg').1 h'.newest
  rcases Cell.isFlying_iff.1 hg' with ⟨f, hf, hfg⟩
  have hne : g' ≠ g := hfg ▸ hnot f hf
  omega

theorem stores_iff {events : List (Event ρ ν)} {i g n : Nat} :
    Stores events i g n ↔ ∃ v, BringsNewest events i g v n := by
  constructor
  · rintro ⟨landing, c, c', he, hc, hc', hlt⟩
    rcases Classical.em (∃ v, BringsNewest events i g v n) with hb | hnot
    · exact hb
    · have hnone : ∀ g' v, ¬ BringsNewest events i g' v n := by
        intro g' v hb
        have hsame := hb.event
        rw [he] at hsame
        cases hsame
        exact hnot ⟨v, hb⟩
      rcases exists_change hc (.land i g landing) with ⟨d, hd, hchange⟩
      rw [← (empty : Hub ρ ν).after_succ he] at hd
      obtain rfl : d = c' := Option.some.inj (hd.symm.trans hc')
      -- Nothing else would have changed the version.
      have hversion := (keeps_of_not_brings he hc hchange hnone).2
      omega
  · rintro ⟨v, hb⟩
    rcases hb.cells_succ with ⟨c, hc, -, hsucc⟩
    exact ⟨.value v, c, _, hb.event, hc, hsucc, Nat.lt_succ_self _⟩

/-- Before event `n` of a run nothing was brought to cell `i` and it keeps nothing, or it keeps what
was brought last. -/
def KeepsLast (events : List (Event ρ ν)) (i n : Nat) (c : Cell ρ ν) : Prop :=
  (c.value = none ∧ ∀ g v m, m < n → ¬ BringsNewest events i g v m) ∨
    ∃ g v m, m < n ∧ BringsNewest events i g v m ∧ c.value = some v ∧
      ∀ g' v' m', m' < n → BringsNewest events i g' v' m' → m' ≤ m

theorem KeepsLast.succ {events : List (Event ρ ν)} {i n : Nat} {c c' : Cell ρ ν}
    (hvalue : c'.value = c.value) (hnot : ∀ g v, ¬ BringsNewest events i g v n) :
    KeepsLast events i n c → KeepsLast events i (n + 1) c' := by
  have earlier : ∀ {g v m}, m < n + 1 → BringsNewest events i g v m → m < n := by
    intro g v m hm hb
    refine Nat.lt_of_le_of_ne (Nat.le_of_lt_succ hm) ?_
    rintro rfl
    exact hnot g v hb
  rintro (⟨hnone, hold⟩ | ⟨g, v, m, hm, hb, hv, hlast⟩)
  · refine .inl ⟨hvalue.trans hnone, ?_⟩
    intro g v m hm hb
    exact hold g v m (earlier hm hb) hb
  · refine .inr ⟨g, v, m, Nat.lt_succ_of_lt hm, hb, hvalue.trans hv, ?_⟩
    intro g' v' m' hm' hb'
    exact hlast g' v' m' (earlier hm' hb') hb'

theorem keepsLast_after {events : List (Event ρ ν)} {i n : Nat} {c : Cell ρ ν}
    (hc : ((empty : Hub ρ ν).after events n).cells[i]? = some c) : KeepsLast events i n c := by
  refine cell_induction (motive := KeepsLast events i) ?_ ?_ ?_ hc
  · intro n topic aborting hnone
    refine .inl ⟨rfl, ?_⟩
    intro g v m hm hb
    -- A cell that something was brought to would still be there.
    rcases hb.flies with ⟨d, hd, -⟩
    rcases exists_cell_of_le (Nat.le_of_lt_succ hm) hd with ⟨d', hd', -⟩
    rw [hnone] at hd'
    cases hd'
  · intro n e c c' he hc hc' hchange hold
    -- Either this event stores a value, and it is the last one, or the last one stays.
    by_cases hbrings : ∃ g v, BringsNewest events i g v n
    · rcases hbrings with ⟨g, v, hb⟩
      rcases hb.cells_succ with ⟨d, -, -, hsucc⟩
      obtain rfl : (d.without g).store v = c' := Option.some.inj (hsucc.symm.trans hc')
      exact .inr ⟨g, v, n, Nat.lt_succ_self n, hb, rfl,
        fun _ _ _ hm _ => Nat.le_of_lt_succ hm⟩
    · have hnot : ∀ g v, ¬ BringsNewest events i g v n := fun g v hb => hbrings ⟨g, v, hb⟩
      exact hold.succ (keeps_of_not_brings he hc hchange hnot).1 hnot
  · intro n c he hold
    refine hold.succ rfl ?_
    intro g v hb
    have hevent := hb.event
    rw [he] at hevent
    cases hevent

theorem lt_length_of_brings {events : List (Event ρ ν)} {i g n : Nat} {v : ν}
    (h : BringsNewest events i g v n) : n < events.length :=
  (List.getElem?_eq_some_iff.1 h.event).1

theorem brings_unique {events : List (Event ρ ν)} {i g g' n : Nat} {v v' : ν}
    (h : BringsNewest events i g v n) (h' : BringsNewest events i g' v' n) : g' = g ∧ v' = v := by
  have hsame := h.event.symm.trans h'.event
  cases hsame
  exact ⟨rfl, rfl⟩

/-- Of what was brought to cell `i` before event `n` of a run, the newest is the value `v` of the fetch
`g`. -/
structure BroughtLast (events : List (Event ρ ν)) (i g : Nat) (v : ν) (n : Nat) : Prop where
  brought : ∃ m, m < n ∧ BringsNewest events i g v m
  newest : ∀ g' v' m, m < n → BringsNewest events i g' v' m → g' ≤ g

theorem value_iff_broughtLast {events : List (Event ρ ν)} {i n : Nat} {c : Cell ρ ν}
    (hc : ((empty : Hub ρ ν).after events n).cells[i]? = some c) (v : ν) :
    c.value = some v ↔ ∃ g, BroughtLast events i g v n := by
  rcases keepsLast_after hc with ⟨hnone, hno⟩ | ⟨g, w, m, hm, hb, hw, hlast⟩
  · constructor
    · intro hv
      rw [hnone] at hv
      cases hv
    · rintro ⟨g, ⟨⟨m, hm, hb⟩, -⟩⟩
      exact absurd hb (hno g v m hm)
  · -- What ended last is newest, because the fetches end in the order of their numbers.
    have hnewest : ∀ g' v' m', m' < n → BringsNewest events i g' v' m' → g' ≤ g := by
      intro g' v' m' hm' hb'
      rcases Nat.lt_or_eq_of_le (hlast g' v' m' hm' hb') with hlt | rfl
      · exact Nat.le_of_lt (brings_lt_brings hb' hb hlt)
      · exact Nat.le_of_eq (brings_unique hb hb').1
    constructor
    · intro hv
      obtain rfl : w = v := Option.some.inj (hw.symm.trans hv)
      exact ⟨g, ⟨m, hm, hb⟩, hnewest⟩
    · rintro ⟨g', ⟨⟨m', hm', hb'⟩, hnewest'⟩⟩
      rcases Nat.lt_or_eq_of_le (hlast g' v m' hm' hb') with hlt | rfl
      · -- One that ended earlier would not be the newest.
        have hlt' := brings_lt_brings hb' hb hlt
        have hle := hnewest' g w m hm hb
        omega
      · rw [hw, (brings_unique hb hb').2]

theorem value_eq_some_iff {events : List (Event ρ ν)} {i : Nat} {c : Cell ρ ν}
    (hc : ((empty : Hub ρ ν).run events).cells[i]? = some c) (v : ν) :
    c.value = some v ↔ ∃ g n, BringsNewest events i g v n ∧
      ∀ g' v' n', BringsNewest events i g' v' n' → g' ≤ g := by
  rw [← after_length] at hc
  rw [value_iff_broughtLast hc v]
  -- Whatever is brought in a run is brought before its end.
  constructor
  · rintro ⟨g, ⟨⟨n, -, hb⟩, hnewest⟩⟩
    exact ⟨g, n, hb, fun g' v' n' hb' => hnewest g' v' n' (lt_length_of_brings hb') hb'⟩
  · rintro ⟨g, n, hb, hnewest⟩
    exact ⟨g, ⟨n, lt_length_of_brings hb, hb⟩, fun g' v' n' _ hb' => hnewest g' v' n' hb'⟩

theorem value_eq_none_iff {events : List (Event ρ ν)} {i : Nat} {c : Cell ρ ν}
    (hc : ((empty : Hub ρ ν).run events).cells[i]? = some c) :
    c.value = none ↔ ∀ g v n, ¬ BringsNewest events i g v n := by
  rw [← after_length] at hc
  rcases keepsLast_after hc with ⟨hnone, hno⟩ | ⟨g, w, n, -, hb, hw, -⟩
  · exact ⟨fun _ g v n hb => hno g v n (lt_length_of_brings hb) hb, fun _ => hnone⟩
  · constructor
    · intro hnone
      rw [hnone] at hw
      cases hw
    · intro hno
      exact absurd hb (hno g w n)

theorem exists_stores_of_ne {events : List (Event ρ ν)} {i n : Nat} {c c' : Cell ρ ν}
    (hc : ((empty : Hub ρ ν).after events n).cells[i]? = some c)
    (hc' : ((empty : Hub ρ ν).after events (n + 1)).cells[i]? = some c')
    (hne : c'.value ≠ c.value ∨ c'.version ≠ c.version) : ∃ g, Stores events i g n := by
  rcases (empty : Hub ρ ν).after_succ_cases events n with ⟨e, he, hstep⟩ | ⟨-, hsame⟩
  · rcases exists_change hc e with ⟨d, hd, hchange⟩
    rw [← hstep] at hd
    obtain rfl : d = c' := Option.some.inj (hd.symm.trans hc')
    rcases Classical.em (∃ g v, BringsNewest events i g v n) with ⟨g, v, hb⟩ | hnot
    · exact ⟨g, stores_iff.2 ⟨v, hb⟩⟩
    · have hkeeps := keeps_of_not_brings he hc hchange fun g v hb => hnot ⟨g, v, hb⟩
      rcases hne with hne | hne
      · exact absurd hkeeps.1 hne
      · exact absurd hkeeps.2 hne
  · rw [hsame, hc] at hc'
    cases hc'
    rcases hne with hne | hne
    · exact absurd rfl hne
    · exact absurd rfl hne

/-- In every reachable state a cell has the value of the newest fetch that brought one while no newer
fetch had been issued, and none if there is no such fetch.  Nothing else is ever stored, and what is
stored comes from newer and newer fetches. -/
theorem value_eq_newest (events : List (Event ρ ν)) (i : Nat) (c : Cell ρ ν)
    (hc : ((empty : Hub ρ ν).run events).cells[i]? = some c) :
    (∀ v, c.value = some v ↔ ∃ g n, BringsNewest events i g v n ∧
        ∀ g' v' n', BringsNewest events i g' v' n' → g' ≤ g) ∧
      (c.value = none ↔ ∀ g v n, ¬ BringsNewest events i g v n) ∧
      (∀ n d d', ((empty : Hub ρ ν).after events n).cells[i]? = some d →
        ((empty : Hub ρ ν).after events (n + 1)).cells[i]? = some d' →
        d'.value ≠ d.value ∨ d'.version ≠ d.version → ∃ g, Stores events i g n) ∧
      (∀ g n, Stores events i g n ↔ ∃ v, BringsNewest events i g v n) ∧
      ∀ g n g' n', Stores events i g n → Stores events i g' n' → n < n' → g < g' := by
  refine ⟨value_eq_some_iff hc, value_eq_none_iff hc, ?_, fun g n => stores_iff, ?_⟩
  · intro n d d' hd hd' hne
    exact exists_stores_of_ne hd hd' hne
  · intro g n g' n' hs hs' hlt
    rcases stores_iff.1 hs with ⟨v, hb⟩
    rcases stores_iff.1 hs' with ⟨v', hb'⟩
    exact brings_lt_brings hb hb' hlt

/-- Two fetches of a plain cell, of which the older one ends last, and a third that breaks off. -/
def overtaken : List (Event Unit Nat) :=
  [.create .user false, .observe 0 (), .update 0 (), .land 0 2 (.value 7), .notify .user, .call (),
    .land 0 1 (.value 5), .land 0 3 .crash]

theorem value_overtaken :
    ∃ c, ((empty : Hub Unit Nat).run overtaken).cells[0]? = some c ∧ c.value = some 7 ∧
      c.generation = 3 ∧ ∃ g n, BringsNewest overtaken 0 g 7 n ∧
        ∀ g' v' n', BringsNewest overtaken 0 g' v' n' → g' ≤ g := by
  refine ⟨_, rfl, rfl, rfl, ?_⟩
  exact ((value_eq_newest overtaken 0 _ rfl).1 7).1 rfl

end Hub

end LiveFeed
