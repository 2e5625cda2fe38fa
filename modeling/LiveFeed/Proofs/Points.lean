import LiveFeed.System

/-!
# Points of a run

A run is a list of events.  Its point `n` is the state in which event `n` finds a hub or a system, so
that a run of `k` events has the points `0` to `k`, and the last one is where the run ends.

* `seen`: what is seen of a run, event by event;
* `Hub.after`, `System.after`: the points of a run;
* `Hub.after_succ`, `System.after_succ`: from one point to the next;
* `System.after_induction`: induction over the points of a run.
-/

namespace LiveFeed

theorem foldl_take_succ {σ ε : Type} (step : σ → ε → σ) (s : σ) {events : List ε} {n : Nat} {e : ε}
    (h : events[n]? = some e) :
    (events.take (n + 1)).foldl step s = step ((events.take n).foldl step s) e := by
  rw [List.take_add_one, h, List.foldl_append]
  rfl

/-- Changing an element in what a function does not see changes nothing to that function. -/
theorem map_modify_eq {α β : Type} {f : α → α} {g : α → β} (hf : ∀ a, g (f a) = g a)
    (xs : List α) (i : Nat) : (xs.modify i f).map g = xs.map g := by
  refine List.ext_getElem? fun j => ?_
  rw [List.getElem?_map, List.getElem?_map, List.getElem?_modify]
  split <;> cases xs[j]? <;> simp [hf]

/-- What is seen of a run, event by event, each in the state that it finds. -/
def seen {σ ε α : Type} (step : σ → ε → σ) (see : σ → ε → List α) : σ → List ε → List α
  | _, [] => []
  | s, e :: events => see s e ++ seen step see (step s e) events

theorem seen_append {σ ε α : Type} (step : σ → ε → σ) (see : σ → ε → List α) (s : σ)
    (events more : List ε) :
    seen step see s (events ++ more) =
      seen step see s events ++ seen step see (events.foldl step s) more := by
  induction events generalizing s with
  | nil => rfl
  | cons e events ih => rw [List.cons_append, seen, seen, ih, List.append_assoc, List.foldl_cons]

theorem seen_concat {σ ε α : Type} (step : σ → ε → σ) (see : σ → ε → List α) (s : σ)
    (events : List ε) (e : ε) :
    seen step see s (events ++ [e]) = seen step see s events ++ see (events.foldl step s) e := by
  simpa [seen] using seen_append step see s events [e]

namespace Hub

variable {ρ ν : Type}

/-- The hub at point `n` of a run. -/
def after (h : Hub ρ ν) (events : List (Event ρ ν)) (n : Nat) : Hub ρ ν :=
  h.run (events.take n)

theorem after_zero (h : Hub ρ ν) (events : List (Event ρ ν)) : h.after events 0 = h := rfl

theorem after_length (h : Hub ρ ν) (events : List (Event ρ ν)) :
    h.after events events.length = h.run events := by
  rw [after, List.take_length]

theorem after_succ (h : Hub ρ ν) {events : List (Event ρ ν)} {n : Nat} {e : Event ρ ν}
    (he : events[n]? = some e) : h.after events (n + 1) = (h.after events n).step e :=
  foldl_take_succ step h he

/-- The points of what is left of a run at some point are the points from there on. -/
theorem after_add (h : Hub ρ ν) (events : List (Event ρ ν)) (m n : Nat) :
    h.after events (m + n) = (h.after events m).after (events.drop m) n := by
  rw [after, after, after, run, run, run, ← List.foldl_append, List.take_add]

/-- A point is followed by the state after an event, or the run is over. -/
theorem after_succ_cases (h : Hub ρ ν) (events : List (Event ρ ν)) (n : Nat) :
    (∃ e, events[n]? = some e ∧ h.after events (n + 1) = (h.after events n).step e) ∨
      events[n]? = none ∧ h.after events (n + 1) = h.after events n := by
  cases he : events[n]? with
  | some e => exact .inl ⟨e, rfl, h.after_succ he⟩
  | none =>
      refine .inr ⟨rfl, ?_⟩
      rw [after, after, List.take_add_one, he, Option.toList_none, List.append_nil]

end Hub

namespace System

variable {ρ ν : Type}

/-- The system at point `n` of a run. -/
def after (s : System ρ ν) (events : List (Event ρ ν)) (n : Nat) : System ρ ν :=
  s.run (events.take n)

theorem after_zero (s : System ρ ν) (events : List (Event ρ ν)) : s.after events 0 = s := rfl

theorem after_length (s : System ρ ν) (events : List (Event ρ ν)) :
    s.after events events.length = s.run events := by
  rw [after, List.take_length]

theorem after_succ (s : System ρ ν) {events : List (Event ρ ν)} {n : Nat} {e : Event ρ ν}
    (he : events[n]? = some e) : s.after events (n + 1) = (s.after events n).step e :=
  foldl_take_succ step s he

/-- A point is followed by the state after an event, or the run is over. -/
theorem after_succ_cases (s : System ρ ν) (events : List (Event ρ ν)) (n : Nat) :
    (∃ e, events[n]? = some e ∧ s.after events (n + 1) = (s.after events n).step e) ∨
      events[n]? = none ∧ s.after events (n + 1) = s.after events n := by
  cases he : events[n]? with
  | some e => exact .inl ⟨e, rfl, s.after_succ he⟩
  | none =>
      refine .inr ⟨rfl, ?_⟩
      rw [after, after, List.take_add_one, he, Option.toList_none, List.append_nil]

/-- What holds at one point of a run and is kept by every event holds at every later point. -/
theorem after_induction {s : System ρ ν} {events : List (Event ρ ν)} {motive : System ρ ν → Prop}
    {m n : Nat} (hmn : m ≤ n) (start : motive (s.after events m))
    (keep : ∀ k e, m ≤ k → k < n → events[k]? = some e → motive (s.after events k) →
      motive ((s.after events k).step e)) : motive (s.after events n) := by
  induction hmn with
  | refl => exact start
  | @step n hmn ih =>
      have hn := ih fun k e hmk hkn => keep k e hmk (Nat.lt_succ_of_lt hkn)
      rcases s.after_succ_cases events n with ⟨e, he, hstep⟩ | ⟨-, hsame⟩
      · rw [hstep]
        exact keep n e hmn (Nat.lt_succ_self n) he hn
      · rw [hsame]
        exact hn

end System

end LiveFeed
