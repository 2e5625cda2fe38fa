import LiveFeed.Topic

/-!
# The registry of callbacks

Callbacks are registered under topics.  Those of one topic stand together in the order they were
registered; in which order the topics stand is nobody's business.  A topic without callbacks has no
entry.

* `Registry.under`, `Registry.all`: what a fan-out over one topic, or over all, will call;
* `Registry.under_register`, `Registry.under_unregister_of_ne`: what the operations do to every topic.
-/

namespace LiveFeed

/-- A callback under the number it can be removed by. -/
structure Registration (κ : Type) where
  id : Nat
  callback : κ
  deriving DecidableEq, Repr

/-- Callbacks by topic. -/
structure Registry (κ : Type) where
  groups : List (Topic × List (Registration κ))
  /-- The number of the next registration. -/
  nextId : Nat
  deriving DecidableEq, Repr

namespace Registry

variable {κ : Type}

/-- The registry without callbacks. -/
def empty : Registry κ := ⟨[], 0⟩

/-- Appends a registration to the group of a topic. -/
def append (t : Topic) (r : Registration κ) :
    List (Topic × List (Registration κ)) → List (Topic × List (Registration κ))
  | [] => [(t, [r])]
  | (s, rs) :: groups => if s = t then (s, rs ++ [r]) :: groups else (s, rs) :: append t r groups

/-- Adds a callback under a topic; its number is the registry's `nextId`. -/
def register (g : Registry κ) (t : Topic) (callback : κ) : Registry κ where
  groups := append t ⟨g.nextId, callback⟩ g.groups
  nextId := g.nextId + 1

/-- Removes a number from the group of a topic, and the group with its last member. -/
def remove (id : Nat) (t : Topic) :
    List (Topic × List (Registration κ)) → List (Topic × List (Registration κ))
  | [] => []
  | (s, rs) :: groups =>
    if s = t then
      match rs.filter fun r => r.id ≠ id with
      | [] => groups
      | r :: rest => (s, r :: rest) :: groups
    else (s, rs) :: remove id t groups

/-- Removes a callback; a number that is not registered under the topic changes nothing. -/
def unregister (g : Registry κ) (id : Nat) (t : Topic) : Registry κ :=
  { g with groups := remove id t g.groups }

/-- What is registered under a topic, in the order of registration. -/
def under (g : Registry κ) (t : Topic) : List (Registration κ) :=
  (g.groups.lookup t).getD []

/-- Everything registered, each topic in the order of registration. -/
def all (g : Registry κ) : List (Registration κ) :=
  g.groups.flatMap (·.2)

/-- How many callbacks are registered under a topic. -/
def count (g : Registry κ) (t : Topic) : Nat :=
  (g.under t).length

/-- Whether nothing is registered. -/
def isEmpty (g : Registry κ) : Bool :=
  g.groups.isEmpty

/-! ## What the operations do to a topic -/

theorem lookup_append (t s : Topic) (r : Registration κ)
    (groups : List (Topic × List (Registration κ))) :
    ((append t r groups).lookup s).getD [] =
      if s = t then (groups.lookup s).getD [] ++ [r] else (groups.lookup s).getD [] := by
  induction groups with
  | nil =>
    by_cases h : s = t
    · simp [append, h]
    · have hb : (s == t) = false := by simpa using h
      simp [append, List.lookup_cons, hb, h]
  | cons g rest ih =>
    obtain ⟨u, rs⟩ := g
    by_cases hu : u = t
    · subst hu
      by_cases hs : s = u
      · simp [append, hs]
      · have hb : (s == u) = false := by simpa using hs
        simp [append, List.lookup_cons, hb, hs]
    · rw [append, if_neg hu]
      by_cases hs : s = u
      · subst hs
        simp [hu]
      · have hb : (s == u) = false := by simpa using hs
        simp only [List.lookup_cons, hb]
        exact ih

theorem under_register (g : Registry κ) (t s : Topic) (callback : κ) :
    (g.register t callback).under s =
      if s = t then g.under s ++ [⟨g.nextId, callback⟩] else g.under s :=
  lookup_append t s _ g.groups

theorem under_unregister_of_ne (g : Registry κ) (id : Nat) {t s : Topic} (h : s ≠ t) :
    (g.unregister id t).under s = g.under s := by
  simp only [under, unregister]
  congr 1
  induction g.groups with
  | nil => rfl
  | cons e rest ih =>
    obtain ⟨u, rs⟩ := e
    by_cases hu : u = t
    · have hb : (s == u) = false := by
        rw [hu]
        simpa using h
      rw [remove, if_pos hu]
      split
      · rw [List.lookup_cons, hb]
      · rw [List.lookup_cons, List.lookup_cons, hb]
    · rw [remove, if_neg hu, List.lookup_cons, List.lookup_cons, ih]

end Registry

end LiveFeed
