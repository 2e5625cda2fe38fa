import LiveFeed.Registry

/-!
# Registrations as one list

The registry keeps a group of registrations for each topic.  Its entries are all of them in one list,
each with its topic: registering adds one entry, unregistering takes off those that match.

* `Registry.WellFormed`: no topic has two groups and no number stands for two registrations;
* `Registry.perm_entries_register`, `Registry.entries_unregister`: what the operations do to the
  entries;
* `Registry.under_eq`: what is registered under a topic, read off the entries;
* `Registry.Ordered`: under each topic the older registrations stand first.
-/

namespace LiveFeed

namespace Registry

variable {κ : Type}

/-- The registrations of some groups, each with its topic. -/
def flatten (groups : List (Topic × List (Registration κ))) : List (Topic × Registration κ) :=
  groups.flatMap fun p => p.2.map fun r => (p.1, r)

/-- Everything registered, each with its topic. -/
def entries (g : Registry κ) : List (Topic × Registration κ) :=
  flatten g.groups

/-- No topic has two groups, no number stands for two registrations, and the next one is fresh. -/
structure WellFormed (g : Registry κ) : Prop where
  topics : (g.groups.map (·.1)).Nodup
  ids : (g.entries.map (·.2.id)).Nodup
  bound : ∀ e ∈ g.entries, e.2.id < g.nextId

theorem flatten_cons (p : Topic × List (Registration κ))
    (groups : List (Topic × List (Registration κ))) :
    flatten (p :: groups) = (p.2.map fun r => (p.1, r)) ++ flatten groups := rfl

theorem map_entries (g : Registry κ) : g.entries.map (·.2) = g.all := by
  simp [entries, flatten, all, List.map_flatMap, Function.comp_def]

theorem mem_flatten_topic {groups : List (Topic × List (Registration κ))} {t : Topic}
    {r : Registration κ} (h : (t, r) ∈ flatten groups) : t ∈ groups.map (·.1) := by
  rcases List.mem_flatMap.1 h with ⟨p, hp, hr⟩
  rcases List.mem_map.1 hr with ⟨_, _, heq⟩
  cases heq
  exact List.mem_map.2 ⟨p, hp, rfl⟩

/-! ## Registering -/

theorem perm_flatten_append (t : Topic) (r : Registration κ)
    (groups : List (Topic × List (Registration κ))) :
    (flatten (append t r groups)).Perm (flatten groups ++ [(t, r)]) := by
  induction groups with
  | nil => exact .refl _
  | cons p groups ih =>
      obtain ⟨s, rs⟩ := p
      by_cases hs : s = t
      · subst hs
        -- The new entry stands behind its group, and in front of the groups that follow.
        rw [append, if_pos rfl, flatten_cons, flatten_cons, List.map_append, List.append_assoc,
          List.append_assoc]
        exact List.perm_append_comm.append_left _
      · rw [append, if_neg hs, flatten_cons, flatten_cons, List.append_assoc]
        exact ih.append_left _

theorem perm_entries_register (g : Registry κ) (t : Topic) (callback : κ) :
    (g.register t callback).entries.Perm (g.entries ++ [(t, ⟨g.nextId, callback⟩)]) :=
  perm_flatten_append t _ g.groups

theorem mem_topics_append {t : Topic} {r : Registration κ}
    {groups : List (Topic × List (Registration κ))} {s : Topic}
    (h : s ∈ (append t r groups).map (·.1)) : s = t ∨ s ∈ groups.map (·.1) := by
  induction groups with
  | nil => exact .inl (by simpa [append] using h)
  | cons p groups ih =>
      obtain ⟨u, rs⟩ := p
      by_cases hu : u = t
      · rw [append, if_pos hu] at h
        exact .inr h
      · rw [append, if_neg hu, List.map_cons] at h
        rcases List.mem_cons.1 h with rfl | h
        · exact .inr List.mem_cons_self
        · exact (ih h).imp_right (List.mem_cons_of_mem _)

theorem nodup_topics_append {groups : List (Topic × List (Registration κ))}
    (h : (groups.map (·.1)).Nodup) (t : Topic) (r : Registration κ) :
    ((append t r groups).map (·.1)).Nodup := by
  induction groups with
  | nil => simp [append]
  | cons p groups ih =>
      obtain ⟨u, rs⟩ := p
      rw [List.map_cons, List.nodup_cons] at h
      by_cases hu : u = t
      · -- A topic that has a group gets no second one.
        rw [append, if_pos hu, List.map_cons, List.nodup_cons]
        exact h
      · rw [append, if_neg hu, List.map_cons, List.nodup_cons]
        refine ⟨?_, ih h.2⟩
        intro hmem
        rcases mem_topics_append hmem with heq | hmem
        · exact hu heq
        · exact h.1 hmem

theorem WellFormed.register {g : Registry κ} (h : g.WellFormed) (t : Topic) (callback : κ) :
    (g.register t callback).WellFormed := by
  have hperm := g.perm_entries_register t callback
  refine ⟨nodup_topics_append h.topics t _, ?_, ?_⟩
  · rw [(hperm.map _).nodup_iff, List.map_append, List.nodup_append]
    refine ⟨h.ids, by simp, ?_⟩
    -- The number is beyond all that were given before.
    intro id hid id' hid'
    rcases List.mem_map.1 hid with ⟨e, he, rfl⟩
    have hlt := h.bound e he
    obtain rfl : id' = g.nextId := by simpa using hid'
    exact Nat.ne_of_lt hlt
  · intro e he
    rcases List.mem_append.1 (hperm.mem_iff.1 he) with he | he
    · exact Nat.lt_succ_of_lt (h.bound e he)
    · obtain rfl : e = (t, ⟨g.nextId, callback⟩) := by simpa using he
      exact Nat.lt_succ_self _

/-! ## Unregistering -/

theorem flatten_remove (id : Nat) (t : Topic) {groups : List (Topic × List (Registration κ))}
    (h : (groups.map (·.1)).Nodup) :
    flatten (remove id t groups) =
      (flatten groups).filter fun e => !(decide (e.1 = t) && decide (e.2.id = id)) := by
  induction groups with
  | nil => rfl
  | cons p groups ih =>
      obtain ⟨s, rs⟩ := p
      rw [List.map_cons, List.nodup_cons] at h
      rw [flatten_cons, List.filter_append, List.filter_map]
      by_cases hs : s = t
      · -- No other group is of this topic, so what follows stays as it is.
        have hrest : (flatten groups).filter
            (fun e => !(decide (e.1 = t) && decide (e.2.id = id))) = flatten groups := by
          refine List.filter_eq_self.2 ?_
          rintro ⟨u, r⟩ hr
          have hu : u ≠ t := by
            rintro rfl
            exact h.1 (hs ▸ mem_flatten_topic hr)
          simp [hu]
        have hgroup : rs.filter ((fun e => !(decide (e.1 = t) && decide (e.2.id = id))) ∘
            fun r => (s, r)) = rs.filter fun r => r.id ≠ id := by
          simp [Function.comp_def, hs]
        rw [remove, if_pos hs, hrest, hgroup]
        split
        · next hnil =>
            rw [hnil]
            rfl
        · next r rest hcons =>
            rw [hcons]
            rfl
      · have hgroup : rs.filter ((fun e => !(decide (e.1 = t) && decide (e.2.id = id))) ∘
            fun r => (s, r)) = rs := by
          simp [Function.comp_def, hs]
        rw [remove, if_neg hs, flatten_cons, ih h.2, hgroup]

theorem entries_unregister {g : Registry κ} (h : g.WellFormed) (id : Nat) (t : Topic) :
    (g.unregister id t).entries =
      g.entries.filter fun e => !(decide (e.1 = t) && decide (e.2.id = id)) :=
  flatten_remove id t h.topics

theorem sublist_topics_remove (id : Nat) (t : Topic)
    (groups : List (Topic × List (Registration κ))) :
    ((remove id t groups).map (·.1)).Sublist (groups.map (·.1)) := by
  induction groups with
  | nil => exact .refl _
  | cons p groups ih =>
      obtain ⟨s, rs⟩ := p
      by_cases hs : s = t
      · rw [remove, if_pos hs]
        split
        · exact List.sublist_cons_self _ _
        · exact .refl _
      · rw [remove, if_neg hs]
        exact ih.cons_cons s

theorem WellFormed.unregister {g : Registry κ} (h : g.WellFormed) (id : Nat) (t : Topic) :
    (g.unregister id t).WellFormed := by
  have hsub : (g.unregister id t).entries.Sublist g.entries := by
    rw [entries_unregister h]
    exact List.filter_sublist
  refine ⟨h.topics.sublist (sublist_topics_remove id t g.groups), ?_, ?_⟩
  · exact h.ids.sublist (hsub.map _)
  · intro e he
    exact h.bound e (hsub.subset he)

/-! ## What a fan-out calls -/

/-- The entries of a topic are what is registered under it, in the same order. -/
theorem under_eq {g : Registry κ} (h : g.WellFormed) (t : Topic) :
    g.under t = (g.entries.filter fun e => e.1 = t).map (·.2) := by
  have key : ∀ groups : List (Topic × List (Registration κ)), (groups.map (·.1)).Nodup →
      (groups.lookup t).getD [] = ((flatten groups).filter fun e => e.1 = t).map (·.2) := by
    intro groups
    induction groups with
    | nil => exact fun _ => rfl
    | cons p groups ih =>
        obtain ⟨s, rs⟩ := p
        intro hnodup
        rw [List.map_cons, List.nodup_cons] at hnodup
        rw [flatten_cons, List.filter_append, List.map_append, List.filter_map]
        by_cases hs : t = s
        · subst hs
          -- No later group is of this topic.
          have hrest : (flatten groups).filter (fun e => e.1 = t) = [] := by
            refine List.filter_eq_nil_iff.2 ?_
            rintro ⟨u, r⟩ hr hu
            obtain rfl : u = t := of_decide_eq_true hu
            exact hnodup.1 (mem_flatten_topic hr)
          have hgroup : rs.filter ((fun e => decide (e.1 = t)) ∘ fun r => (t, r)) = rs :=
            List.filter_eq_self.2 fun r _ => decide_eq_true rfl
          rw [hrest, hgroup]
          simp [Function.comp_def]
        · have hb : (t == s) = false := by simpa using hs
          rw [List.lookup_cons, hb, ih hnodup.2]
          simp [Function.comp_def, Ne.symm hs]
  exact key g.groups h.topics

theorem mem_under {g : Registry κ} (h : g.WellFormed) {t : Topic} {r : Registration κ}
    (hr : (t, r) ∈ g.entries) : r ∈ g.under t := by
  rw [under_eq h]
  exact List.mem_map.2 ⟨(t, r), List.mem_filter.2 ⟨hr, by simp⟩, rfl⟩

theorem mem_entries_of_mem_under {g : Registry κ} (h : g.WellFormed) {t : Topic}
    {r : Registration κ} (hr : r ∈ g.under t) : (t, r) ∈ g.entries := by
  rw [under_eq h] at hr
  rcases List.mem_map.1 hr with ⟨⟨u, r'⟩, hmem, rfl⟩
  rcases List.mem_filter.1 hmem with ⟨he, hu⟩
  obtain rfl : u = t := of_decide_eq_true hu
  exact he

theorem sublist_under_all {g : Registry κ} (h : g.WellFormed) (t : Topic) :
    (g.under t).Sublist g.all := by
  rw [under_eq h, ← map_entries]
  exact List.filter_sublist.map _

theorem mem_all_of_mem_entries {g : Registry κ} {t : Topic} {r : Registration κ}
    (hr : (t, r) ∈ g.entries) : r ∈ g.all := by
  rw [← map_entries]
  exact List.mem_map.2 ⟨(t, r), hr, rfl⟩

/-- Everything registered is registered under some topic. -/
theorem mem_all_iff {g : Registry κ} (h : g.WellFormed) {r : Registration κ} :
    r ∈ g.all ↔ ∃ t, r ∈ g.under t := by
  constructor
  · intro hr
    rw [← map_entries] at hr
    rcases List.mem_map.1 hr with ⟨⟨t, r'⟩, he, rfl⟩
    exact ⟨t, mem_under h he⟩
  · rintro ⟨t, hr⟩
    exact (sublist_under_all h t).subset hr

/-! ## The order of registration -/

/-- Under each topic the registrations stand in the order in which they were made. -/
def Ordered (g : Registry κ) : Prop :=
  ∀ t, (g.under t).Pairwise fun a b => a.id < b.id

theorem ordered_empty : (empty : Registry κ).Ordered :=
  fun _ => List.Pairwise.nil

theorem Ordered.register {g : Registry κ} (ho : g.Ordered) (h : g.WellFormed) (t : Topic)
    (callback : κ) : (g.register t callback).Ordered := by
  intro s
  rw [under_register]
  split
  · -- The new registration comes last, and its number is the largest.
    refine List.pairwise_append.2 ⟨ho s, List.pairwise_singleton _ _, ?_⟩
    intro a ha b hb
    obtain rfl : b = ⟨g.nextId, callback⟩ := List.mem_singleton.1 hb
    exact h.bound _ (mem_entries_of_mem_under h ha)
  · exact ho s

theorem Ordered.unregister {g : Registry κ} (ho : g.Ordered) (h : g.WellFormed) (id : Nat)
    (t : Topic) : (g.unregister id t).Ordered := by
  intro s
  refine (ho s).sublist ?_
  rw [under_eq (h.unregister id t), under_eq h, entries_unregister h]
  exact (List.filter_sublist.filter _).map _

end Registry

end LiveFeed
