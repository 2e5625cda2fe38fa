import Mathlib.Data.List.Basic
import LiveFeed.Proofs.Registrations

/-!
# The registry as one flat list

Whatever is asked of a registry, it answers as one list of entries would that stand in the order in
which they were registered.  Only a fan-out over everything is freer: it goes from topic to topic, in
an order of its own, and keeps the order of the list within each topic.

* `FlatRegistry`: the one list, and what it does with a request;
* `FlatRegistry.Allows`: the replies that the list allows;
* `Registry.Represents`, `Registry.represents_run`: the simulation, one request at a time and over a run;
* `Registry.replies_as_flat`: what that means to whoever asks.
-/

namespace LiveFeed

/-- What can be asked of a registry of callbacks. -/
inductive RegistryRequest (κ : Type) where
  | register (topic : Topic) (callback : κ)
  | unregister (id : Nat) (topic : Topic)
  | notify (topic : Topic)
  | notifyAll
  | count (topic : Topic)
  | isEmpty

/-- What a registry replies; a fan-out shows itself by what it will call. -/
inductive RegistryReply (κ : Type) where
  | registered (id : Nat)
  | done
  | calls (registrations : List (Registration κ))
  | count (n : Nat)
  | isEmpty (b : Bool)

/-- Entries in the order in which they were registered. -/
structure FlatRegistry (κ : Type) where
  entries : List (Topic × Registration κ)
  nextId : Nat

variable {κ : Type}

/-- Whether an entry is the one of a number and a topic. -/
def isEntryOf (id : Nat) (t : Topic) (e : Topic × Registration κ) : Bool :=
  decide (e.1 = t) && decide (e.2.id = id)

/-- What some entries have of a topic. -/
def registrationsUnder (t : Topic) (entries : List (Topic × Registration κ)) :
    List (Registration κ) :=
  (entries.filter fun e => e.1 = t).map (·.2)

namespace FlatRegistry

def empty : FlatRegistry κ := ⟨[], 0⟩

/-- What a request makes of the list: an entry is added at the end, or taken out. -/
def step (l : FlatRegistry κ) : RegistryRequest κ → FlatRegistry κ
  | .register t callback => ⟨l.entries ++ [(t, ⟨l.nextId, callback⟩)], l.nextId + 1⟩
  | .unregister id t => { l with entries := l.entries.eraseP (isEntryOf id t) }
  | _ => l

def run (l : FlatRegistry κ) (requests : List (RegistryRequest κ)) : FlatRegistry κ :=
  requests.foldl step l

/-- The replies that the list allows to a request.  In which order a fan-out over everything goes
through the topics is left open. -/
def Allows (l : FlatRegistry κ) : RegistryRequest κ → RegistryReply κ → Prop
  | .register _ _, reply => reply = .registered l.nextId
  | .unregister _ _, reply => reply = .done
  | .notify t, reply => reply = .calls (registrationsUnder t l.entries)
  | .notifyAll, reply => ∃ topics : List Topic, topics.Nodup ∧ (∀ e ∈ l.entries, e.1 ∈ topics) ∧
      reply = .calls (topics.flatMap fun t => registrationsUnder t l.entries)
  | .count t, reply => reply = .count (registrationsUnder t l.entries).length
  | .isEmpty, reply => reply = .isEmpty l.entries.isEmpty

end FlatRegistry

namespace Registry

def step (g : Registry κ) : RegistryRequest κ → Registry κ
  | .register t callback => g.register t callback
  | .unregister id t => g.unregister id t
  | _ => g

def run (g : Registry κ) (requests : List (RegistryRequest κ)) : Registry κ :=
  requests.foldl step g

/-- What the registry replies to a request. -/
def reply (g : Registry κ) : RegistryRequest κ → RegistryReply κ
  | .register _ _ => .registered g.nextId
  | .unregister _ _ => .done
  | .notify t => .calls (g.under t)
  | .notifyAll => .calls g.all
  | .count t => .count (g.count t)
  | .isEmpty => .isEmpty g.isEmpty

/-! ## Topics without callbacks -/

/-- No topic is kept without a callback. -/
def Trimmed (g : Registry κ) : Prop :=
  ∀ p ∈ g.groups, p.2 ≠ []

theorem Trimmed.register {g : Registry κ} (h : g.Trimmed) (t : Topic) (callback : κ) :
    (g.register t callback).Trimmed := by
  have key : ∀ groups : List (Topic × List (Registration κ)), (∀ p ∈ groups, p.2 ≠ []) →
      ∀ p ∈ append t ⟨g.nextId, callback⟩ groups, p.2 ≠ [] := by
    intro groups hgroups
    induction groups with
    | nil => simp [append]
    | cons q groups ih =>
        rw [List.forall_mem_cons] at hgroups
        by_cases hq : q.1 = t
        · rw [append, if_pos hq, List.forall_mem_cons]
          exact ⟨by simp, hgroups.2⟩
        · rw [append, if_neg hq, List.forall_mem_cons]
          exact ⟨hgroups.1, ih hgroups.2⟩
  exact key g.groups h

theorem Trimmed.unregister {g : Registry κ} (h : g.Trimmed) (id : Nat) (t : Topic) :
    (g.unregister id t).Trimmed := by
  have key : ∀ groups : List (Topic × List (Registration κ)), (∀ p ∈ groups, p.2 ≠ []) →
      ∀ p ∈ remove id t groups, p.2 ≠ [] := by
    intro groups hgroups
    induction groups with
    | nil => simp [remove]
    | cons q groups ih =>
        rw [List.forall_mem_cons] at hgroups
        by_cases hq : q.1 = t
        · rw [remove, if_pos hq]
          -- A group that loses its last member goes with it.
          split
          · exact hgroups.2
          · rw [List.forall_mem_cons]
            exact ⟨by simp, hgroups.2⟩
        · rw [remove, if_neg hq, List.forall_mem_cons]
          exact ⟨hgroups.1, ih hgroups.2⟩
  exact key g.groups h

/-- Without empty groups, to remove what is not there changes nothing at all. -/
theorem unregister_eq_self {g : Registry κ} (h : g.Trimmed) {id : Nat} {t : Topic}
    (hnone : ∀ e ∈ g.entries, isEntryOf id t e = false) : g.unregister id t = g := by
  have key : ∀ groups : List (Topic × List (Registration κ)), (∀ p ∈ groups, p.2 ≠ []) →
      (∀ e ∈ flatten groups, isEntryOf id t e = false) → remove id t groups = groups := by
    intro groups hgroups hentries
    induction groups with
    | nil => rfl
    | cons q groups ih =>
        rw [List.forall_mem_cons] at hgroups
        rw [flatten_cons, List.forall_mem_append, List.forall_mem_map] at hentries
        by_cases hq : q.1 = t
        · have hall : q.2.filter (fun r => r.id ≠ id) = q.2 := by
            refine List.filter_eq_self.2 ?_
            intro r hr
            simpa [isEntryOf, hq] using hentries.1 r hr
          rw [remove, if_pos hq, hall]
          split
          · next hnil => exact absurd hnil hgroups.1
          · next r rest hcons => rw [← hcons]
        · rw [remove, if_neg hq, ih hgroups.2 hentries.2]
  have hgroups := key g.groups h hnone
  rw [unregister, hgroups]

/-- Without empty groups, a registry that has none has no entries. -/
theorem isEmpty_eq {g : Registry κ} (h : g.Trimmed) : g.isEmpty = g.entries.isEmpty := by
  cases hg : g.groups with
  | nil => simp [isEmpty, entries, flatten, hg]
  | cons p groups =>
      have hp : p.2 ≠ [] := h p (by simp [hg])
      simp [isEmpty, entries, flatten, hg, hp]

theorem isEmpty_iff {g : Registry κ} (hw : g.WellFormed) (h : g.Trimmed) :
    g.isEmpty = true ↔ ∀ t, g.count t = 0 := by
  rw [isEmpty_eq h, List.isEmpty_iff]
  constructor
  · intro hnil t
    rw [count, under_eq hw, hnil]
    rfl
  · intro hcount
    refine List.eq_nil_iff_forall_not_mem.2 ?_
    rintro ⟨t, r⟩ hr
    -- An entry is counted under its topic.
    have hpos := List.length_pos_of_mem (mem_under hw hr)
    have hzero : (g.under t).length = 0 := hcount t
    omega

/-! ## One entry after the other -/

/-- Everything registered is what is registered under one topic after another. -/
theorem all_eq_flatMap {g : Registry κ} (h : g.WellFormed) :
    g.all = (g.groups.map (·.1)).flatMap g.under := by
  have key : ∀ groups : List (Topic × List (Registration κ)), (groups.map (·.1)).Nodup →
      groups.flatMap (·.2) =
        (groups.map (·.1)).flatMap fun t => (groups.lookup t).getD [] := by
    intro groups hnodup
    induction groups with
    | nil => rfl
    | cons q groups ih =>
        obtain ⟨u, rs⟩ := q
        rw [List.map_cons, List.nodup_cons] at hnodup
        -- No later group is of the topic of the first.
        have hrest : ∀ t ∈ groups.map (·.1),
            (groups.lookup t).getD [] = (((u, rs) :: groups).lookup t).getD [] := by
          intro t ht
          have hne : t ≠ u := fun heq => hnodup.1 (heq ▸ ht)
          have hb : (t == u) = false := by simpa using hne
          rw [List.lookup_cons, hb]
        calc ((u, rs) :: groups).flatMap (·.2)
            = rs ++ groups.flatMap (·.2) := rfl
          _ = rs ++ (groups.map (·.1)).flatMap fun t => (groups.lookup t).getD [] := by
              rw [ih hnodup.2]
          _ = rs ++ (groups.map (·.1)).flatMap fun t => (((u, rs) :: groups).lookup t).getD [] := by
              rw [List.flatMap_congr hrest]
          _ = (((u, rs) :: groups).map (·.1)).flatMap
                fun t => (((u, rs) :: groups).lookup t).getD [] := by
              simp
  exact key g.groups h.topics

/-- Of entries with different numbers, one at most is taken out. -/
theorem eraseP_eq_filter {entries : List (Topic × Registration κ)}
    (h : (entries.map (·.2.id)).Nodup) (id : Nat) (t : Topic) :
    entries.eraseP (isEntryOf id t) = entries.filter fun e => !isEntryOf id t e := by
  induction entries with
  | nil => rfl
  | cons e entries ih =>
      rw [List.map_cons, List.nodup_cons] at h
      cases he : isEntryOf id t e with
      | false => simp [he, ih h.2]
      | true =>
          have hid : e.2.id = id := by
            simp only [isEntryOf, Bool.and_eq_true, decide_eq_true_eq] at he
            exact he.2
          -- The entries that follow have other numbers.
          have hrest : entries.filter (fun e => !isEntryOf id t e) = entries := by
            refine List.filter_eq_self.2 ?_
            intro d hd
            have hne : d.2.id ≠ id := by
              intro heq
              exact h.1 (List.mem_map.2 ⟨d, hd, heq.trans hid.symm⟩)
            simp [isEntryOf, hne]
          rw [List.eraseP_cons_of_pos he, List.filter_cons_of_neg (by simp [he]), hrest]

theorem registrationsUnder_append (s : Topic) (entries : List (Topic × Registration κ)) (t : Topic)
    (r : Registration κ) : registrationsUnder s (entries ++ [(t, r)]) =
      if s = t then registrationsUnder s entries ++ [r] else registrationsUnder s entries := by
  by_cases hs : s = t
  · simp [registrationsUnder, hs]
  · simp [registrationsUnder, hs, Ne.symm hs]

theorem registrationsUnder_filter (s : Topic) (entries : List (Topic × Registration κ)) (id : Nat)
    (t : Topic) : registrationsUnder s (entries.filter fun e => !isEntryOf id t e) =
      (registrationsUnder s entries).filter fun r => !(decide (s = t) && decide (r.id = id)) := by
  induction entries with
  | nil => rfl
  | cons e entries ih =>
      unfold registrationsUnder at ih ⊢
      by_cases hs : e.1 = s
      · by_cases ht : s = t
        · by_cases hid : e.2.id = id
          · simpa [isEntryOf, hs, ht, hid] using ih
          · simpa [isEntryOf, hs, ht, hid] using ih
        · simpa [isEntryOf, hs, ht] using ih
      · cases he : isEntryOf id t e with
        | true => simpa [he, hs] using ih
        | false => simpa [he, hs] using ih

/-! ## The simulation -/

/-- The registry has what the list has, under each topic in the order of the list. -/
structure Represents (g : Registry κ) (l : FlatRegistry κ) : Prop where
  wellFormed : g.WellFormed
  trimmed : g.Trimmed
  nextId : g.nextId = l.nextId
  perm : g.entries.Perm l.entries
  under : ∀ t, g.under t = registrationsUnder t l.entries

theorem represents_empty : (empty : Registry κ).Represents .empty := by
  refine ⟨⟨?_, ?_, ?_⟩, ?_, rfl, ?_, ?_⟩
  · simp [empty]
  · simp [empty, entries, flatten]
  · simp [empty, entries, flatten]
  · simp [empty, Trimmed]
  · simp [empty, entries, flatten, FlatRegistry.empty]
  · intro t
    rfl

theorem Represents.ids {g : Registry κ} {l : FlatRegistry κ} (h : g.Represents l) :
    (l.entries.map (·.2.id)).Nodup :=
  (h.perm.map _).nodup_iff.1 h.wellFormed.ids

theorem Represents.register {g : Registry κ} {l : FlatRegistry κ} (h : g.Represents l) (t : Topic)
    (callback : κ) : (g.register t callback).Represents (l.step (.register t callback)) := by
  refine ⟨h.wellFormed.register t callback, h.trimmed.register t callback, ?_, ?_, ?_⟩
  · exact congrArg (· + 1) h.nextId
  · have hperm := g.perm_entries_register t callback
    rw [h.nextId] at hperm
    exact hperm.trans (h.perm.append_right _)
  · intro s
    rw [under_register, FlatRegistry.step, registrationsUnder_append, h.under, h.nextId]

theorem Represents.unregister {g : Registry κ} {l : FlatRegistry κ} (h : g.Represents l) (id : Nat)
    (t : Topic) : (g.unregister id t).Represents (l.step (.unregister id t)) := by
  have hw := h.wellFormed.unregister id t
  -- On either side exactly the entries of this number and topic go.
  have hg : (g.unregister id t).entries = g.entries.filter fun e => !isEntryOf id t e :=
    entries_unregister h.wellFormed id t
  have hl : (l.step (.unregister id t)).entries = l.entries.filter fun e => !isEntryOf id t e :=
    eraseP_eq_filter h.ids id t
  refine ⟨hw, h.trimmed.unregister id t, h.nextId, ?_, ?_⟩
  · rw [hg, hl]
    exact h.perm.filter _
  · intro s
    have hunder : registrationsUnder s g.entries = registrationsUnder s l.entries :=
      (under_eq h.wellFormed s).symm.trans (h.under s)
    calc (g.unregister id t).under s
        = registrationsUnder s (g.unregister id t).entries := under_eq hw s
      _ = registrationsUnder s (l.step (.unregister id t)).entries := by
          rw [hg, hl, registrationsUnder_filter, registrationsUnder_filter, hunder]

theorem Represents.step {g : Registry κ} {l : FlatRegistry κ} (h : g.Represents l)
    (request : RegistryRequest κ) : (g.step request).Represents (l.step request) := by
  cases request with
  | register t callback => exact h.register t callback
  | unregister id t => exact h.unregister id t
  | _ => exact h

theorem represents_run {g : Registry κ} {l : FlatRegistry κ} (h : g.Represents l)
    (requests : List (RegistryRequest κ)) : (g.run requests).Represents (l.run requests) := by
  induction requests generalizing g l with
  | nil => exact h
  | cons request requests ih => exact ih (h.step request)

/-- Whatever the registry replies, the list that it represents allows. -/
theorem Represents.allows {g : Registry κ} {l : FlatRegistry κ} (h : g.Represents l)
    (request : RegistryRequest κ) : l.Allows request (g.reply request) := by
  cases request with
  | register t callback => exact congrArg RegistryReply.registered h.nextId
  | unregister id t => rfl
  | notify t => exact congrArg RegistryReply.calls (h.under t)
  | notifyAll =>
      refine ⟨g.groups.map (·.1), h.wellFormed.topics, ?_, ?_⟩
      · rintro ⟨t, r⟩ he
        exact mem_flatten_topic (h.perm.mem_iff.2 he)
      · refine congrArg RegistryReply.calls ?_
        rw [all_eq_flatMap h.wellFormed]
        exact List.flatMap_congr fun t _ => h.under t
  | count t => exact congrArg (fun rs => RegistryReply.count rs.length) (h.under t)
  | isEmpty =>
      refine congrArg RegistryReply.isEmpty ?_
      rw [isEmpty_eq h.trimmed, Bool.eq_iff_iff, List.isEmpty_iff, List.isEmpty_iff]
      constructor
      · intro hnil
        exact List.nil_perm.1 (hnil ▸ h.perm)
      · intro hnil
        exact List.perm_nil.1 (hnil ▸ h.perm)

/-! ## What the registry is to others -/

/-- After any requests the registry replies to any other as the list of its entries allows, and
unregistering what is not registered changes nothing.  No topic has two groups or an empty one, so the
registry is empty if and only if nothing is counted under any topic, and no number occurs twice. -/
theorem replies_as_flat (requests : List (RegistryRequest κ)) :
    (∀ request, ((FlatRegistry.empty : FlatRegistry κ).run requests).Allows request
        (((empty : Registry κ).run requests).reply request)) ∧
      (∀ id t, (∀ e ∈ ((FlatRegistry.empty : FlatRegistry κ).run requests).entries,
          ¬ (e.1 = t ∧ e.2.id = id)) →
        ((empty : Registry κ).run requests).unregister id t = (empty : Registry κ).run requests) ∧
      (((empty : Registry κ).run requests).groups.map (·.1)).Nodup ∧
      (∀ p ∈ ((empty : Registry κ).run requests).groups, p.2 ≠ []) ∧
      (((empty : Registry κ).run requests).isEmpty = true ↔
        ∀ t, ((empty : Registry κ).run requests).count t = 0) ∧
      (((empty : Registry κ).run requests).all.map (·.id)).Nodup := by
  have h := represents_run (represents_empty (κ := κ)) requests
  generalize (empty : Registry κ).run requests = g at h
  generalize (FlatRegistry.empty : FlatRegistry κ).run requests = l at h
  refine ⟨h.allows, ?_, h.wellFormed.topics, h.trimmed, isEmpty_iff h.wellFormed h.trimmed, ?_⟩
  · intro id t hnone
    refine unregister_eq_self h.trimmed ?_
    intro e he
    simpa [isEntryOf] using hnone e (h.perm.mem_iff.1 he)
  · rw [← map_entries, List.map_map]
    exact h.wellFormed.ids

/-- Callbacks of one topic with one of another in between. -/
def interleaved : List (RegistryRequest Nat) :=
  [.register .user 0, .register .group 1, .register .user 2]

/-- A fan-out over everything does not call them in the order in which they were registered, and none
would that goes from topic to topic. -/
theorem all_ne_interleaved :
    ((empty : Registry Nat).run interleaved).all ≠
        ((FlatRegistry.empty : FlatRegistry Nat).run interleaved).entries.map (·.2) ∧
      ∀ topics : List Topic,
        (topics.flatMap fun t => registrationsUnder t
          ((FlatRegistry.empty : FlatRegistry Nat).run interleaved).entries) ≠
        ((FlatRegistry.empty : FlatRegistry Nat).run interleaved).entries.map (·.2) := by
  refine ⟨by decide, ?_⟩
  intro topics
  induction topics with
  | nil => decide
  | cons t topics ih =>
      rw [List.flatMap_cons]
      -- The first topic that has anything decides, and it is wrong with either.
      cases t with
      | user | group =>
          simp [interleaved, FlatRegistry.run, FlatRegistry.step, FlatRegistry.empty,
            registrationsUnder]
      | _ => exact ih

end Registry

end LiveFeed
