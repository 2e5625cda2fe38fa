import LiveFeed.Watch

/-!
# The resources of a watch

The resources that are named are sorted by their labels, and then each one that repeats its neighbour
is dropped.  No two resources share a label, so equal resources are neighbours once they are sorted, and
nothing is left of the order in which they were named.

* `Watch.mem_eraseReps`, `Watch.pairwise_eraseReps`: what dropping repetitions does to a sorted list;
* `Watch.Lists`: a list, in the order of labels, of what was asked for; there is only one;
* `Watch.choose_eq_ok_iff`: what is chosen is this list;
* `Watch.chosen_by_label`: what is refused, and what follows for names in another order, for repeated
  ones and for a list that was chosen before.
-/

namespace LiveFeed.Watch

/-! ## Repetitions -/

theorem eraseRepsBy_loop {α : Type} (r : α → α → Bool) (a : α) (l acc : List α) :
    List.eraseRepsBy.loop r a l acc = acc.reverse ++ List.eraseRepsBy.loop r a l [] := by
  induction l generalizing a acc with
  | nil => simp [List.eraseRepsBy.loop]
  | cons b l ih =>
      simp only [List.eraseRepsBy.loop]
      split
      · exact ih a acc
      · calc
          List.eraseRepsBy.loop r b l (a :: acc)
              = acc.reverse ++ ([a].reverse ++ List.eraseRepsBy.loop r b l []) := by
                simp [ih b (a :: acc)]
          _ = acc.reverse ++ List.eraseRepsBy.loop r b l [a] := by rw [ih b [a]]

section Repetitions

variable {α : Type} [DecidableEq α]

/-- An element is dropped if the next one repeats it. -/
theorem eraseReps_cons_cons (a b : α) (l : List α) :
    (a :: b :: l).eraseReps = if a = b then (b :: l).eraseReps else a :: (b :: l).eraseReps := by
  simp only [List.eraseReps, List.eraseRepsBy, List.eraseRepsBy.loop]
  by_cases h : a = b
  · simp [h]
  · have hne : (a == b) = false := by simpa using h
    simp only [hne, if_neg h]
    exact eraseRepsBy_loop _ b l [a]

theorem mem_eraseReps {x : α} {l : List α} : x ∈ l.eraseReps ↔ x ∈ l := by
  induction l with
  | nil => exact Iff.rfl
  | cons a l ih =>
      cases l with
      | nil => exact Iff.rfl
      | cons b l =>
          rw [eraseReps_cons_cons]
          split
          · next h => simp [h, ih]
          · next h => simp [ih]

/-- In a sorted list what is equal stands together, so nothing is left twice. -/
theorem pairwise_eraseReps {r : α → α → Prop} (hantisymm : ∀ a b, r a b → r b a → a = b)
    {l : List α} (hsorted : l.Pairwise r) : l.eraseReps.Pairwise fun a b => r a b ∧ a ≠ b := by
  induction l with
  | nil => exact List.Pairwise.nil
  | cons a l ih =>
      rcases List.pairwise_cons.1 hsorted with ⟨ha, hl⟩
      cases l with
      | nil => exact List.pairwise_singleton _ a
      | cons b l =>
          rw [eraseReps_cons_cons]
          split
          · exact ih hl
          · next hne =>
              refine List.pairwise_cons.2 ⟨fun x hx => ?_, ih hl⟩
              have hmem : x ∈ b :: l := mem_eraseReps.1 hx
              refine ⟨ha x hmem, ?_⟩
              rintro rfl
              -- An element that comes back later is also above what stands in between.
              have hbelow : r b a := by
                rcases List.mem_cons.1 hmem with rfl | hlater
                · exact absurd rfl hne
                · exact (List.pairwise_cons.1 hl).1 a hlater
              exact hne (hantisymm a b (ha b List.mem_cons_self) hbelow)

end Repetitions

/-! ## The order of labels -/

theorem labelLe_iff {a b : Resource} : labelLe a b = true ↔ a.label ≤ b.label :=
  decide_eq_true_iff

theorem sorted_mergeSort_labelLe (l : List Resource) :
    (l.mergeSort labelLe).Pairwise fun a b => a.label ≤ b.label := by
  have htrans : ∀ a b c, labelLe a b = true → labelLe b c = true → labelLe a c = true := by
    intro a b c hab hbc
    exact labelLe_iff.2 (String.le_trans (labelLe_iff.1 hab) (labelLe_iff.1 hbc))
  have htotal : ∀ a b, (labelLe a b || labelLe b a) = true := by
    intro a b
    rcases String.le_total a.label b.label with h | h
    · simp [labelLe_iff.2 h]
    · simp [labelLe_iff.2 h]
  exact (List.pairwise_mergeSort htrans htotal l).imp labelLe_iff.1

/-- A list in the order of labels of what was asked for: the resources that were named, or else all
lists. -/
structure Lists (named chosen : List Resource) : Prop where
  increasing : chosen.Pairwise fun a b => a.label < b.label
  mem_iff : ∀ r, r ∈ chosen ↔ if named = [] then r ≠ .apodImage else r ∈ named

namespace Lists

variable {named chosen : List Resource}

theorem nodup (h : Lists named chosen) : chosen.Nodup := by
  refine h.increasing.imp fun {a b} hlt heq => ?_
  exact String.lt_irrefl a.label (heq ▸ hlt)

/-- Something is always chosen. -/
theorem ne_nil (h : Lists named chosen) : chosen ≠ [] := by
  cases named with
  | nil =>
      have husers : Resource.users ∈ chosen := (h.mem_iff _).2 (by simp)
      exact List.ne_nil_of_mem husers
  | cons r rest =>
      have hfirst : r ∈ chosen := (h.mem_iff _).2 (by simp)
      exact List.ne_nil_of_mem hfirst

/-- The picture is chosen only if it was named. -/
theorem mem_apodImage_iff (h : Lists named chosen) :
    Resource.apodImage ∈ chosen ↔ Resource.apodImage ∈ named := by
  rw [h.mem_iff]
  split
  · next hnil => simp [hnil]
  · exact Iff.rfl

/-- There is one such list for what was asked for. -/
theorem unique (h : Lists named chosen) {chosen' : List Resource} (h' : Lists named chosen') :
    chosen = chosen' := by
  have hsame : ∀ r, r ∈ chosen ↔ r ∈ chosen' := fun r => (h.mem_iff r).trans (h'.mem_iff r).symm
  -- Without repetitions the same resources make a permutation, and only one is increasing.
  have hperm : chosen.Perm chosen' := (List.perm_ext_iff_of_nodup h.nodup h'.nodup).2 hsame
  refine hperm.eq_of_pairwise ?_ h.increasing h'.increasing
  intro a b _ _ hab hba
  exact absurd (String.lt_trans hab hba) (String.lt_irrefl _)

/-- A list that was chosen lists itself. -/
theorem self (h : Lists named chosen) : Lists chosen chosen :=
  ⟨h.increasing, fun r => by rw [if_neg h.ne_nil]⟩

theorem congr {named' : List Resource} (hsame : ∀ r, r ∈ named' ↔ r ∈ named) :
    Lists named' chosen ↔ Lists named chosen := by
  have hnil : named' = [] ↔ named = [] := by
    simp only [List.eq_nil_iff_forall_not_mem, hsame]
  constructor
  · exact fun h => ⟨h.increasing, by simpa only [hsame, hnil] using h.mem_iff⟩
  · exact fun h => ⟨h.increasing, by simpa only [hsame, hnil] using h.mem_iff⟩

end Lists

/-! ## Choosing -/

/-- Sorting and dropping repetitions gives the list. -/
theorem lists_chosen (named : List Resource) :
    Lists named (((if named.isEmpty then standard else named).mergeSort labelLe).eraseReps) := by
  constructor
  · have hsorted := sorted_mergeSort_labelLe (if named.isEmpty then standard else named)
    have hantisymm : ∀ a b : Resource, a.label ≤ b.label → b.label ≤ a.label → a = b :=
      fun a b hab hba => Resource.label_injective (String.le_antisymm hab hba)
    -- What stays of the sorted list is ordered and different, and different resources differ in label.
    refine (pairwise_eraseReps hantisymm hsorted).imp ?_
    rintro a b ⟨hle, hne⟩
    exact String.not_le.1 fun hge => hne (hantisymm a b hle hge)
  · intro r
    rw [mem_eraseReps, List.mem_mergeSort]
    cases named with
    | nil => simp [standard, Resource.mem_all]
    | cons => rfl

theorem apodImage_mem_asked {named : List Resource} :
    Resource.apodImage ∈ (if named.isEmpty then standard else named) ↔
      Resource.apodImage ∈ named := by
  cases named with
  | nil => decide
  | cons => exact Iff.rfl

variable {named : List Resource} {dated : Bool}

/-- The only thing that is refused is the picture without a date. -/
theorem choose_eq_error_iff {f : Failure} :
    choose named dated = .error f ↔
      f = .pictureWithoutDate ∧ .apodImage ∈ named ∧ dated = false := by
  simp only [choose, apodImage_mem_asked, Bool.not_eq_true']
  split
  · next h => simp [h, eq_comm]
  · next h => simp [h]

/-- Unless that is asked for, the list of what was asked for is chosen. -/
theorem choose_eq_ok_iff {chosen : List Resource} :
    choose named dated = .ok chosen ↔
      ¬ (.apodImage ∈ named ∧ dated = false) ∧ Lists named chosen := by
  simp only [choose, apodImage_mem_asked, Bool.not_eq_true']
  split
  · next h => simp [h]
  · next h =>
      rw [Except.ok.injEq]
      constructor
      · rintro rfl
        exact ⟨h, lists_chosen named⟩
      · exact fun hlists => (lists_chosen named).unique hlists.2

/-- The picture without a date is refused and nothing else is.  What is chosen is the list, in the order
of labels and each once, of the resources that were named, or of all lists if none was.  So it does not
matter in which order and how often they are named, and to name what was chosen chooses it again. -/
theorem chosen_by_label (named : List Resource) (dated : Bool) :
    (∀ f, choose named dated = .error f ↔
      f = .pictureWithoutDate ∧ .apodImage ∈ named ∧ dated = false) ∧
    ((∃ chosen, choose named dated = .ok chosen) ↔ ¬ (.apodImage ∈ named ∧ dated = false)) ∧
    (∀ chosen, choose named dated = .ok chosen →
      Lists named chosen ∧ chosen.Nodup ∧ choose chosen dated = .ok chosen) ∧
    ∀ named', (∀ r, r ∈ named' ↔ r ∈ named) → choose named' dated = choose named dated := by
  refine ⟨fun f => choose_eq_error_iff, ?_, ?_, ?_⟩
  · simp only [choose_eq_ok_iff, exists_and_left]
    exact and_iff_left ⟨_, lists_chosen named⟩
  · intro chosen hchosen
    obtain ⟨hdated, hlists⟩ := choose_eq_ok_iff.1 hchosen
    refine ⟨hlists, hlists.nodup, choose_eq_ok_iff.2 ⟨?_, hlists.self⟩⟩
    rwa [hlists.mem_apodImage_iff]
  · intro named' hsame
    have hrefused := hsame .apodImage
    cases hchosen : choose named dated with
    | error f =>
        rw [choose_eq_error_iff] at hchosen ⊢
        rwa [hrefused]
    | ok chosen =>
        rw [choose_eq_ok_iff] at hchosen ⊢
        rwa [hrefused, Lists.congr hsame]

end LiveFeed.Watch
