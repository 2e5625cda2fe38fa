import LiveFeed.Url.Host
import Mathlib

/-!
# Hosts that are numbers

An address of 32 bits or of 128 bits is written in one way only, so that its text tells which address
it is.  For the longer ones this is because the text is read back; the run of zeros that is left out is
put in again.

* `splitOn_intercalate`: parts that hold no separator are split where they were joined;
* `Ipv4.write_injective`, `Ipv4.read_eq_ok`: addresses of 32 bits;
* `Ipv6.read?_write`, `Ipv6.inRange_of_read?`: addresses of 128 bits.
-/

namespace LiveFeed.Url

theorem splitOn_eq (sep : Char) (cs : List Char) : splitOn sep cs = cs.splitOn sep := by
  induction cs with
  | nil => rfl
  | cons c r ih =>
      rw [splitOn, ih, List.splitOn_cons_eq_if_modifyHead]
      by_cases hc : c = sep
      · simp [hc]
      · cases hr : r.splitOn sep with
        | nil => exact absurd hr (List.splitOn_ne_nil sep r)
        | cons part parts => simp [hc]

theorem splitOn_intercalate {sep : Char} {parts : List (List Char)} (hparts : parts ≠ [])
    (h : ∀ part ∈ parts, sep ∉ part) : splitOn sep ([sep].intercalate parts) = parts := by
  rw [splitOn_eq, List.splitOn_intercalate sep h hparts]

namespace Ipv4

/-! ## Digits -/

theorem hexValue?_digitChar : ∀ d < 16, hexValue? (Nat.digitChar d) = some d := by
  decide

/-- The last digit is read last, behind what the others spell. -/
theorem digitsIn_append_eq_some_iff {base n : Nat} {cs : List Char} {c : Char} :
    digitsIn base (cs ++ [c]) = some n ↔
      ∃ m d, digitsIn base cs = some m ∧ hexValue? c = some d ∧ d < base ∧ n = m * base + d := by
  rw [digitsIn, List.foldlM_append, ← digitsIn, Option.bind_eq_bind, Option.bind_eq_some_iff]
  constructor
  · rintro ⟨m, hm, hlast⟩
    cases hc : hexValue? c with
    | none => simp [hc] at hlast
    | some d =>
        by_cases hd : d < base
        · have hvalue : m * base + d = n := by simpa [hc, hd] using hlast
          exact ⟨m, d, hm, rfl, hd, hvalue.symm⟩
        · simp [hc, hd] at hlast
  · rintro ⟨m, d, hm, hc, hd, rfl⟩
    exact ⟨m, hm, by simp [hc, hd]⟩

/-- The digits of a number spell it. -/
theorem digitsIn_toDigits (n : Nat) : digitsIn 16 (Nat.toDigits 16 n) = some n := by
  induction n using Nat.strong_induction_on with
  | _ n ih =>
      by_cases hn : n < 16
      · rw [Nat.toDigits_of_lt_base hn]
        simp [digitsIn, hexValue?_digitChar n hn, hn]
      · -- The last digit comes off the end, and the digits of a smaller number are left.
        have hlast : n % 16 < 16 := Nat.mod_lt n (by omega)
        rw [Nat.toDigits_of_base_le (by omega) (by omega), digitsIn_append_eq_some_iff]
        exact ⟨n / 16, n % 16, ih (n / 16) (by omega), hexValue?_digitChar _ hlast, hlast, by omega⟩

/-- Digits in a base spell less than its power. -/
theorem digitsIn_lt {base n : Nat} {cs : List Char} (h : digitsIn base cs = some n) :
    n < base ^ cs.length := by
  induction cs using List.reverseRecOn generalizing n with
  | nil =>
      obtain rfl : 0 = n := Option.some.inj h
      simp
  | append_singleton cs c ih =>
      obtain ⟨m, d, hm, -, hd, rfl⟩ := digitsIn_append_eq_some_iff.1 h
      calc
        m * base + d < (m + 1) * base := by rw [Nat.add_one_mul]; omega
        _ ≤ base ^ cs.length * base := Nat.mul_le_mul_right base (ih hm)
        _ = base ^ (cs ++ [c]).length := by simp [Nat.pow_succ]

/-- What spells a number are digits. -/
theorem hexValue?_of_digitsIn {base n : Nat} {cs : List Char} (h : digitsIn base cs = some n)
    {c : Char} (hc : c ∈ cs) : ∃ d, hexValue? c = some d := by
  induction cs using List.reverseRecOn generalizing n with
  | nil => cases hc
  | append_singleton cs last ih =>
      obtain ⟨m, d, hm, hd, -, -⟩ := digitsIn_append_eq_some_iff.1 h
      rcases List.mem_append.1 hc with hbefore | hc
      · exact ih hm hbefore
      · obtain rfl : c = last := by simpa using hc
        exact ⟨d, hd⟩

/-! ## Addresses of 32 bits -/

/-- The decimal spelling of a number. -/
def decimalChars (n : Nat) : List Char :=
  (toString n).toList

theorem decimalChars_eq (n : Nat) : decimalChars n = Nat.toDigits 10 n := by
  rw [decimalChars, Nat.toString_eq_ofList_toDigits, String.toList_ofList]

theorem isDigit_of_mem_decimalChars {n : Nat} {c : Char} (hc : c ∈ decimalChars n) :
    c.isDigit = true := by
  rw [decimalChars_eq] at hc
  exact Nat.isDigit_of_mem_toDigits (by omega) (by omega) hc

theorem decimalChars_ne_nil (n : Nat) : decimalChars n ≠ [] := by
  rw [decimalChars_eq]
  exact Nat.toDigits_ne_nil

theorem decimalChars_injective {m n : Nat} (h : decimalChars m = decimalChars n) : m = n :=
  calc
    m = Nat.ofDigitChars 10 (Nat.toDigits 10 m) 0 := Nat.ofDigitChars_ten_toDigits.symm
    _ = Nat.ofDigitChars 10 (Nat.toDigits 10 n) 0 := by rw [← decimalChars_eq, h, decimalChars_eq]
    _ = n := Nat.ofDigitChars_ten_toDigits

/-- The four octets of an address, the highest first. -/
def octetsOf (a : Nat) : List Nat :=
  [a / 16777216 % 256, a / 65536 % 256, a / 256 % 256, a % 256]

theorem toList_write (a : Nat) :
    (write a).toList = ['.'].intercalate ((octetsOf a).map decimalChars) := by
  simp [write, octetsOf, decimalChars]

theorem splitOn_write (a : Nat) : splitOn '.' (write a).toList = (octetsOf a).map decimalChars := by
  rw [toList_write]
  refine splitOn_intercalate (by simp [octetsOf]) ?_
  intro part hpart hdot
  obtain ⟨n, -, rfl⟩ := List.mem_map.1 hpart
  cases isDigit_of_mem_decimalChars hdot

theorem not_mem_write {c : Char} (hdot : c ≠ '.') (hdigit : c.isDigit = false) (a : Nat) :
    c ∉ (write a).toList := by
  intro hc
  simp only [toList_write, octetsOf, List.map_cons, List.map_nil, List.intercalate_cons_cons,
    List.intercalate_singleton, List.mem_append, List.mem_singleton] at hc
  have hoctet : ∀ n, c ∉ decimalChars n := fun n hmem => by
    cases hdigit.symm.trans (isDigit_of_mem_decimalChars hmem)
  simp [hdot, hoctet] at hc

/-- The spelling of an address is one that has to be read as an address. -/
theorem endsInNumber_write (a : Nat) : endsInNumber (write a).toList = true := by
  have hnumber : endsInNumber.isNumber (decimalChars (a % 256)) = true := by
    have hdigits : (decimalChars (a % 256)).all Char.isDigit = true :=
      List.all_eq_true.2 fun c hc => isDigit_of_mem_decimalChars hc
    simp [endsInNumber.isNumber, hdigits, decimalChars_ne_nil]
  rw [endsInNumber, splitOn_write]
  cases hlast : decimalChars (a % 256) with
  | nil => exact absurd hlast (decimalChars_ne_nil _)
  | cons c cs =>
      rw [hlast] at hnumber
      simpa [octetsOf, hlast] using hnumber

theorem write_injective {a b : Nat} (ha : a < 2 ^ 32) (hb : b < 2 ^ 32) (h : write a = write b) :
    a = b := by
  -- The octets are found between the dots, and an address in range is its octets.
  have hparts : (octetsOf a).map decimalChars = (octetsOf b).map decimalChars := by
    rw [← splitOn_write, ← splitOn_write, h]
  have hoctets : octetsOf a = octetsOf b :=
    List.map_injective_iff.2 (fun _ _ => decimalChars_injective) hparts
  simp only [octetsOf, List.cons.injEq, and_true] at hoctets
  omega

/-- Octets above a number fill it up. -/
theorem foldr_octets_lt {others : List Nat} (hothers : ∀ n ∈ others, n ≤ 255) {low free : Nat}
    (hlow : low < 256 ^ free) :
    (others.foldr (fun (n : Nat) (p : Nat × Nat) => (p.1 + n * Nat.pow 256 p.2, p.2 + 1))
        (low, free)).1 < 256 ^ (free + others.length) ∧
      (others.foldr (fun (n : Nat) (p : Nat × Nat) => (p.1 + n * Nat.pow 256 p.2, p.2 + 1))
        (low, free)).2 = free + others.length := by
  induction others with
  | nil => exact ⟨hlow, rfl⟩
  | cons n rest ih =>
      rcases ih fun m hm => hothers m (List.mem_cons_of_mem n hm) with ⟨hlt, hplace⟩
      have hn : n ≤ 255 := hothers n List.mem_cons_self
      rw [List.foldr_cons, List.length_cons, hplace]
      refine ⟨?_, by omega⟩
      -- At most 255 times the weight is added to less than the weight.
      have hoctet : n * 256 ^ (free + rest.length) ≤ 255 * 256 ^ (free + rest.length) :=
        Nat.mul_le_mul_right _ hn
      have hpow : 256 ^ (free + (rest.length + 1)) = 256 * 256 ^ (free + rest.length) := by
        rw [← Nat.add_assoc, Nat.pow_succ, Nat.mul_comm]
      rw [hpow]
      simp only [Nat.pow_eq] at hlt ⊢
      omega

/-- Parts make up an address of 32 bits. -/
theorem ofParts?_lt {parts : List Nat} {a : Nat} (h : ofParts? parts = some a) : a < 2 ^ 32 := by
  rw [ofParts?] at h
  split at h
  · cases h
  · next last others hparts =>
      obtain ⟨hsmall, h⟩ := Option.ite_none_left_eq_some.1 h
      obtain ⟨hlast, h⟩ := Option.ite_none_left_eq_some.1 h
      simp only [Bool.or_eq_true, List.any_eq_true, decide_eq_true_eq, not_or, not_exists,
        not_and] at hsmall
      have hlength : parts.length = others.length + 1 := by
        rw [← List.length_reverse, hparts, List.length_cons]
      have hothers : ∀ n ∈ others.reverse, n ≤ 255 := fun n hn =>
        Nat.le_of_not_lt (hsmall.1 n (List.mem_reverse.1 hn))
      have hlow : last < 256 ^ (4 - others.length) := by
        have hfree : 5 - parts.length = 4 - others.length := by omega
        rw [hfree] at hlast
        exact Nat.lt_of_not_le hlast
      have hfour : 4 - others.length + others.reverse.length = 4 := by
        rw [List.length_reverse]
        omega
      have hfill := (foldr_octets_lt hothers hlow).1
      rw [hfour] at hfill
      obtain rfl := Option.some.inj h
      exact hfill

/-- What is read as an address of 32 bits is one. -/
theorem read_eq_ok {domain : List Char} {host : Host} (h : read domain = .ok host) :
    ∃ a, host = .ipv4 a ∧ a < 2 ^ 32 := by
  simp only [read] at h
  split at h
  · cases h
  · next ns hns =>
      split at h
      · next a ha =>
          cases h
          exact ⟨a, rfl, ofParts?_lt ha⟩
      · cases h

end Ipv4

namespace Ipv6

open Ipv4 (digitsIn_lt digitsIn_toDigits hexValue?_of_digitsIn)

/-! ## Groups -/

theorem group?_eq_some_iff {cs : List Char} {g : Nat} :
    group? cs = some g ↔ cs ≠ [] ∧ cs.length ≤ 4 ∧ Ipv4.digitsIn 16 cs = some g := by
  simp only [group?, Bool.or_eq_true, List.isEmpty_iff, decide_eq_true_eq,
    Option.ite_none_left_eq_some, not_or, Nat.not_lt, and_assoc, ne_eq]

theorem group?_toDigits {g : Nat} (h : g < 65536) : group? (Nat.toDigits 16 g) = some g := by
  refine group?_eq_some_iff.2 ⟨Nat.toDigits_ne_nil, ?_, digitsIn_toDigits g⟩
  exact (Nat.length_toDigits_le_iff (by omega) (by omega)).2 h

theorem lt_of_group? {cs : List Char} {g : Nat} (h : group? cs = some g) : g < 65536 := by
  obtain ⟨-, hlength, hdigits⟩ := group?_eq_some_iff.1 h
  calc
    g < 16 ^ cs.length := digitsIn_lt hdigits
    _ ≤ 16 ^ 4 := Nat.pow_le_pow_right (by omega) hlength

/-- No digit of a group is a separator. -/
theorem not_mem_toDigits {c : Char} (hc : hexValue? c = none) (g : Nat) : c ∉ Nat.toDigits 16 g := by
  intro hmem
  obtain ⟨d, hd⟩ := hexValue?_of_digitsIn (digitsIn_toDigits g) hmem
  cases hc.symm.trans hd

theorem toList_writeGroups (gs : List Nat) :
    (writeGroups gs).toList = [':'].intercalate (gs.map (Nat.toDigits 16)) := by
  simp [writeGroups, Function.comp_def]

theorem toList_writeGroups_cons (g h : Nat) (gs : List Nat) :
    (writeGroups (g :: h :: gs)).toList =
      Nat.toDigits 16 g ++ ':' :: (writeGroups (h :: gs)).toList := by
  simp [toList_writeGroups]

/-- Groups start with a digit. -/
theorem exists_toList_writeGroups (g : Nat) (gs : List Nat) :
    ∃ d ds, (writeGroups (g :: gs)).toList = d :: ds ∧ d ≠ ':' := by
  have hg : ':' ∉ Nat.toDigits 16 g := not_mem_toDigits (by decide) g
  cases hdigits : Nat.toDigits 16 g with
  | nil => exact absurd hdigits Nat.toDigits_ne_nil
  | cons d ds =>
      rw [hdigits] at hg
      have hd : d ≠ ':' := fun heq => hg (heq ▸ List.mem_cons_self)
      cases gs with
      | nil => exact ⟨d, ds, by simp [toList_writeGroups, hdigits], hd⟩
      | cons g' gs => exact ⟨d, _, by rw [toList_writeGroups_cons, hdigits, List.cons_append], hd⟩

/-- Groups fit into sixteen bits. -/
def InRange (gs : List Nat) : Prop :=
  ∀ g ∈ gs, g < 65536

theorem groupList?_toDigits (dotted : Bool) {gs : List Nat} (h : InRange gs) :
    groupList? dotted (gs.map (Nat.toDigits 16)) = some gs := by
  induction gs with
  | nil => rfl
  | cons g gs ih =>
      obtain ⟨hg, hrest⟩ := List.forall_mem_cons.1 h
      have hgroup := group?_toDigits hg
      cases gs with
      | nil => simp [groupList?, hgroup]
      | cons g' gs =>
          have hgroups := ih hrest
          rw [List.map_cons] at hgroups
          simp [groupList?, hgroup, hgroups]

theorem groups?_writeGroups (dotted : Bool) {gs : List Nat} (h : InRange gs) :
    groups? dotted (writeGroups gs).toList = some gs := by
  cases gs with
  | nil => rfl
  | cons g gs =>
      have hfront : (writeGroups (g :: gs)).toList ≠ [] := by
        obtain ⟨d, ds, hchars, -⟩ := exists_toList_writeGroups g gs
        simp [hchars]
      have hsplit : splitOn ':' (writeGroups (g :: gs)).toList =
          (g :: gs).map (Nat.toDigits 16) := by
        rw [toList_writeGroups]
        refine splitOn_intercalate (by simp) ?_
        intro part hpart
        obtain ⟨n, -, rfl⟩ := List.mem_map.1 hpart
        exact not_mem_toDigits (by decide) n
      rw [groups?, hsplit, groupList?_toDigits dotted h]
      simp [hfront]

/-! ## The gap -/

/-- What is found behind characters among which no gap starts. -/
def behind (front : List Char) (found : Option (List Char × List Char)) :
    Option (List Char × List Char) :=
  found.map fun p => (front ++ p.1, p.2)

theorem behind_append (front more : List Char) (found : Option (List Char × List Char)) :
    behind (front ++ more) found = behind front (behind more found) := by
  cases found with
  | none => rfl
  | some p => simp [behind]

theorem splitGap_cons {c : Char} {r : List Char} (h : c ≠ ':' ∨ r.head? ≠ some ':') :
    splitGap (c :: r) = behind [c] (splitGap r) := by
  rw [splitGap.eq_def]
  split
  · next hnil => cases hnil
  · next hgap =>
      cases hgap
      simp at h
  · next heq =>
      cases heq
      rfl

theorem splitGap_append {front : List Char} (h : ':' ∉ front) (r : List Char) :
    splitGap (front ++ r) = behind front (splitGap r) := by
  induction front with
  | nil => cases hr : splitGap r <;> simp [behind, hr]
  | cons c front ih =>
      have hc : c ≠ ':' := fun heq => h (heq ▸ List.mem_cons_self)
      rw [List.cons_append, splitGap_cons (.inl hc), ih fun hmem => h (List.mem_cons_of_mem c hmem)]
      exact (behind_append [c] front _).symm

/-- No gap starts among groups. -/
theorem splitGap_writeGroups (gs : List Nat) (r : List Char) :
    splitGap ((writeGroups gs).toList ++ r) = behind (writeGroups gs).toList (splitGap r) := by
  induction gs with
  | nil => cases hr : splitGap r <;> simp [behind, hr, writeGroups]
  | cons g gs ih =>
      have hg : ':' ∉ Nat.toDigits 16 g := not_mem_toDigits (by decide) g
      cases gs with
      | nil =>
          rw [toList_writeGroups]
          simpa using splitGap_append hg r
      | cons g' gs =>
          -- Behind the colon stands a digit, so the colon starts no gap.
          have hdigit : ((writeGroups (g' :: gs)).toList ++ r).head? ≠ some ':' := by
            obtain ⟨d, ds, hchars, hd⟩ := exists_toList_writeGroups g' gs
            simpa [hchars] using hd
          rw [toList_writeGroups_cons, List.append_assoc, List.cons_append, splitGap_append hg,
            splitGap_cons (.inr hdigit), ih, ← behind_append, ← behind_append]
          simp

theorem drop_zeros (gs : List Nat) : gs = List.replicate (zeros gs) 0 ++ gs.drop (zeros gs) := by
  induction gs with
  | nil => rfl
  | cons g gs ih =>
      by_cases hg : g = 0
      · have hzeros : zeros (g :: gs) = zeros gs + 1 := by simp [zeros, hg]
        rw [hzeros, List.replicate_succ, List.drop_succ_cons, List.cons_append, ← ih, hg]
      · have hzeros : zeros (g :: gs) = 0 := by simp [zeros, hg]
        simp [hzeros]

/-- The gap is a run of zeros. -/
theorem longestGap_eq_some {gs : List Nat} {i n : Nat} (h : longestGap gs = some (i, n)) :
    2 ≤ n ∧ n = zeros (gs.drop i) := by
  -- Whatever the search has found so far is such a run.
  have hinvariant : ∀ best : Option (Nat × Nat), longestGap gs = best →
      ∀ p, best = some p → 2 ≤ p.2 ∧ p.2 = zeros (gs.drop p.1) := by
    intro best hbest
    rw [← hbest, longestGap]
    refine List.foldlRecOn _ _ (motive := fun best : Option (Nat × Nat) =>
      ∀ p, best = some p → 2 ≤ p.2 ∧ p.2 = zeros (gs.drop p.1)) (fun p hp => by cases hp) ?_
    intro best hbest j _ p hp
    grind
  exact hinvariant _ rfl _ h

/-- An address is the groups before its gap, the zeros of the gap and the groups behind it. -/
theorem gap_between {gs : List Nat} {i n : Nat} (h : longestGap gs = some (i, n)) :
    gs = gs.take i ++ List.replicate n 0 ++ gs.drop (i + n) := by
  obtain ⟨-, rfl⟩ := longestGap_eq_some h
  rw [List.append_assoc, ← List.drop_drop, ← drop_zeros, List.take_append_drop]

/-! ## Addresses of 128 bits -/

/-- An address of eight groups is read from its shortest spelling. -/
theorem read?_write {gs : List Nat} (hlength : gs.length = 8) (h : InRange gs) :
    read? (write gs).toList = some gs := by
  cases hgap : longestGap gs with
  | none =>
      have hsplit : splitGap (writeGroups gs).toList = none := by
        simpa [splitGap, behind] using splitGap_writeGroups gs []
      simp [read?, write, hgap, hsplit, groups?_writeGroups true h, hlength]
  | some p =>
      obtain ⟨i, n⟩ := p
      have hfront : InRange (gs.take i) := fun g hg => h g (List.mem_of_mem_take hg)
      have hback : InRange (gs.drop (i + n)) := fun g hg => h g (List.mem_of_mem_drop hg)
      have hbetween := gap_between hgap
      have hsplit : splitGap (write gs).toList =
          some ((writeGroups (gs.take i)).toList, (writeGroups (gs.drop (i + n))).toList) := by
        have hsplit := splitGap_writeGroups (gs.take i)
          (':' :: ':' :: (writeGroups (gs.drop (i + n))).toList)
        simpa [write, hgap, splitGap, behind] using hsplit
      have htotal : (gs.take i).length + n + (gs.drop (i + n)).length = 8 := by
        rw [← hlength]
        conv_rhs => rw [hbetween]
        simp [Nat.add_assoc]
      have htwo := (longestGap_eq_some hgap).1
      -- As many zeros are put in as the groups around the gap leave of eight.
      have hzeros : 8 - (gs.take i).length - (gs.drop (i + n)).length = n := by omega
      rw [read?, hsplit]
      simp only [groups?_writeGroups false hfront, groups?_writeGroups true hback]
      rw [if_pos (by omega), hzeros, ← hbetween]

theorem write_injective {gs hs : List Nat} (hgs : gs.length = 8 ∧ InRange gs)
    (hhs : hs.length = 8 ∧ InRange hs) (h : write gs = write hs) : gs = hs := by
  have hread := read?_write hgs.1 hgs.2
  rw [h, read?_write hhs.1 hhs.2] at hread
  exact (Option.some.inj hread).symm

theorem not_mem_writeGroups {c : Char} (hcolon : c ≠ ':') (hdigit : hexValue? c = none)
    (gs : List Nat) : c ∉ (writeGroups gs).toList := by
  induction gs with
  | nil => simp [writeGroups]
  | cons g gs ih =>
      have hg := not_mem_toDigits hdigit g
      cases gs with
      | nil =>
          rw [toList_writeGroups]
          simpa using hg
      | cons g' gs =>
          rw [toList_writeGroups_cons, List.mem_append, List.mem_cons]
          exact not_or.2 ⟨hg, not_or.2 ⟨hcolon, ih⟩⟩

/-- The spelling consists of digits and colons. -/
theorem not_mem_write {c : Char} (hcolon : c ≠ ':') (hdigit : hexValue? c = none) (gs : List Nat) :
    c ∉ (write gs).toList := by
  have hgroups := not_mem_writeGroups hcolon hdigit
  rw [write]
  split
  · exact hgroups gs
  · simp [hgroups, hcolon]

/-! ## What is read -/

/-- What holds of every result holds of all the results. -/
theorem forall_of_mapM {α β : Type} {f : α → Option β} {P : β → Prop}
    (hf : ∀ a b, f a = some b → P b) {xs : List α} {ys : List β} (h : xs.mapM f = some ys) :
    ∀ y ∈ ys, P y := by
  induction xs generalizing ys with
  | nil =>
      cases h
      exact List.forall_mem_nil _
  | cons x xs ih =>
      simp only [List.mapM_cons, Option.bind_eq_bind, Option.bind_eq_some_iff] at h
      obtain ⟨y, hy, zs, hzs, hys⟩ := h
      cases hys
      exact List.forall_mem_cons.2 ⟨hf x y hy, ih hzs⟩

theorem lt_of_octet? {cs : List Char} {n : Nat} (h : octet? cs = some n) : n < 256 := by
  rw [octet?.eq_def] at h
  split at h
  · cases h
    decide
  · cases h
  · cases h
  · split at h
    · next m hm => grind
    · cases h

theorem inRange_of_dotted? {cs : List Char} {gs : List Nat} (h : dotted? cs = some gs) :
    InRange gs := by
  rw [dotted?] at h
  split at h
  · next a b c d hoctets =>
      cases h
      have hsmall := forall_of_mapM (fun _ _ => lt_of_octet?) hoctets
      simp only [List.forall_mem_cons] at hsmall
      simp only [InRange, List.forall_mem_cons]
      exact ⟨by omega, by omega, List.forall_mem_nil _⟩
  · cases h

theorem inRange_of_groupList? {dotted : Bool} {parts : List (List Char)} {gs : List Nat}
    (h : groupList? dotted parts = some gs) : InRange gs := by
  induction parts generalizing gs with
  | nil =>
      cases h
      exact List.forall_mem_nil _
  | cons l ls ih =>
      cases ls with
      | nil =>
          simp only [groupList?] at h
          cases hgroup : group? l with
          | some g =>
              obtain rfl : [g] = gs := by simpa [hgroup] using h
              exact List.forall_mem_singleton.2 (lt_of_group? hgroup)
          | none =>
              -- Only the dotted spelling is left, and it has to be allowed.
              rw [hgroup] at h
              cases dotted with
              | false => cases h
              | true => exact inRange_of_dotted? h
      | cons l' ls =>
          simp only [groupList?] at h
          cases hgroup : group? l with
          | none => simp [hgroup] at h
          | some g =>
              cases hgroups : groupList? dotted (l' :: ls) with
              | none => simp [hgroups] at h
              | some rest =>
                  obtain rfl : g :: rest = gs := by simpa [hgroup, hgroups] using h
                  exact List.forall_mem_cons.2 ⟨lt_of_group? hgroup, ih hgroups⟩

theorem inRange_of_groups? {dotted : Bool} {cs : List Char} {gs : List Nat}
    (h : groups? dotted cs = some gs) : InRange gs := by
  rw [groups?] at h
  split at h
  · cases h
    exact List.forall_mem_nil _
  · exact inRange_of_groupList? h

/-- What is read as an address of 128 bits is one. -/
theorem inRange_of_read? {cs : List Char} {gs : List Nat} (h : read? cs = some gs) :
    gs.length = 8 ∧ InRange gs := by
  rw [read?] at h
  split at h
  · split at h
    · next hs hgroups =>
        obtain ⟨hlength, hsame⟩ := Option.ite_none_right_eq_some.1 h
        cases hsame
        exact ⟨hlength, inRange_of_groups? hgroups⟩
    · cases h
  · split at h
    · next xs ys hfront hback =>
        obtain ⟨hroom, hsame⟩ := Option.ite_none_right_eq_some.1 h
        cases hsame
        refine ⟨by simp; omega, fun g hg => ?_⟩
        simp only [List.mem_append, List.mem_replicate] at hg
        rcases hg with (hg | hg) | hg
        · exact inRange_of_groups? hfront g hg
        · omega
        · exact inRange_of_groups? hback g hg
    · cases h

end Ipv6

end LiveFeed.Url
