import LiveFeed.Url.Percent

/-!
# Encoded text

Encoding a text with a set leaves ASCII characters outside of the set, and these it leaves alone.  So
what was encoded is encoded already.

* `Settled`, `percentEncode_of_settled`: text that encoding leaves alone;
* `SparesCodes`, `settled_percentEncode`: what encoding makes of a text is such text.
-/

namespace LiveFeed.Url

/-- Text that encoding with a set leaves alone. -/
def Settled (set : EncodeSet) (cs : List Char) : Prop :=
  ∀ c ∈ cs, c.toNat < 0x80 ∧ set c = false

-- The characters of the text are gone through; there are too many others to go through all.
instance (set : EncodeSet) (cs : List Char) : Decidable (Settled set cs) :=
  List.decidableBAll (fun c : Char => c.toNat < 0x80 ∧ set c = false) cs

/-- The set has no character that encoded octets are written with. -/
def SparesCodes (set : EncodeSet) : Prop :=
  set '%' = false ∧ ∀ n < 16, set (hexUpper n) = false

instance (set : EncodeSet) : Decidable (SparesCodes set) :=
  inferInstanceAs (Decidable (_ ∧ _))

theorem Settled.append {set : EncodeSet} {cs ds : List Char} (hc : Settled set cs)
    (hd : Settled set ds) : Settled set (cs ++ ds) :=
  List.forall_mem_append.2 ⟨hc, hd⟩

theorem percentEncode_of_settled {set : EncodeSet} {cs : List Char} (h : Settled set cs) :
    percentEncode set cs = cs := by
  induction cs with
  | nil => rfl
  | cons c cs ih =>
      obtain ⟨⟨hascii, hplain⟩, hrest⟩ := List.forall_mem_cons.1 h
      have hc : encodeChar set c = [c] := by simp [encodeChar, hascii, hplain]
      rw [percentEncode, List.flatMap_cons, hc, ← percentEncode, ih hrest, List.singleton_append]

theorem octets_lt (c : Char) : ∀ b ∈ Text.octets c, b < 256 := by
  have hchar : c.toNat < 0x110000 := by
    rcases c.valid with hlow | ⟨-, hhigh⟩
    · exact Nat.lt_trans hlow (by decide)
    · exact hhigh
  rw [Text.octets]
  split
  · exact List.forall_mem_singleton.2 (by omega)
  split
  · simp only [List.forall_mem_cons]
    exact ⟨by omega, by omega, List.forall_mem_nil _⟩
  split
  · simp only [List.forall_mem_cons]
    exact ⟨by omega, by omega, by omega, List.forall_mem_nil _⟩
  · simp only [List.forall_mem_cons]
    exact ⟨by omega, by omega, by omega, by omega, List.forall_mem_nil _⟩

/-- An encoded octet is written with a sign and two digits. -/
theorem mem_encodeOctet {b : Nat} (h : b < 256) {c : Char} (hc : c ∈ encodeOctet b) :
    c = '%' ∨ ∃ n < 16, c = hexUpper n := by
  rcases List.mem_cons.1 hc with hsign | hdigit
  · exact .inl hsign
  · rcases List.mem_cons.1 hdigit with hhigh | hlow
    · exact .inr ⟨b / 16, by omega, hhigh⟩
    · exact .inr ⟨b % 16, by omega, List.mem_singleton.1 hlow⟩

/-- What encoding makes of a character: it stands for itself, or its octets are encoded. -/
theorem mem_encodeChar {set : EncodeSet} {c d : Char} (hd : d ∈ encodeChar set c) :
    (d = c ∧ c.toNat < 0x80 ∧ set c = false) ∨ d = '%' ∨ ∃ n < 16, d = hexUpper n := by
  rw [encodeChar] at hd
  split at hd
  · next hplain =>
      simp only [Bool.and_eq_true, decide_eq_true_eq, Bool.not_eq_true'] at hplain
      exact .inl ⟨List.mem_singleton.1 hd, hplain⟩
  · obtain ⟨b, hb, hd⟩ := List.mem_flatMap.1 hd
    exact .inr (mem_encodeOctet (octets_lt c b hb) hd)

/-- What was encoded is settled. -/
theorem settled_percentEncode {set : EncodeSet} (hset : SparesCodes set) (cs : List Char) :
    Settled set (percentEncode set cs) := by
  have hdigits : ∀ n < 16, (hexUpper n).toNat < 0x80 := by decide
  intro d hd
  obtain ⟨c, -, hd⟩ := List.mem_flatMap.1 hd
  rcases mem_encodeChar hd with ⟨rfl, hplain⟩ | rfl | ⟨n, hn, rfl⟩
  · exact hplain
  · exact ⟨by decide, hset.1⟩
  · exact ⟨hdigits n hn, hset.2 n hn⟩

end LiveFeed.Url
