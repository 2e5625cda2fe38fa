import LiveFeed.Proofs.EncodedText
import LiveFeed.Proofs.NumericHosts

/-!
# Text in forms

A form writes text in few characters and gives all of it back: every character is read again from its
octets, and these from the signs they are encoded with.

* `Text.decodeFrom_octets`, `Text.decodeLossy_utf8`: UTF-8 is read as it was written;
* `Url.formDecode_formEncode`: so are the names and values of a form;
* `Url.FormText`, `Url.formText_formEncode`: the characters they are written in;
* `Url.formPairs_formPair`: a form with one pair holds this one and no other.
-/

namespace LiveFeed

namespace Text

/-! ## UTF-8 -/

theorem decodeFrom_ascii {b : Nat} (h : b < 0x80) (bs : List Nat) :
    decodeFrom .fresh (b :: bs) = Char.ofNat b :: decodeFrom .fresh bs := by
  rw [decodeFrom, Utf8State.next, beginChar, if_pos h]
  rfl

theorem decodeFrom_lead {b owed low high bits : Nat} (h : ¬ b < 0x80)
    (hlead : lead b = some (owed, low, high, bits)) (bs : List Nat) :
    decodeFrom .fresh (b :: bs) = decodeFrom (.within owed low high bits) bs := by
  rw [decodeFrom, Utf8State.next, beginChar, if_neg h, hlead]
  rfl

theorem decodeFrom_more {b owed low high bits : Nat} (howed : 1 < owed) (hlow : low ≤ b)
    (hhigh : b ≤ high) (bs : List Nat) :
    decodeFrom (.within owed low high bits) (b :: bs) =
      decodeFrom (.within (owed - 1) 0x80 0xBF (bits * 0x40 + (b - 0x80))) bs := by
  rw [decodeFrom, Utf8State.next, if_pos (by simp [hlow, hhigh])]
  dsimp only
  rw [if_neg (by omega)]
  rfl

theorem decodeFrom_last {b low high bits : Nat} (hlow : low ≤ b) (hhigh : b ≤ high)
    (bs : List Nat) :
    decodeFrom (.within 1 low high bits) (b :: bs) =
      Char.ofNat (bits * 0x40 + (b - 0x80)) :: decodeFrom .fresh bs := by
  rw [decodeFrom, Utf8State.next, if_pos (by simp [hlow, hhigh])]
  rfl

theorem lead_two {k : Nat} (hlow : 2 ≤ k) (hhigh : k < 0x20) :
    lead (0xC0 + k) = some (1, 0x80, 0xBF, k) := by
  have hall : ∀ j < 0x1E, lead (0xC0 + (j + 2)) = some (1, 0x80, 0xBF, j + 2) := by decide
  rw [← Nat.sub_add_cancel hlow]
  exact hall (k - 2) (by omega)

theorem lead_three : ∀ k < 0x10, lead (0xE0 + k) =
    some (2, if k = 0 then 0xA0 else 0x80, if k = 0xD then 0x9F else 0xBF, k) := by
  decide

theorem lead_four : ∀ k < 5, lead (0xF0 + k) =
    some (3, if k = 0 then 0x90 else 0x80, if k = 4 then 0x8F else 0xBF, k) := by
  decide

theorem ofNat_eq {n : Nat} {c : Char} (h : n = c.toNat) : Char.ofNat n = c := by
  rw [h, Char.ofNat_toNat]

/-- The octets of a character are read as this character, whatever follows. -/
theorem decodeFrom_octets (c : Char) (bs : List Nat) :
    decodeFrom .fresh (octets c ++ bs) = c :: decodeFrom .fresh bs := by
  have hvalid : c.toNat < 0xD800 ∨ 0xDFFF < c.toNat ∧ c.toNat < 0x110000 := c.valid
  rw [octets]
  split
  · next hone => rw [List.singleton_append, decodeFrom_ascii hone, ofNat_eq (c := c) rfl]
  split
  · next hone htwo =>
      have hlead := @lead_two (c.toNat / 0x40) (by omega) (by omega)
      rw [List.cons_append, List.singleton_append, decodeFrom_lead (by omega) hlead,
        decodeFrom_last (by omega) (by omega), ofNat_eq (c := c) (by omega)]
  split
  · next htwo hthree =>
      have hlead := lead_three (c.toNat / 0x1000) (by omega)
      -- Neither what fits in fewer octets nor a surrogate is written.
      have hlow : (if c.toNat / 0x1000 = 0 then 0xA0 else 0x80) ≤ 0x80 + c.toNat / 0x40 % 0x40 := by
        split <;> omega
      have hhigh : 0x80 + c.toNat / 0x40 % 0x40 ≤ if c.toNat / 0x1000 = 0xD then 0x9F else 0xBF := by
        split <;> omega
      rw [List.cons_append, List.cons_append, List.singleton_append,
        decodeFrom_lead (by omega) hlead, decodeFrom_more (by omega) hlow hhigh,
        decodeFrom_last (by omega) (by omega), ofNat_eq (c := c) (by omega)]
  · next hthree =>
      have hlead := lead_four (c.toNat / 0x40000) (by omega)
      have hlow : (if c.toNat / 0x40000 = 0 then 0x90 else 0x80) ≤
          0x80 + c.toNat / 0x1000 % 0x40 := by
        split <;> omega
      have hhigh : 0x80 + c.toNat / 0x1000 % 0x40 ≤
          if c.toNat / 0x40000 = 4 then 0x8F else 0xBF := by
        split <;> omega
      rw [List.cons_append, List.cons_append, List.cons_append, List.singleton_append,
        decodeFrom_lead (by omega) hlead, decodeFrom_more (by omega) hlow hhigh,
        decodeFrom_more (by omega) (by omega) (by omega), decodeFrom_last (by omega) (by omega),
        ofNat_eq (c := c) (by omega)]

/-- Text is read as it was written. -/
theorem decodeLossy_utf8 (cs : List Char) : decodeLossy (utf8 cs) = cs := by
  rw [decodeLossy]
  induction cs with
  | nil => rfl
  | cons c cs ih => rw [utf8, List.flatMap_cons, decodeFrom_octets, ← utf8, ih]

end Text

namespace Url

/-! ## Names and values -/

/-- The `+` of a form stands for a blank. -/
def unplus (cs : List Char) : List Char :=
  cs.map fun c => if c = '+' then ' ' else c

theorem percentDecode_cons {c : Char} (hc : c ≠ '%') (cs : List Char) :
    percentDecode (c :: cs) = Text.octets c ++ percentDecode cs := by
  rw [percentDecode]
  rintro a b r rfl
  exact absurd rfl hc

theorem hexValue?_hexUpper : ∀ n < 16, hexValue? (hexUpper n) = some n := by
  decide

theorem percentDecode_encodeOctet {b : Nat} (h : b < 256) (cs : List Char) :
    percentDecode (encodeOctet b ++ cs) = b :: percentDecode cs := by
  have hhigh := hexValue?_hexUpper (b / 16) (by omega)
  have hlow := hexValue?_hexUpper (b % 16) (by omega)
  have hvalue : b / 16 * 16 + b % 16 = b := by omega
  rw [encodeOctet, List.cons_append, List.cons_append, List.cons_append, List.nil_append,
    percentDecode, hhigh, hlow]
  dsimp only
  rw [hvalue]

theorem unplus_encodeOctet {b : Nat} (h : b < 256) : unplus (encodeOctet b) = encodeOctet b := by
  have hdigits : ∀ n < 16, hexUpper n ≠ '+' := by decide
  rw [unplus]
  refine (List.map_congr_left fun c hc => if_neg ?_).trans (List.map_id _)
  rcases mem_encodeOctet h hc with rfl | ⟨n, hn, rfl⟩
  · decide
  · exact hdigits n hn

theorem percentDecode_flatMap_encodeOctet {bs : List Nat} (h : ∀ b ∈ bs, b < 256) (cs : List Char) :
    percentDecode (bs.flatMap encodeOctet ++ cs) = bs ++ percentDecode cs := by
  induction bs with
  | nil => rfl
  | cons b bs ih =>
      rw [List.forall_mem_cons] at h
      rw [List.flatMap_cons, List.append_assoc, percentDecode_encodeOctet h.1, ih h.2,
        List.cons_append]

theorem percentDecode_octets {bs : List Nat} (h : ∀ b ∈ bs, b < 256) (cs : List Char) :
    percentDecode (unplus (bs.flatMap encodeOctet) ++ cs) = bs ++ percentDecode cs := by
  have hunplus : unplus (bs.flatMap encodeOctet) = bs.flatMap encodeOctet := by
    rw [unplus, List.map_flatMap]
    exact List.flatMap_congr fun b hb => unplus_encodeOctet (h b hb)
  rw [hunplus, percentDecode_flatMap_encodeOctet h]

/-- A character of a form is read as its octets, whatever follows. -/
theorem percentDecode_formChar (c : Char) (cs : List Char) :
    percentDecode (unplus (formChar c) ++ cs) = Text.octets c ++ percentDecode cs := by
  rw [formChar]
  split
  · next hblank =>
      subst hblank
      exact percentDecode_cons (by decide) cs
  split
  · next hstands =>
      have hne : ∀ d, standsInForm d = false → c ≠ d := by
        rintro d hd rfl
        rw [hstands] at hd
        cases hd
      have hplus : unplus [c] = [c] := by simp [unplus, hne '+' (by decide)]
      rw [hplus, List.singleton_append, percentDecode_cons (hne '%' (by decide))]
  · exact percentDecode_octets (octets_lt c) cs

theorem percentDecode_formEncode (cs : List Char) :
    percentDecode (unplus (formEncode cs)) = Text.utf8 cs := by
  induction cs with
  | nil => rfl
  | cons c cs ih =>
      rw [formEncode, List.flatMap_cons, unplus, List.map_append, ← unplus, ← unplus, ← formEncode,
        percentDecode_formChar, ih]
      rfl

/-- A name or value is read from a form as it was written. -/
theorem formDecode_formEncode (cs : List Char) : formDecode (formEncode cs) = String.ofList cs := by
  rw [formDecode, ← unplus, percentDecode_formEncode, Text.decodeLossy_utf8]

/-! ## Pairs -/

/-- The characters that names and values are written in. -/
def FormText (cs : List Char) : Prop :=
  ∀ c ∈ cs, c = '+' ∨ c = '%' ∨ standsInForm c = true

theorem formText_formEncode (cs : List Char) : FormText (formEncode cs) := by
  have hdigits : ∀ n < 16, standsInForm (hexUpper n) = true := by decide
  intro d hd
  obtain ⟨c, -, hd⟩ := List.mem_flatMap.1 hd
  rw [formChar] at hd
  split at hd
  · exact .inl (List.mem_singleton.1 hd)
  split at hd
  · next hstands => exact .inr (.inr (List.mem_singleton.1 hd ▸ hstands))
  · obtain ⟨b, hb, hd⟩ := List.mem_flatMap.1 hd
    rcases mem_encodeOctet (octets_lt c b hb) hd with hsign | ⟨n, hn, rfl⟩
    · exact .inr (.inl hsign)
    · exact .inr (.inr (hdigits n hn))

/-- Signs that mean something in an address or in a form are not among them. -/
theorem FormText.ne {cs : List Char} (h : FormText cs) {sign : Char} (hplus : sign ≠ '+')
    (hpercent : sign ≠ '%') (hsign : standsInForm sign = false) : ∀ c ∈ cs, c ≠ sign := by
  rintro c hc rfl
  rcases h c hc with heq | heq | hstands
  · exact hplus heq
  · exact hpercent heq
  · rw [hsign] at hstands
    cases hstands

theorem readPair_formPair (name value : String) :
    readPair (formPair name value).toList = (name, value) := by
  have hname : ∀ c ∈ formEncode name.toList, (c != '=') = true := by
    intro c hc
    exact bne_iff_ne.2 ((formText_formEncode _).ne (by decide) (by decide) (by decide) c hc)
  have htake : (formPair name value).toList.takeWhile (· != '=') = formEncode name.toList := by
    rw [formPair, String.toList_ofList, List.takeWhile_append_of_pos hname]
    simp
  have hdrop : ((formPair name value).toList.dropWhile (· != '=')).drop 1 =
      formEncode value.toList := by
    rw [formPair, String.toList_ofList, List.dropWhile_append_of_pos hname]
    rfl
  rw [readPair, htake, hdrop, formDecode_formEncode, formDecode_formEncode, String.ofList_toList,
    String.ofList_toList]

theorem splitOn_of_not_mem {sep : Char} {cs : List Char} (h : sep ∉ cs) : splitOn sep cs = [cs] := by
  have hsplit := splitOn_intercalate (List.cons_ne_nil cs []) (List.forall_mem_singleton.2 h)
  rwa [List.intercalate_singleton] at hsplit

/-- A form with one pair is read as this pair. -/
theorem formPairs_formPair (name value : String) :
    formPairs (formPair name value) = [(name, value)] := by
  have hwritten : (formPair name value).toList =
      formEncode name.toList ++ '=' :: formEncode value.toList := String.toList_ofList
  have hpart : '&' ∉ (formPair name value).toList := by
    rw [hwritten]
    intro hmem
    rcases List.mem_append.1 hmem with hname | hvalue
    · exact (formText_formEncode _).ne (by decide) (by decide) (by decide) _ hname rfl
    · rcases List.mem_cons.1 hvalue with heq | hvalue
      · exact absurd heq (by decide)
      · exact (formText_formEncode _).ne (by decide) (by decide) (by decide) _ hvalue rfl
  have hkept : [(formPair name value).toList].filter (!·.isEmpty) = [(formPair name value).toList] := by
    rw [hwritten]
    simp
  rw [formPairs, splitOn_of_not_mem hpart, hkept, List.map_singleton, readPair_formPair]

/-- Blanks, signs of forms and of encoding, an umlaut and a character beyond the first plane. -/
example : formPairs (formPair "token" "a b+c%26&x=1#ü𝄞") = [("token", "a b+c%26&x=1#ü𝄞")] := by
  cbv

end Url

end LiveFeed
