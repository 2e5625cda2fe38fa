import LiveFeed.Proofs.FormText

/-!
# Encoded octets in a text

Encoding for a path leaves what is encoded already as it is.  So decoding makes the same of a text
whether it was encoded before or not, and it gives the text back only if no encoded octet stands in
it.

* `holdsCode`: whether an encoded octet stands in a text;
* `decoding_induction`: induction along the pieces that decoding reads;
* `percentDecode_percentEncode`: encoding changes nothing of what is decoded;
* `percentDecode_eq_utf8_iff`: the texts that decoding gives back.
-/

namespace LiveFeed.Url

/-- Whether a text begins with two hexadecimal digits. -/
def leadsDigits : List Char → Bool
  | a :: b :: _ => (hexValue? a).isSome && (hexValue? b).isSome
  | _ => false

/-- Whether an encoded octet stands in a text: `%` with two hexadecimal digits behind it. -/
def holdsCode : List Char → Bool
  | [] => false
  | c :: cs => c == '%' && leadsDigits cs || holdsCode cs

/-! ## What decoding reads -/

theorem percentDecode_code {a b : Char} {x y : Nat} (ha : hexValue? a = some x)
    (hb : hexValue? b = some y) (cs : List Char) :
    percentDecode ('%' :: a :: b :: cs) = (x * 16 + y) :: percentDecode cs := by
  rw [percentDecode, ha, hb]

/-- A sign without two digits behind it stands for itself. -/
theorem percentDecode_sign {cs : List Char} (h : leadsDigits cs = false) :
    percentDecode ('%' :: cs) = 0x25 :: percentDecode cs := by
  match cs with
  | [] => rfl
  | [a] =>
      rw [percentDecode]
      · rfl
      · intro b c rest heq hcons
        cases hcons
  | a :: b :: cs =>
      rw [percentDecode]
      cases ha : hexValue? a with
      | none => rfl
      | some x =>
          cases hb : hexValue? b with
          | none => rfl
          | some y => simp [leadsDigits, ha, hb] at h

/-- What decoding reads of a text is an encoded octet, a sign that stands for itself, or any other
character. -/
@[elab_as_elim]
theorem decoding_induction {motive : List Char → Prop} (nil : motive [])
    (code : ∀ (a b : Char) (x y : Nat) (cs : List Char), hexValue? a = some x → hexValue? b = some y →
      motive cs → motive ('%' :: a :: b :: cs))
    (sign : ∀ cs : List Char, leadsDigits cs = false → motive cs → motive ('%' :: cs))
    (char : ∀ (c : Char) (cs : List Char), c ≠ '%' → motive cs → motive (c :: cs)) (cs : List Char) :
    motive cs := by
  induction cs using percentDecode.induct with
  | case1 => exact nil
  | case2 a b cs x y hb ha ih => exact code a b x y cs ha hb ih
  | case3 a b cs hnot ih =>
      refine sign (a :: b :: cs) ?_ ih
      rw [leadsDigits, Bool.and_eq_false_iff]
      cases ha : hexValue? a with
      | none => exact .inl rfl
      | some x =>
          cases hb : hexValue? b with
          | none => exact .inr rfl
          | some y => exact (hnot x y ha hb).elim
  | case4 c cs hnot ih =>
      by_cases hc : c = '%'
      · subst hc
        refine sign cs ?_ ih
        -- There are not two characters behind the sign.
        match cs with
        | [] => rfl
        | [a] => rfl
        | a :: b :: cs => exact (hnot a b cs rfl rfl).elim
      · exact char c cs hc ih

/-! ## Decoding what was encoded -/

theorem octets_length_pos (c : Char) : 0 < (Text.octets c).length := by
  rw [Text.octets]
  repeat' split
  all_goals simp

/-- Hexadecimal digits are not encoded in a path. -/
theorem path_of_hexValue? {c : Char} (h : (hexValue? c).isSome = true) :
    c.toNat < 0x80 ∧ EncodeSet.path c = false := by
  have hall : ∀ n < 0x80, (hexValue? (Char.ofNat n)).isSome = true →
      EncodeSet.path (Char.ofNat n) = false := by decide
  have hascii : c.toNat < 0x80 := by
    unfold hexValue? at h
    grind
  refine ⟨hascii, ?_⟩
  have hc := hall c.toNat hascii
  rw [Char.ofNat_toNat] at hc
  exact hc h

/-- A character is encoded as itself, or it is no hexadecimal digit and a sign comes first. -/
theorem encodeChar_cases (c : Char) : encodeChar .path c = [c] ∨
    hexValue? c = none ∧ ∃ rest, encodeChar .path c = '%' :: rest := by
  rw [encodeChar]
  split
  · exact .inl rfl
  · next hencoded =>
      refine .inr ⟨?_, ?_⟩
      · cases hvalue : hexValue? c with
        | none => rfl
        | some x =>
            have hc := path_of_hexValue? (Option.isSome_of_eq_some hvalue)
            simp [hc] at hencoded
      · obtain ⟨b, bs, hoctets⟩ := List.exists_cons_of_length_pos (octets_length_pos c)
        exact ⟨_, by rw [hoctets, List.flatMap_cons, encodeOctet]; rfl⟩

theorem percentEncode_cons (set : EncodeSet) (c : Char) (cs : List Char) :
    percentEncode set (c :: cs) = encodeChar set c ++ percentEncode set cs :=
  List.flatMap_cons

theorem leadsDigits_percentEncode (cs : List Char) :
    leadsDigits (percentEncode .path cs) = leadsDigits cs := by
  have hsign : ∀ rest, leadsDigits ('%' :: rest) = false := by
    intro rest
    cases rest <;> rfl
  have hsecond : ∀ (a : Char) (rest : List Char), leadsDigits (a :: '%' :: rest) = false := by
    intro a rest
    rw [leadsDigits, Bool.and_eq_false_iff]
    exact .inr rfl
  match cs with
  | [] => rfl
  | [a] =>
      rw [percentEncode_cons]
      rcases encodeChar_cases a with heq | ⟨-, rest, heq⟩
      · rw [heq]
        rfl
      · rw [heq, List.cons_append, hsign]
        rfl
  | a :: b :: cs =>
      rw [percentEncode_cons, percentEncode_cons, leadsDigits]
      rcases encodeChar_cases a with heq | ⟨hnone, rest, heq⟩
      · rw [heq, List.singleton_append]
        rcases encodeChar_cases b with heq' | ⟨hnone', rest', heq'⟩
        · rw [heq']
          rfl
        · rw [heq', List.cons_append, hsecond, hnone']
          simp
      · rw [heq, List.cons_append, hsign, hnone]
        rfl

theorem percentDecode_encodeChar {c : Char} (hc : c ≠ '%') (cs : List Char) :
    percentDecode (encodeChar .path c ++ cs) = Text.octets c ++ percentDecode cs := by
  rw [encodeChar]
  split
  · exact percentDecode_cons hc cs
  · exact percentDecode_flatMap_encodeOctet (octets_lt c) cs

/-- Encoding changes nothing of what is decoded. -/
theorem percentDecode_percentEncode (cs : List Char) :
    percentDecode (percentEncode .path cs) = percentDecode cs := by
  have hsign : encodeChar .path '%' = ['%'] := by decide
  induction cs using decoding_induction with
  | nil => rfl
  | code a b x y cs ha hb ih =>
      have hstands : ∀ {c : Char} {z : Nat}, hexValue? c = some z → encodeChar .path c = [c] := by
        intro c z hz
        rcases encodeChar_cases c with heq | ⟨hnone, -⟩
        · exact heq
        · cases hz.symm.trans hnone
      rw [percentEncode_cons, percentEncode_cons, percentEncode_cons, hsign, hstands ha, hstands hb,
        List.singleton_append, List.singleton_append, List.singleton_append, percentDecode_code ha hb,
        percentDecode_code ha hb, ih]
  | sign cs hdigits ih =>
      rw [percentEncode_cons, hsign, List.singleton_append, percentDecode_sign hdigits,
        percentDecode_sign ((leadsDigits_percentEncode cs).trans hdigits), ih]
  | char c cs hc ih =>
      rw [percentEncode_cons, percentDecode_encodeChar hc, percentDecode_cons hc, ih]

/-! ## Texts that decoding gives back -/

theorem utf8_cons (c : Char) (cs : List Char) : Text.utf8 (c :: cs) = Text.octets c ++ Text.utf8 cs :=
  List.flatMap_cons

theorem percentDecode_of_holdsCode {cs : List Char} (h : holdsCode cs = false) :
    percentDecode cs = Text.utf8 cs := by
  induction cs using decoding_induction with
  | nil => rfl
  | code a b x y cs ha hb ih => simp [holdsCode, leadsDigits, ha, hb] at h
  | sign cs hdigits ih =>
      rw [holdsCode, hdigits, Bool.and_false, Bool.false_or] at h
      rw [percentDecode_sign hdigits, ih h]
      rfl
  | char c cs hc ih =>
      rw [holdsCode, Bool.or_eq_false_iff] at h
      rw [percentDecode_cons hc, ih h.2, utf8_cons]

/-- Decoding gives no more octets than the text has, and fewer if one of them was encoded. -/
theorem length_percentDecode_le (cs : List Char) :
    (percentDecode cs).length + (if holdsCode cs then 1 else 0) ≤ (Text.utf8 cs).length := by
  induction cs using decoding_induction with
  | nil => decide
  | code a b x y cs ha hb ih =>
      have hpos := octets_length_pos
      have hle : (if holdsCode ('%' :: a :: b :: cs) then 1 else 0) ≤ 1 := by split <;> omega
      rw [percentDecode_code ha hb, utf8_cons, utf8_cons, utf8_cons]
      simp only [List.length_cons, List.length_append]
      have h₁ := hpos '%'
      have h₂ := hpos a
      have h₃ := hpos b
      omega
  | sign cs hdigits ih =>
      have hholds : holdsCode ('%' :: cs) = holdsCode cs := by
        rw [holdsCode, hdigits, Bool.and_false, Bool.false_or]
      rw [hholds, percentDecode_sign hdigits, utf8_cons, List.length_append, List.length_cons]
      have hpos := octets_length_pos '%'
      omega
  | char c cs hc ih =>
      have hholds : holdsCode (c :: cs) = holdsCode cs := by simp [holdsCode, hc]
      rw [hholds, percentDecode_cons hc, utf8_cons, List.length_append, List.length_append]
      omega

/-- Decoding gives back the texts in which no encoded octet stands, and no others. -/
theorem percentDecode_eq_utf8_iff {cs : List Char} :
    percentDecode cs = Text.utf8 cs ↔ holdsCode cs = false := by
  constructor
  · intro h
    have hlength := length_percentDecode_le cs
    rw [h] at hlength
    cases hholds : holdsCode cs with
    | false => rfl
    | true =>
        rw [hholds, if_pos rfl] at hlength
        omega
  · exact percentDecode_of_holdsCode

end LiveFeed.Url
