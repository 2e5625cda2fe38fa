import LiveFeed.Proofs.FormText
import LiveFeed.Proofs.SocketAddresses

/-!
# The token in the socket's address

The token is the value of the only pair in the query.  It is written in characters that end neither the
pair nor the query, and what is logged of the address does not depend on it.

* `FormText.settled`: a form stands in a query as it is;
* `readQuery_formPair`: behind its mark it is read as the query and leaves nothing;
* `CarriesToken`: what the address of a socket has to do with the token;
* `token_stays_in_query`: whatever the token is, it comes back, and nothing else of the address changes.
-/

namespace LiveFeed

namespace Url

theorem lt_of_standsInForm {c : Char} (h : standsInForm c = true) : c.toNat < 0x80 := by
  have hbound : ∀ d : Char, d.toNat < 0x80 → c.val ≤ d.val → c.toNat < 0x80 := fun d hd hle =>
    Nat.lt_of_le_of_lt (UInt32.le_iff_toNat_le.1 hle) hd
  simp only [standsInForm, Char.isAlphanum, Char.isAlpha, Char.isUpper, Char.isLower, Char.isDigit,
    Bool.or_eq_true, Bool.and_eq_true, decide_eq_true_eq, List.mem_cons, List.not_mem_nil,
    or_false] at h
  rcases h with ((⟨-, hupper⟩ | ⟨-, hlower⟩) | ⟨-, hdigit⟩) | rfl | rfl | rfl | rfl
  · exact hbound 'Z' (by decide) hupper
  · exact hbound 'z' (by decide) hlower
  · exact hbound '9' (by decide) hdigit
  · decide
  · decide
  · decide
  · decide

/-- A form stands in the query of an address with a special scheme as it is. -/
theorem FormText.settled {cs : List Char} (h : FormText cs) : Settled .specialQuery cs := by
  have hall : ∀ n < 0x80,
      (!standsInForm (Char.ofNat n) || !EncodeSet.specialQuery (Char.ofNat n)) = true := by decide
  intro c hc
  rcases h c hc with rfl | rfl | hstands
  · decide
  · decide
  · have hlt := lt_of_standsInForm hstands
    have hone := hall c.toNat hlt
    rw [Char.ofNat_toNat, hstands] at hone
    exact ⟨hlt, by simpa using hone⟩

theorem settled_formPair (name value : String) :
    Settled .specialQuery (formPair name value).toList := by
  have hequals : Settled .specialQuery ['='] := by decide
  rw [formPair, String.toList_ofList]
  exact (formText_formEncode _).settled.append (hequals.append (formText_formEncode _).settled)

/-- Behind its mark a form with one pair is read as the query, and no fragment is left. -/
theorem readQuery_formPair {scheme : String} (hspecial : isSpecial scheme = true)
    (name value : String) :
    readQuery scheme ('?' :: (formPair name value).toList) = (some (formPair name value), []) := by
  have hsettled := settled_formPair name value
  have hkept : ∀ c ∈ (formPair name value).toList, (!(c == '#')) = true := by
    intro c hc
    have hsign : c ≠ '#' := by
      rintro rfl
      exact absurd (hsettled _ hc).2 (by decide)
    simpa using hsign
  -- No sign of a fragment is in it, so the query is cut off at its end.
  have htake : (formPair name value).toList.takeWhile (fun c => !(c == '#')) =
      (formPair name value).toList := List.takeWhile_eq_self_iff.2 hkept
  have hdrop : (formPair name value).toList.dropWhile (fun c => !(c == '#')) = [] :=
    List.dropWhile_eq_nil_iff.2 hkept
  rw [readQuery, cut, htake, hdrop, if_pos hspecial]
  dsimp only
  rw [percentEncode_of_settled hsettled, String.ofList_toList]

/-- A query is written behind an address that ends with its path. -/
theorem write_withQuery {u : Url} (hquery : u.query = none) (hfragment : u.fragment = none)
    (q : String) : (u.withQuery (some q)).write = u.write ++ "?" ++ q := by
  have hpath : (u.withQuery (some q)).pathText = u.pathText ∧
      (u.withQuery (some q)).pathGuard = u.pathGuard := ⟨rfl, rfl⟩
  rw [write, write, hpath.1, hpath.2, hquery, withQuery, hfragment]
  simp only [String.append_empty, String.append_assoc]

/-- What the address of the socket has to do with the token: `bare` is the one without. -/
structure CarriesToken (base bare : Url) : Prop where
  without : updateAddress base none = .ok bare
  query : bare.query = none
  fragment : bare.fragment = none
  /-- With a token it differs in the query alone, whose only pair gives the token back.  In the text of
  the address the query stands at the end, and is read there as it is. -/
  carries : ∀ t, ∃ q, updateAddress base (some t) = .ok (bare.withQuery (some q)) ∧
    formPairs q = [("token", t)] ∧ (bare.withQuery (some q)).write = bare.write ++ "?" ++ q ∧
    readQuery bare.scheme ('?' :: q.toList) = (some q, [])
  /-- What is logged is the address without a token, for any two tokens. -/
  logged : ∀ t t' u u', updateAddress base (some t) = .ok u → updateAddress base (some t') = .ok u' →
    redacted u = bare.write ∧ redacted u' = bare.write

/-- Whatever the token is, it is the value of the only pair of the query; nothing else of the address
depends on it, and nothing that is logged. -/
theorem token_stays_in_query {base : Url} (hread : base.WasRead) (hsocket : Watch.HasSocket base) :
    ∃ bare, CarriesToken base bare := by
  obtain ⟨scheme, hscheme⟩ := Watch.socketScheme?_isSome_iff.2 hsocket
  obtain ⟨hsame, hnet⟩ := Watch.impliedPort_socketScheme hscheme
  obtain ⟨s, hs⟩ := hread
  have hform := networkForm_of_read hs hnet
  have haddress := updateAddress_eq hform hscheme
  have hspecial : isSpecial scheme = true := isSpecial_of_impliedPort (hsame ▸ hnet)
  refine ⟨_, haddress none, rfl, rfl, ?_, ?_⟩
  · intro t
    exact ⟨formPair "token" t, haddress (some t), formPairs_formPair "token" t,
      write_withQuery rfl rfl _, readQuery_formPair hspecial "token" t⟩
  · intro t t' u u' hu hu'
    cases (haddress (some t)).symm.trans hu
    cases (haddress (some t')).symm.trans hu'
    exact ⟨rfl, rfl⟩

theorem token_stays_in_query_adorned :
    adorned.WasRead ∧ Watch.HasSocket adorned ∧ ∃ (bare : Url) (q : String),
      updateAddress adorned (some "a+b c&x=1#/%é") = .ok (bare.withQuery (some q)) ∧
      formPairs q = [("token", "a+b c&x=1#/%é")] ∧ (bare.withQuery (some q)).fragment = none ∧
      redacted (bare.withQuery (some q)) = bare.write := by
  have hsocket : Watch.HasSocket adorned := .inr (.inl rfl)
  obtain ⟨bare, hcarries⟩ := token_stays_in_query wasRead_adorned hsocket
  obtain ⟨q, haddress, hpairs, -, -⟩ := hcarries.carries "a+b c&x=1#/%é"
  exact ⟨wasRead_adorned, hsocket, bare, q, haddress, hpairs, hcarries.fragment,
    (hcarries.logged _ _ _ _ haddress haddress).1⟩

end Url

end LiveFeed
