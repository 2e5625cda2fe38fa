import LiveFeed.Proofs.PercentCodes
import LiveFeed.Proofs.RequestAddresses
import LiveFeed.Proofs.RequestOutcomes

/-!
# The request for an account

The service tells a client the name of its account in plain text, and the client puts this text behind
a path as it is.  There the text is read like any other: slashes of both kinds split it, dots lead
back, tabs and line ends are dropped, and what looks encoded is taken as encoded.  So the request goes
to the profile of the account that was named if and only if the text has nothing of all this.

* `Url.StandsAsSegment`: a text that is one segment and says the same when it is decoded;
* `Url.NamesAccount`: the path of a profile, with a segment that decodes to the name;
* `Url.namesAccount_iff`: the names for which the request has such a path;
* `Client.account_request`: the request that is made once an account was told;
* `Client.account_led_astray`: a name that leads the request out of the profiles.
-/

namespace LiveFeed

namespace Url

/-! ## Names -/

/-- A text that stands for itself as a segment of a path: no slash of either kind splits it, nothing of
it is dropped or taken as encoded, and it does not stand for dots. -/
structure StandsAsSegment (cs : List Char) : Prop where
  whole : ∀ c ∈ cs, PathStyle.special.isSlash c = false
  kept : ∀ c ∈ cs, isSkipped c = false
  uncoded : holdsCode cs = false
  dotless : cs ≠ ['.'] ∧ cs ≠ ['.', '.']

theorem standsAsSegment_iff {cs : List Char} : StandsAsSegment cs ↔
    (∀ c ∈ cs, PathStyle.special.isSlash c = false) ∧ (∀ c ∈ cs, isSkipped c = false) ∧
      holdsCode cs = false ∧ cs ≠ ['.'] ∧ cs ≠ ['.', '.'] :=
  ⟨fun h => ⟨h.whole, h.kept, h.uncoded, h.dotless⟩, fun ⟨h₁, h₂, h₃, h₄⟩ => ⟨h₁, h₂, h₃, h₄⟩⟩

instance (cs : List Char) : Decidable (StandsAsSegment cs) :=
  let _ (p : Char → Bool) := List.decidableBAll (fun c => p c = false) cs
  decidable_of_iff' _ standsAsSegment_iff

/-- The segments in front of the name of an account. -/
def accountSegments : List (List Char) :=
  ["account".toList, "general".toList, "info".toList]

/-- An address has the path of an account's profile below a base, and a segment of it decodes to the
name of the account. -/
structure NamesAccount (base : Url) (uuid : String) (a : Url) (segment : List Char) : Prop where
  segments : a.path = .segments (base.kept ++ accountSegments ++ [segment])
  text : a.pathText = String.ofList base.trimmedPath ++ "/account/general/info/" ++ String.ofList segment
  single : '/' ∉ segment
  decoded : percentDecode segment = Text.utf8 uuid.toList

/-! ## Reading a name behind a path -/

theorem plain_accountSegments : ∀ s ∈ accountSegments, PlainSegment s := by
  decide

/-- What is put behind the path of profiles is one more segment, as text. -/
theorem writeSegments_accountSegments (cs : List Char) :
    writeSegments accountSegments ++ '/' :: cs = "/account/general/info/".toList ++ cs := by
  have hwrite : writeSegments accountSegments ++ ['/'] = "/account/general/info/".toList := by decide
  rw [← hwrite, List.append_assoc, List.singleton_append]

theorem accountPath_below (uuid : String) :
    '/' :: (Client.accountPath uuid).toList.dropWhile (· == '/') =
      writeSegments accountSegments ++ '/' :: uuid.toList := by
  have hpath : (Client.accountPath uuid).toList = "/account/general/info/".toList ++ uuid.toList :=
    String.toList_append
  have hdrop : "/account/general/info/".toList.dropWhile (· == '/') =
      "account/general/info/".toList := by decide
  have hslash : '/' :: "account/general/info/".toList = "/account/general/info/".toList := by decide
  rw [hpath, List.dropWhile_append, hdrop, if_neg (by decide), ← List.cons_append, hslash,
    writeSegments_accountSegments]

/-- The segments that a text comes to behind the path of a profile. -/
theorem endpoint_accountPath {base : Url} (h : NetworkForm base) (uuid : String) :
    (endpoint base (Client.accountPath uuid)).path =
      .segments (resolve .special (base.kept ++ accountSegments).reverse
        ((Text.splitBy PathStyle.special.isSlash (uuid.toList.filter (!isSkipped ·))).map
          (percentEncode .path))) := by
  have hne : base.kept ++ accountSegments ≠ [] := by simp [accountSegments]
  have hplain : ∀ s ∈ base.kept ++ accountSegments, PlainSegment s :=
    List.forall_mem_append.2 ⟨h.plain_kept, plain_accountSegments⟩
  have hslash : ∀ cs : List Char, ('/' :: cs).filter (!isSkipped ·) =
      '/' :: cs.filter (!isSkipped ·) := fun cs => rfl
  obtain ⟨list, hpath, -⟩ := h.path
  rw [endpoint, accountPath_below, h.trimmedPath_eq, ← List.append_assoc, ← writeSegments_append,
    withPath, replacePath, hpath, List.filter_append, filter_writeSegments hplain, hslash,
    pathStyle_of_impliedPort h.network]
  exact congrArg Path.segments (segmentsOf_behind hne hplain _)

/-- What is resolved ends in an empty segment, or in one that was read and stands for no dots. -/
theorem eq_of_resolve_concat {done parts front : List (List Char)} {segment : List Char}
    (hne : parts ≠ []) (h : resolve .special done parts = front ++ [segment]) :
    segment = [] ∨ segment ∈ parts ∧ isDoubleDot segment = false ∧ isDot segment = false := by
  have hlast : parts.getLast hne ∈ parts := List.getLast_mem hne
  rw [← List.dropLast_append_getLast hne, resolve_append _ _ _ (List.cons_ne_nil _ _),
    resolve_singleton] at h
  replace h := congrArg List.getLast? h
  rw [List.getLast?_concat, List.getLast?_reverse] at h
  cases hdouble : isDoubleDot (parts.getLast hne) with
  | true => exact .inl (by simpa [hdouble] using h.symm)
  | false =>
      cases hdot : isDot (parts.getLast hne) with
      | true => exact .inl (by simpa [hdouble, hdot] using h.symm)
      | false =>
          have hsegment : parts.getLast hne = segment := by
            simpa [hdouble, hdot, resolveOne, addSegment] using h
          exact .inr ⟨hsegment ▸ hlast, hsegment ▸ hdouble, hsegment ▸ hdot⟩

/-- What stands for dots says so when it is decoded. -/
theorem percentDecode_of_isDot {s : List Char} (h : isDot s = true) :
    percentDecode s = Text.utf8 ['.'] := by
  simp only [isDot, Bool.or_eq_true, decide_eq_true_eq] at h
  rcases h with (rfl | rfl) | rfl <;> decide

theorem percentDecode_of_isDoubleDot {s : List Char} (h : isDoubleDot s = true) :
    percentDecode s = Text.utf8 ['.', '.'] := by
  simp only [isDoubleDot, List.mem_cons, List.not_mem_nil, or_false, decide_eq_true_eq] at h
  rcases h with rfl | rfl | rfl | rfl | rfl | rfl | rfl | rfl | rfl <;> decide

theorem utf8_injective {as bs : List Char} (h : Text.utf8 as = Text.utf8 bs) : as = bs := by
  rw [← Text.decodeLossy_utf8 as, h, Text.decodeLossy_utf8]

/-- A part of a text that has as many octets is all of it. -/
theorem eq_of_sublist_utf8 {part cs : List Char} (hpart : part.Sublist cs)
    (hlength : (Text.utf8 cs).length ≤ (Text.utf8 part).length) : part = cs :=
  utf8_injective ((hpart.flatMap Text.octets).eq_of_length_le hlength)

theorem dots_of_percentDecode_eq {s cs : List Char} (hdecode : percentDecode s = Text.utf8 cs)
    (hdotless : cs ≠ ['.'] ∧ cs ≠ ['.', '.']) : isDoubleDot s = false ∧ isDot s = false := by
  refine ⟨?_, ?_⟩
  · cases hdouble : isDoubleDot s with
    | false => rfl
    | true =>
        exact absurd (utf8_injective (hdecode.symm.trans (percentDecode_of_isDoubleDot hdouble)))
          hdotless.2
  · cases hdot : isDot s with
    | false => rfl
    | true =>
        exact absurd (utf8_injective (hdecode.symm.trans (percentDecode_of_isDot hdot))) hdotless.1

/-- A text that stands as a segment is the one segment that is put behind the path. -/
theorem namesAccount_of_standsAsSegment {base : Url} (h : NetworkForm base) {uuid : String}
    (hstands : StandsAsSegment uuid.toList) :
    NamesAccount base uuid (endpoint base (Client.accountPath uuid))
      (percentEncode .path uuid.toList) := by
  have hdecode : percentDecode (percentEncode .path uuid.toList) = Text.utf8 uuid.toList := by
    rw [percentDecode_percentEncode, percentDecode_of_holdsCode hstands.uncoded]
  have hfilter : uuid.toList.filter (!isSkipped ·) = uuid.toList :=
    List.filter_eq_self.2 fun c hc => by rw [hstands.kept c hc]; rfl
  have hpath : (endpoint base (Client.accountPath uuid)).path =
      .segments (base.kept ++ (accountSegments ++ [percentEncode .path uuid.toList])) := by
    have hdots := dots_of_percentDecode_eq hdecode hstands.dotless
    rw [endpoint_accountPath h, hfilter, Text.splitBy_of_forall hstands.whole, List.map_singleton,
      resolve_plain _ (List.forall_mem_singleton.2 hdots), List.reverse_reverse, List.append_assoc]
  have hwrite : ∀ s, writeSegments (accountSegments ++ [s]) =
      "/account/general/info/".toList ++ s := by
    intro s
    rw [writeSegments_append, ← writeSegments_accountSegments]
    exact congrArg (writeSegments accountSegments ++ ·) (List.flatMap_singleton _ s)
  refine ⟨by rw [hpath, List.append_assoc], ?_, ?_, hdecode⟩
  · rw [pathText, hpath, h.pathText_below, hwrite, String.ofList_append, String.ofList_toList,
      String.append_assoc]
  · intro hslash
    cases not_isSlash_percentEncode hstands.whole '/' hslash

/-- A request goes to the profile of an account if and only if the account's name stands for itself
as a segment. -/
theorem namesAccount_iff {base : Url} (h : NetworkForm base) (uuid : String) :
    (∃ segment, NamesAccount base uuid (endpoint base (Client.accountPath uuid)) segment) ↔
      StandsAsSegment uuid.toList := by
  refine ⟨?_, fun hstands => ⟨_, namesAccount_of_standsAsSegment h hstands⟩⟩
  rintro ⟨segment, hnames⟩
  have hpath := hnames.segments
  have hdecoded := hnames.decoded
  rw [endpoint_accountPath h, Path.segments.injEq] at hpath
  generalize uuid.toList = cs at hpath hdecoded ⊢
  have hne : (Text.splitBy PathStyle.special.isSlash (cs.filter (!isSkipped ·))).map
      (percentEncode .path) ≠ [] := by
    rw [Ne, List.map_eq_nil_iff]
    exact Text.splitBy_ne_nil _ _
  rcases eq_of_resolve_concat hne hpath with rfl | ⟨hsegment, hdouble, hdot⟩
  · obtain rfl : [] = cs := utf8_injective hdecoded
    exact standsAsSegment_iff.2 (by simp [holdsCode])
  · obtain ⟨part, hpart, rfl⟩ := List.mem_map.1 hsegment
    rw [percentDecode_percentEncode] at hdecoded
    have hkept : part.Sublist (cs.filter (!isSkipped ·)) := Text.sublist_of_mem_splitBy hpart
    -- The last part has all the octets of the name, so there is nothing but this part.
    have hlength := length_percentDecode_le part
    rw [hdecoded] at hlength
    obtain rfl : part = cs := eq_of_sublist_utf8 (hkept.trans List.filter_sublist) (by omega)
    refine ⟨Text.not_of_mem_splitBy hpart, fun c hc => ?_, percentDecode_eq_utf8_iff.1 hdecoded,
      ?_, ?_⟩
    · simpa using List.of_mem_filter (hkept.subset hc)
    · rintro rfl
      cases hdot
    · rintro rfl
      cases hdouble

end Url

namespace Client

open Url

/-- What is known of the request for the profile of an account that the service told. -/
structure AccountRequest (c : Client) (uuid : String) (n : Network)
    (result : Outcome Wire.UserInfo × Network) : Prop where
  /-- One request is made, with the token if there is one. -/
  asks : Asks n (c.request .get (accountPath uuid) none) (Response.Carries Wire.UserInfo.codec) result
  cookie : (c.request .get (accountPath uuid) none).cookie =
    c.token.map fun t => tokenCookie ++ "=" ++ t
  /-- It goes to the base's service. -/
  scheme : (c.request .get (accountPath uuid) none).url.scheme = c.base.scheme
  authority : (c.request .get (accountPath uuid) none).url.authority = c.base.authority
  /-- It goes to the profile of the account if and only if the name stands for itself as a segment. -/
  names_iff : (∃ segment,
      NamesAccount c.base uuid (c.request .get (accountPath uuid) none).url segment) ↔
    StandsAsSegment uuid.toList

/-- Once the service told the account, the request for the profile stays below the profiles and names
the account if and only if the name has nothing that an address reads in a way of its own. -/
theorem account_request {c : Client} (hread : c.base.WasRead)
    (hscheme : c.base.scheme = "http" ∨ c.base.scheme = "https") {decode : List Nat → String}
    {n n' : Network} {uuid : String} (htold : c.fetchTextBy decode uuidPath n = (.ok uuid, n')) :
    AccountRequest c uuid n' (c.currentAccountBy decode n) := by
  obtain ⟨s, hs⟩ := hread
  have hnet : (impliedPort c.base.scheme).isSome = true := by
    rcases hscheme with h | h <;> rw [h] <;> rfl
  have hcall : c.currentAccountBy decode n = c.accountInfo uuid n' := by
    rw [currentAccountBy, htold]
  refine ⟨?_, rfl, rfl, rfl, namesAccount_iff (networkForm_of_read hs hnet) uuid⟩
  rw [hcall]
  exact c.fetch_asks .get (accountPath uuid) none Wire.UserInfo.codec n'

/-- A client below a path, with a token. -/
def mounted : Client where
  base :=
    { scheme := "http"
      authority := some ⟨"", none, some (.domain "localhost"), some 8000⟩
      path := .segments ["api".toList]
      query := none
      fragment := none }
  token := some "s"

theorem wasRead_mounted : mounted.base.WasRead :=
  ⟨"http://localhost:8000/api", rfl⟩

/-- A network on which the service tells one account. -/
def telling (uuid : String) : Network :=
  .serving ⟨mounted.base.withPath ['/'],
    [("/api/account/general/uuid", [⟨200, Text.utf8 uuid.toList, false, false, none⟩])], []⟩

theorem account_request_mounted :
    mounted.base.WasRead ∧ mounted.base.scheme = "http" ∧
      ∃ n', mounted.fetchTextBy plainText uuidPath (telling "a b?") = (.ok "a b?", n') ∧
        (mounted.request .get (accountPath "a b?") none).url.write =
          "http://localhost:8000/api/account/general/info/a%20b%3F" ∧
        ∃ segment, NamesAccount mounted.base "a b?"
          (mounted.request .get (accountPath "a b?") none).url segment := by
  have htold : mounted.fetchTextBy plainText uuidPath (telling "a b?") =
      (.ok "a b?", (mounted.fetchTextBy plainText uuidPath (telling "a b?")).2) := rfl
  have hrequest := account_request wasRead_mounted (.inl rfl) htold
  exact ⟨wasRead_mounted, rfl, _, htold, rfl, hrequest.names_iff.2 (by decide)⟩

/-- A name that leads back out of the profiles: the token goes along to another resource. -/
theorem account_led_astray :
    let uuid := "../../../management/user/list"
    (mounted.fetchTextBy plainText uuidPath (telling uuid)).1 = .ok uuid ∧
      (mounted.currentAccount (telling uuid)).2.seen.map (fun r => (r.target, r.cookie)) =
        [("/api/account/general/uuid", some "token=s"),
          ("/api/management/user/list", some "token=s")] ∧
      ¬ ∃ segment, NamesAccount mounted.base uuid
        (mounted.request .get (accountPath uuid) none).url segment := by
  dsimp only
  refine ⟨rfl, rfl, fun hnames => ?_⟩
  obtain ⟨s, hs⟩ := wasRead_mounted
  have hstands := (namesAccount_iff (networkForm_of_read hs rfl) _).1 hnames
  exact absurd hstands (by decide)

end Client

end LiveFeed
