import LiveFeed.Link
import LiveFeed.Proofs.WatchSetUp

/-!
# The address of the update socket

The socket's address is made of the base's by replacing one part after the other, each by rules of its
own.  For an address that was read none of them gets in the way: the scheme can always be replaced, the
port stays the one in use, and the path is put together without anything being encoded or resolved
again.

* `updateAddress_eq`: the socket's address in its parts;
* `IsSocketOf`: what it has of the base, and what it has not;
* `SameService`: bases that differ in nothing the socket depends on;
* `socket_address`: when there is a socket's address and which it is.
-/

namespace LiveFeed

namespace Url

/-- The segments of the socket's path below the base. -/
def updateSegments : List (List Char) :=
  ["ws".toList, "updater".toList]

theorem updatePath_eq : updatePath.toList = writeSegments updateSegments := by decide

theorem plain_updateSegments : ∀ s ∈ updateSegments, PlainSegment s := by decide

/-- The socket's address has the base's authority, the segments of its path before its own, and
nothing of what stands behind them. -/
theorem updateAddress_eq {base : Url} (h : NetworkForm base) {scheme : String}
    (hscheme : socketScheme? base.scheme = some scheme) (token : Option String) :
    updateAddress base token = .ok
      ⟨scheme, base.authority, .segments (base.kept ++ updateSegments),
        token.map (formPair "token"), none⟩ := by
  have hsame := (Watch.impliedPort_socketScheme hscheme).1
  have hpath := (h.of_scheme hsame).withPath_below (List.cons_ne_nil _ _) plain_updateSegments
  have hbase : socketBase? base scheme = some
      ⟨scheme, base.authority, .segments (base.kept ++ updateSegments), none, none⟩ := by
    rw [socketBase?, h.withScheme?_eq hsame, updatePath_eq, Option.map_some]
    exact congrArg (fun u => some ((withQuery u none).withoutFragment)) hpath
  rw [updateAddress, hscheme, Option.bind_some, hbase]
  rfl

/-- What the address of a socket has of the base and of the token. -/
structure IsSocketOf (base : Url) (token : Option String) (u : Url) : Prop where
  scheme : ((base.scheme = "http" ∨ base.scheme = "ws") ∧ u.scheme = "ws") ∨
    ((base.scheme = "https" ∨ base.scheme = "wss") ∧ u.scheme = "wss")
  /-- User information, host and the port that is written are the base's. -/
  authority : u.authority = base.authority
  /-- So is the port in use, although the scheme is another. -/
  port : u.effectivePort = base.effectivePort
  path : u.pathText = String.ofList base.trimmedPath ++ updatePath
  query : u.query = token.map (formPair "token")
  fragment : u.fragment = none

theorem isSocketOf_updateAddress {base : Url} (h : NetworkForm base) {scheme : String}
    (hscheme : socketScheme? base.scheme = some scheme) (token : Option String) :
    IsSocketOf base token ⟨scheme, base.authority, .segments (base.kept ++ updateSegments),
      token.map (formPair "token"), none⟩ where
  scheme := by
    unfold socketScheme? at hscheme
    split at hscheme
    · next hplain => exact .inl ⟨hplain, (Option.some.inj hscheme).symm⟩
    split at hscheme
    · next hsecure => exact .inr ⟨hsecure, (Option.some.inj hscheme).symm⟩
    · cases hscheme
  authority := rfl
  port := by
    rw [effectivePort, effectivePort, (Watch.impliedPort_socketScheme hscheme).1]
  path := by
    rw [pathText, h.pathText_below, ← updatePath_eq, String.ofList_toList]
  query := rfl
  fragment := rfl

/-- Two bases differ at most in slashes at the end of the path, in what stands behind it, and in
whether the scheme is that of requests or of sockets. -/
structure SameService (base other : Url) : Prop where
  scheme : base.scheme = other.scheme ∨
    ((base.scheme = "http" ∨ base.scheme = "ws") ∧ (other.scheme = "http" ∨ other.scheme = "ws")) ∨
    ((base.scheme = "https" ∨ base.scheme = "wss") ∧ (other.scheme = "https" ∨ other.scheme = "wss"))
  authority : base.authority = other.authority
  path : base.trimmedPath = other.trimmedPath

theorem SameService.updateAddress_eq {base other : Url} (h : SameService base other)
    (hbase : base.WasRead) (hother : other.WasRead) (token : Option String) :
    updateAddress other token = updateAddress base token := by
  obtain ⟨s, hs⟩ := hbase
  obtain ⟨s', hs'⟩ := hother
  -- Bases with different schemes have the same socket's scheme; those with one scheme may have none.
  have hscheme : base.scheme = other.scheme ∨
      ∃ scheme, socketScheme? base.scheme = some scheme ∧ socketScheme? other.scheme = some scheme := by
    rcases h.scheme with heq | ⟨hb, ho⟩ | ⟨hb, ho⟩
    · exact .inl heq
    · refine .inr ⟨"ws", ?_, ?_⟩
      · rw [socketScheme?, if_pos hb]
      · rw [socketScheme?, if_pos ho]
    · refine .inr ⟨"wss", ?_, ?_⟩
      · rcases hb with hb | hb <;> rw [hb] <;> decide
      · rcases ho with ho | ho <;> rw [ho] <;> decide
  have hfound : ∀ scheme, socketScheme? base.scheme = some scheme →
      socketScheme? other.scheme = some scheme →
      updateAddress other token = updateAddress base token := by
    intro scheme hb ho
    have hb' := networkForm_of_read hs (Watch.impliedPort_socketScheme hb).2
    have ho' := networkForm_of_read hs' (Watch.impliedPort_socketScheme ho).2
    -- The text that the paths share tells which segments are kept.
    have hkept : base.kept = other.kept := by
      refine writeSegments_injective hb'.plain_kept ho'.plain_kept ?_
      rw [← hb'.trimmedPath_eq, ← ho'.trimmedPath_eq, h.path]
    rw [Url.updateAddress_eq hb' hb, Url.updateAddress_eq ho' ho, h.authority, hkept]
  rcases hscheme with heq | ⟨scheme, hb, ho⟩
  · cases hsocket : socketScheme? base.scheme with
    | some scheme => exact hfound scheme hsocket (heq ▸ hsocket)
    | none => rw [updateAddress, updateAddress, ← heq, hsocket]; rfl
  · exact hfound scheme hb ho

/-- What is known of the socket's address below a base. -/
structure SocketAddress (base : Url) (token : Option String) : Prop where
  /-- There is one if and only if the scheme is one of four. -/
  exists_iff : (∃ u, updateAddress base token = .ok u) ↔
    base.scheme = "http" ∨ base.scheme = "https" ∨ base.scheme = "ws" ∨ base.scheme = "wss"
  /-- Only the base's scheme is a reason that there is none; the socket's scheme can take its place. -/
  error : ∀ e, updateAddress base token = .error e →
    socketScheme? base.scheme = none ∧ e = .unsupportedScheme base.scheme
  withScheme : ∀ scheme, socketScheme? base.scheme = some scheme →
    ∃ u, base.withScheme? scheme = some u
  parts : ∀ u, updateAddress base token = .ok u → IsSocketOf base token u
  /-- A link never refuses to connect to it: a new one starts a loop, and no status is published. -/
  starts : ∀ u, updateAddress base token = .ok u → ∀ config,
    ((Link.create config u.scheme).connect).1.loops = [.fresh]
  quiet : ∀ u, updateAddress base token = .ok u → ∀ l : Link, l.scheme = u.scheme →
    l.connect.1.status = l.status ∧ l.connect.2 = []
  /-- It is the same for other bases of the same service. -/
  same : ∀ other, other.WasRead → SameService base other →
    updateAddress other token = updateAddress base token

theorem isSocketScheme_of_isSocketOf {base u : Url} {token : Option String}
    (h : IsSocketOf base token u) : isSocketScheme u.scheme = true := by
  rcases h.scheme with ⟨-, hscheme⟩ | ⟨-, hscheme⟩ <;> rw [hscheme] <;> decide

theorem connect_of_isSocketScheme {l : Link} (h : isSocketScheme l.scheme = true) :
    l.connect.1.status = l.status ∧ l.connect.2 = [] := by
  rw [Link.connect]
  split
  · exact ⟨rfl, rfl⟩
  · rw [if_neg (by simp [h])]
    exact ⟨rfl, rfl⟩

/-- The address of the socket below an address that was read. -/
theorem socket_address {base : Url} (hread : base.WasRead) (token : Option String) :
    SocketAddress base token := by
  have hform : ∀ scheme, socketScheme? base.scheme = some scheme → NetworkForm base := by
    intro scheme hscheme
    obtain ⟨s, hs⟩ := hread
    exact networkForm_of_read hs (Watch.impliedPort_socketScheme hscheme).2
  have hcases : (socketScheme? base.scheme = none ∧
        updateAddress base token = .error (.unsupportedScheme base.scheme)) ∨
      ∃ scheme u, socketScheme? base.scheme = some scheme ∧ updateAddress base token = .ok u ∧
        IsSocketOf base token u := by
    cases hscheme : socketScheme? base.scheme with
    | none =>
        refine .inl ⟨rfl, ?_⟩
        rw [updateAddress, hscheme]
        rfl
    | some scheme =>
        exact .inr ⟨scheme, _, rfl, updateAddress_eq (hform scheme hscheme) hscheme token,
          isSocketOf_updateAddress (hform scheme hscheme) hscheme token⟩
  have hparts : ∀ u, updateAddress base token = .ok u → IsSocketOf base token u := by
    intro u hu
    rcases hcases with ⟨-, herror⟩ | ⟨scheme, u', -, hok, hsocket⟩
    · cases hu.symm.trans herror
    · cases hu.symm.trans hok
      exact hsocket
  have hsocket : ∀ u, updateAddress base token = .ok u → isSocketScheme u.scheme = true :=
    fun u hu => isSocketScheme_of_isSocketOf (hparts u hu)
  refine ⟨Watch.updateAddress_eq_ok_iff hread, ?_, ?_, hparts, ?_, ?_, ?_⟩
  · intro e he
    rcases hcases with ⟨hnone, herror⟩ | ⟨scheme, u, -, hok, -⟩
    · cases he.symm.trans herror
      exact ⟨hnone, rfl⟩
    · cases he.symm.trans hok
  · intro scheme hscheme
    exact ⟨_, (hform scheme hscheme).withScheme?_eq (Watch.impliedPort_socketScheme hscheme).1⟩
  · intro u hu config
    simp [Link.connect, Link.create, LinkStatus.isFinal, hsocket u hu]
  · intro u hu l hl
    exact connect_of_isSocketScheme (hl ▸ hsocket u hu)
  · intro other hother hsame
    exact hsame.updateAddress_eq hread hother token

/-- An address with user information, a path that ends in slashes, a query and a fragment. -/
def adorned : Url where
  scheme := "https"
  authority := some ⟨"us%20er", some "p%3Aw", some (.domain "example.com"), none⟩
  path := .segments ["c%2Fd".toList, [], []]
  query := some "x=1"
  fragment := some "f"

theorem wasRead_adorned : adorned.WasRead :=
  ⟨"HTTPS://us%20er:p:w@Example.com:443/a b/./%2e%2E/c%2Fd//?x=1#f", rfl⟩

theorem socket_address_adorned :
    adorned.WasRead ∧ ∃ u, updateAddress adorned (some "s") = .ok u ∧ u.scheme = "wss" ∧
      u.authority = adorned.authority ∧ u.pathText = "/c%2Fd/ws/updater" ∧ u.query = some "token=s" ∧
      u.fragment = none := by
  have hsocket := socket_address wasRead_adorned (some "s")
  obtain ⟨u, hu⟩ := hsocket.exists_iff.2 (.inr (.inl rfl))
  have hparts := hsocket.parts u hu
  have hscheme : u.scheme = "wss" := by
    rcases hparts.scheme with ⟨hplain, -⟩ | ⟨-, hsecure⟩
    · exact absurd hplain (by decide)
    · exact hsecure
  exact ⟨wasRead_adorned, u, hu, hscheme, hparts.authority, hparts.path, hparts.query, hparts.fragment⟩

end Url

end LiveFeed
