import LiveFeed.Proofs.EncodedText
import LiveFeed.Proofs.Origins
import LiveFeed.Proofs.StoredSettings

/-!
# Addresses in addresses

The origin of an address whose path is an address is that of the inner one, at any depth.  What is read
a second time is ASCII already, so that encoding leaves it alone and each layer is shorter than the one
around it; that is why looking through as many layers as the path has characters is enough.

* `ReadFrom`, `readFrom_of_read`: what is known of an address that was read;
* `LeadsTo`, `exists_leadsTo`: the address inside all wrappings, whose origin the whole has;
* `proper_origin`: the origin of what was read is proper.
-/

namespace LiveFeed.Url

/-! ## Hosts on the network -/

theorem exists_of_readHost {cs : List Char} {hasPort : Bool} {o : Option Host}
    (h : readHost true cs hasPort = .ok o) : ∃ host, o = some host ∧ host.Proper := by
  rw [readHost] at h
  split at h
  · cases h
  · obtain ⟨host, hhost, rfl⟩ := map_eq_ok_iff.1 h
    exact ⟨host, rfl, Host.proper_of_readSpecial hhost⟩

/-- Reads what follows the user information. -/
def readHostPort (scheme : String) (user : String × Option String) (cs : List Char) :
    Except UrlError (Authority × List Char) := do
  let host ← readHost (isSpecial scheme) (splitPort false cs).1 (!(splitPort false cs).2.isEmpty)
  let (port, tail) ←
    if (splitPort false cs).2.isEmpty then pure (none, [])
    else readPort ((splitPort false cs).2.drop 1)
  if host.isNone && (!user.1.isEmpty || user.2.isSome) then .error .emptyHost
  else
    pure (⟨user.1, user.2, host, if port = impliedPort scheme then none else port⟩, tail)

/-- Whatever the user information is, host and port follow. -/
theorem exists_readHostPort {scheme : String} {cs rest : List Char} {r : Authority × List Char}
    (h : readAuthority scheme cs rest = .ok r) : ∃ user cs', readHostPort scheme user cs' = .ok r := by
  unfold readAuthority at h
  dsimp only at h
  split at h
  · exact ⟨("", none), cs, h⟩
  · next user tail _ =>
      split at h
      · split at h
        · cases h
        · exact ⟨("", none), tail, h⟩
      · exact ⟨readUser user, tail, h⟩

theorem isSpecial_of_impliedPort {scheme : String} (h : (impliedPort scheme).isSome = true) :
    isSpecial scheme = true := by
  simp [isSpecial, h]

/-- On the network an authority has a host, and a port only if the scheme implies another. -/
theorem exists_of_readAuthority {scheme : String} (hnet : (impliedPort scheme).isSome = true)
    {cs rest tail : List Char} {a : Authority} (h : readAuthority scheme cs rest = .ok (a, tail)) :
    (∃ host, a.host = some host ∧ host.Proper) ∧ a.port ≠ impliedPort scheme := by
  have hport : ∀ port : Option Nat,
      (if port = impliedPort scheme then none else port) ≠ impliedPort scheme := by
    intro port
    split
    · intro hnone
      rw [← hnone] at hnet
      cases hnet
    · next hne => exact hne
  obtain ⟨user, cs', h⟩ := exists_readHostPort h
  rw [readHostPort, isSpecial_of_impliedPort hnet] at h
  obtain ⟨o, hhost, h⟩ := bind_eq_ok_iff.1 h
  obtain ⟨host, rfl, hproper⟩ := exists_of_readHost hhost
  dsimp only at h
  -- With a port or without one, the host is kept.
  split at h
  all_goals
    obtain ⟨⟨port, tail'⟩, -, h⟩ := bind_eq_ok_iff.1 h
    dsimp only at h
    split at h
    · cases h
    · cases h
      exact ⟨⟨host, rfl, hproper⟩, hport port⟩

/-! ## What is read -/

/-- What is known of an address that was read from some characters: a path without segments is a
stretch of them that is encoded, and on the network the scheme is followed by an authority. -/
structure ReadFrom (cs : List Char) (u : Url) : Prop where
  path : ∀ t, u.path = .text t →
    ∃ p, t = percentEncode .controls p ∧ p.Sublist cs ∧ p.length < cs.length
  network : (impliedPort u.scheme).isSome = true → ∃ cs', readHierarchical u.scheme cs' = .ok u

/-- An authority is read, and then a path of segments. -/
theorem readHierarchical_eq_ok {scheme : String} {cs : List Char} {u : Url}
    (h : readHierarchical scheme cs = .ok u) : ∃ a part rest tail path,
      readAuthority scheme part rest = .ok (a, tail) ∧ u = finishPath scheme (some a) path := by
  rw [readHierarchical] at h
  obtain ⟨⟨a, tail⟩, hauthority, h⟩ := bind_eq_ok_iff.1 h
  cases h
  exact ⟨a, _, _, tail, _, hauthority, rfl⟩

/-- On the network there is a host. -/
theorem ReadFrom.host {cs : List Char} {u : Url} (h : ReadFrom cs u)
    (hnet : (impliedPort u.scheme).isSome = true) : ∃ host, u.host? = some host ∧ host.Proper := by
  obtain ⟨cs', hread⟩ := h.network hnet
  obtain ⟨a, part, rest, tail, path, hauthority, hu⟩ := readHierarchical_eq_ok hread
  obtain ⟨⟨host, hhost, hproper⟩, -⟩ := exists_of_readAuthority hnet hauthority
  refine ⟨host, ?_, hproper⟩
  rw [hu]
  exact hhost

/-- No scheme but those of the network promises an authority. -/
theorem ReadFrom.offNetwork {cs : List Char} {u : Url} (hnet : impliedPort u.scheme = none)
    (hpath : ∀ t, u.path = .text t →
      ∃ p, t = percentEncode .controls p ∧ p.Sublist cs ∧ p.length < cs.length) :
    ReadFrom cs u where
  path := hpath
  network hsome := by
    rw [hnet] at hsome
    cases hsome

theorem readFrom_of_readHierarchical {scheme : String} {cs cs' : List Char} {u : Url}
    (h : readHierarchical scheme cs = .ok u) : ReadFrom cs' u := by
  obtain ⟨a, part, rest, tail, path, -, rfl⟩ := readHierarchical_eq_ok h
  exact ⟨fun t ht => (by cases ht), fun _ => ⟨cs, h⟩⟩

theorem readFrom_finishPath {scheme : String} (hnet : impliedPort scheme = none)
    (authority : Option Authority) (cs cs' : List Char) :
    ReadFrom cs' (finishPath scheme authority cs) :=
  .offNetwork hnet fun t ht => by cases ht

theorem readFrom_of_readFile {cs cs' : List Char} {u : Url} (h : readFile cs = .ok u) :
    ReadFrom cs' u := by
  have hfile : ∀ authority cs, ReadFrom cs' (finishPath "file" authority cs) := fun authority cs =>
    readFrom_finishPath rfl authority cs cs'
  rw [readFile.eq_def] at h
  dsimp only at h
  split at h
  · split at h
    · split at h
      · cases h
        exact hfile _ _
      split at h
      · cases h
      · -- A drive in the path stands for the host.
        split at h
        · cases h
          split
          · exact hfile (some nobody) _
          · exact hfile _ _
        · cases h
          exact hfile _ _
    · cases h
      exact hfile _ _
  · cases h
    exact hfile _ _

theorem readFrom_of_readPlain {scheme : String} (hnet : impliedPort scheme = none) {cs cs' : List Char}
    (hsub : cs.Sublist cs') (hlength : cs.length < cs'.length) {u : Url}
    (h : readPlain scheme cs = .ok u) : ReadFrom cs' u := by
  rw [readPlain.eq_def] at h
  split at h
  · exact readFrom_of_readHierarchical h
  · cases h
    exact readFrom_finishPath hnet none _ cs'
  · cases h
    refine .offNetwork hnet fun t ht => ?_
    cases ht
    have hpart : (cut endsPath cs).1.Sublist cs := List.takeWhile_sublist _
    exact ⟨_, rfl, hpart.trans hsub, Nat.lt_of_le_of_lt hpart.length_le hlength⟩

theorem exists_of_readScheme {cs rest : List Char} {scheme : String}
    (h : readScheme cs = some (scheme, rest)) : ∃ front, cs = front ++ ':' :: rest := by
  rw [readScheme] at h
  dsimp only [cut] at h
  split at h
  · next c front r hfront hrest =>
      split at h
      · cases h
        refine ⟨c :: front, ?_⟩
        rw [← hfront, ← hrest, List.takeWhile_append_dropWhile]
      · cases h
  · cases h

theorem readFrom_of_readChars {cs : List Char} {u : Url} (h : readChars cs = .ok u) :
    ReadFrom cs u := by
  rw [readChars] at h
  split at h
  · cases h
  · next scheme rest hscheme =>
      obtain ⟨front, rfl⟩ := exists_of_readScheme hscheme
      split at h
      · exact readFrom_of_readFile h
      split at h
      · exact readFrom_of_readHierarchical h
      · next hspecial =>
          have hnet : impliedPort scheme = none := by
            cases hport : impliedPort scheme with
            | none => rfl
            | some port => exact absurd (by simp [isSpecial, hport]) hspecial
          refine readFrom_of_readPlain hnet ?_ ?_ h
          · exact (List.sublist_cons_self ':' rest).trans (List.sublist_append_right front _)
          · rw [List.length_append, List.length_cons]
            omega

theorem trimBy_sublist (p : Char → Bool) (cs : List Char) : (Text.trimBy p cs).Sublist cs := by
  have hinner := ((cs.dropWhile p).reverse.dropWhile_sublist p).reverse
  rw [List.reverse_reverse] at hinner
  exact hinner.trans (cs.dropWhile_sublist p)

theorem readFrom_of_read {s : String} {u : Url} (h : read s = .ok u) : ReadFrom s.toList u := by
  have hread := readFrom_of_readChars h
  have hsub : ((Text.trimBy isMargin s.toList).filter (!isSkipped ·)).Sublist s.toList :=
    List.filter_sublist.trans (trimBy_sublist isMargin s.toList)
  refine ⟨fun t ht => ?_, hread.network⟩
  obtain ⟨p, hp, hpart, hlength⟩ := hread.path t ht
  exact ⟨p, hp, hpart.trans hsub, Nat.lt_of_lt_of_le hlength hsub.length_le⟩

/-! ## Wrappings -/

/-- The address that an address wraps. -/
def wraps? (u : Url) : Option Url :=
  if u.scheme = "blob" then (read u.pathText).toOption else none

/-- From an address to the one inside all its wrappings. -/
inductive LeadsTo : Url → Url → Prop where
  | here {u : Url} (h : u.wraps? = none) : LeadsTo u u
  | inside {u w v : Url} (h : u.wraps? = some w) (hv : LeadsTo w v) : LeadsTo u v

theorem wraps?_eq_some_iff {u w : Url} :
    u.wraps? = some w ↔ u.scheme = "blob" ∧ read u.pathText = .ok w := by
  rw [wraps?, Option.ite_none_right_eq_some]
  cases read u.pathText with
  | ok v => simp [Except.toOption]
  | error e => simp [Except.toOption]

theorem LeadsTo.unique {u v w : Url} (hv : u.LeadsTo v) (hw : u.LeadsTo w) : v = w := by
  induction hv with
  | here h =>
      cases hw with
      | here => rfl
      | inside h' => cases h.symm.trans h'
  | inside h _ ih =>
      cases hw with
      | here h' => cases h.symm.trans h'
      | inside h' hw =>
          cases h.symm.trans h'
          exact ih hw

/-- Addresses that come from text. -/
def WasRead (u : Url) : Prop :=
  ∃ s, read s = .ok u

theorem LeadsTo.wasRead {u v : Url} (h : u.LeadsTo v) (hu : u.WasRead) : v.WasRead := by
  induction h with
  | here => exact hu
  | inside h _ ih => exact ih ⟨_, (wraps?_eq_some_iff.1 h).2⟩

theorem exists_trimBy {p : Char → Bool} {c : Char} (hc : p c = false) (cs : List Char) :
    ∃ cs', Text.trimBy p (c :: cs) = c :: cs' := by
  rw [Text.trimBy, List.dropWhile_cons_of_neg (by simp [hc]), List.reverse_cons, List.dropWhile_append]
  split
  · exact ⟨[], by simp [hc]⟩
  · exact ⟨_, by rw [List.reverse_append]; rfl⟩

/-- A path of segments is no address: it starts with a slash, if it is not empty. -/
theorem read_segments (list : List (List Char)) (u : Url) :
    read (String.ofList (writeSegments list)) ≠ .ok u := by
  intro hread
  cases list with
  | nil => cases hread
  | cons segment rest =>
      obtain ⟨cs, hcs⟩ := exists_trimBy (p := isMargin) (c := '/') (by decide)
        (segment ++ writeSegments rest)
      have hslash : writeSegments (segment :: rest) = '/' :: (segment ++ writeSegments rest) := rfl
      have hkept : isSkipped '/' = false := by decide
      have hscheme : ∀ r, readScheme ('/' :: r) = none := fun r => rfl
      rw [read, String.toList_ofList, hslash, hcs, List.filter_cons_of_pos (by simp [hkept]), readChars,
        hscheme] at hread
      cases hread

/-- As many layers as are enough for an address: the text of its path is settled and shorter. -/
def Enough (layers : Nat) (u : Url) : Prop :=
  1 ≤ layers ∧ ∀ t, u.path = .text t → Settled .controls t ∧ t.length < layers

/-- An address inside another needs one layer less. -/
theorem Enough.inside {layers : Nat} {u w : Url} (h : Enough (layers + 1) u) (hw : u.wraps? = some w) :
    Enough layers w := by
  obtain ⟨-, hread⟩ := wraps?_eq_some_iff.1 hw
  cases hpath : u.path with
  | segments list =>
      -- Such a path starts with a slash, so no scheme can be read from it.
      rw [pathText, hpath] at hread
      exact absurd hread (read_segments list w)
  | text t =>
      obtain ⟨hsettled, hlayers⟩ := h.2 t hpath
      have hinner := readFrom_of_read hread
      rw [pathText, hpath, Path.write, String.toList_ofList] at hinner
      have hlength : t ≠ [] := by
        rintro rfl
        rw [pathText, hpath] at hread
        cases hread
      refine ⟨?_, fun t' ht' => ?_⟩
      · have hpos := List.length_pos_iff.2 hlength
        omega
      · -- What is left inside is a stretch of settled text, so encoding it again does not lengthen it.
        obtain ⟨p, rfl, hsub, hshort⟩ := hinner.path t' ht'
        have hp : Settled .controls p := fun c hc => hsettled c (hsub.subset hc)
        rw [percentEncode_of_settled hp]
        exact ⟨hp, by omega⟩

theorem enough_of_wasRead {u : Url} (h : u.WasRead) : Enough (u.pathText.length + 1) u := by
  obtain ⟨s, hread⟩ := h
  refine ⟨by omega, fun t ht => ?_⟩
  obtain ⟨p, rfl, -⟩ := (readFrom_of_read hread).path t ht
  refine ⟨settled_percentEncode (by decide) p, ?_⟩
  simp [pathText, ht, Path.write]

/-- Through enough layers, an address leads to one whose origin it has. -/
theorem originWithin_of_enough {layers : Nat} {u : Url} (h : Enough layers u) :
    ∃ v, u.LeadsTo v ∧ originWithin layers u = plainOrigin v := by
  induction layers generalizing u with
  | zero => exact absurd h.1 (by omega)
  | succ layers ih =>
      cases hw : u.wraps? with
      | some w =>
          obtain ⟨hblob, hread⟩ := wraps?_eq_some_iff.1 hw
          obtain ⟨v, hv, horigin⟩ := ih (h.inside hw)
          refine ⟨v, .inside hw hv, ?_⟩
          rw [originWithin, if_pos hblob, hread]
          exact horigin
      | none =>
          refine ⟨u, .here hw, ?_⟩
          rw [originWithin]
          split
          · next hblob =>
              -- What cannot be read inside is opaque, as the scheme itself is.
              have hhidden : plainOrigin u = .hidden := by
                rw [plainOrigin, hblob]
                rfl
              split
              · next w hread => cases hw.symm.trans (wraps?_eq_some_iff.2 ⟨hblob, hread⟩)
              · exact hhidden.symm
          · rfl

/-- Every address that was read leads to one, and has its origin. -/
theorem exists_leadsTo {u : Url} (h : u.WasRead) : ∃ v, u.LeadsTo v ∧ u.origin = plainOrigin v :=
  originWithin_of_enough (enough_of_wasRead h)

theorem LeadsTo.origin_eq {u v : Url} (hv : u.LeadsTo v) (h : u.WasRead) :
    u.origin = plainOrigin v := by
  obtain ⟨w, hw, horigin⟩ := exists_leadsTo h
  rwa [hv.unique hw]

theorem proper_plainOrigin {u : Url} (h : u.WasRead) : (plainOrigin u).Proper := by
  obtain ⟨s, hread⟩ := h
  rw [plainOrigin]
  split
  · next hscheme hhost _ =>
      have hnet : (impliedPort u.scheme).isSome = true := Option.isSome_of_eq_some hscheme
      obtain ⟨host, hhost', hproper⟩ := (readFrom_of_read hread).host hnet
      cases hhost.symm.trans hhost'
      exact ⟨hnet, hproper⟩
  · trivial

theorem proper_origin {u : Url} (h : u.WasRead) : u.origin.Proper := by
  obtain ⟨v, hv, horigin⟩ := exists_leadsTo h
  rw [horigin]
  exact proper_plainOrigin (hv.wasRead h)

end LiveFeed.Url
