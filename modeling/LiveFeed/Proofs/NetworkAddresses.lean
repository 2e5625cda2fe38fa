import LiveFeed.Proofs.PlainPaths
import LiveFeed.Proofs.Wrappings

/-!
# Addresses on the network

An address with one of the schemes that imply a port has a host, a port only if it is another one, and
a path of plain segments.  So it keeps its authority under a scheme that implies the same port, and
segments put behind its path stand there as they are.

* `NetworkForm`, `networkForm_of_read`: what reading makes of such an address;
* `NetworkForm.withScheme?_eq`: the scheme is replaced and nothing else;
* `kept`, `NetworkForm.trimmedPath_eq`: the segments that remain without the slashes at the end;
* `NetworkForm.withPath_below`: other segments are put behind them.
-/

namespace LiveFeed.Url

/-- What reading makes of an address whose scheme implies a port. -/
structure NetworkForm (u : Url) : Prop where
  network : (impliedPort u.scheme).isSome = true
  authority : ∃ a, u.authority = some a ∧ a.host.isSome = true ∧ a.port ≠ impliedPort u.scheme
  path : ∃ list, u.path = .segments list ∧ list ≠ [] ∧ ∀ s ∈ list, PlainSegment s

/-! ## Reading -/

theorem pathStyle_of_impliedPort {scheme : String} (h : (impliedPort scheme).isSome = true) :
    pathStyle scheme = .special := by
  have hfile : scheme ≠ "file" := by
    rintro rfl
    cases h
  rw [pathStyle, if_neg hfile, if_pos (isSpecial_of_impliedPort h)]

/-- An address on the network is read with a host, and its path is plain. -/
theorem networkForm_of_read {s : String} {u : Url} (h : read s = .ok u)
    (hnet : (impliedPort u.scheme).isSome = true) : NetworkForm u := by
  obtain ⟨cs, hread⟩ := (readFrom_of_read h).network hnet
  obtain ⟨a, part, rest, tail, path, hauthority, hu⟩ := readHierarchical_eq_ok hread
  obtain ⟨⟨host, hhost, -⟩, hport⟩ := exists_of_readAuthority hnet hauthority
  refine ⟨hnet, ⟨a, ?_, Option.isSome_of_eq_some hhost, hport⟩, ?_⟩
  · rw [hu]
    rfl
  · refine ⟨segmentsOf (pathStyle u.scheme) (cut endsPath path).1, ?_, ?_⟩
    · rw [hu]
      rfl
    · rw [pathStyle_of_impliedPort hnet]
      exact plain_segmentsOf _

/-! ## Another scheme -/

/-- Under a scheme that implies the same port an address keeps all its parts. -/
theorem NetworkForm.withScheme?_eq {u : Url} (h : NetworkForm u) {scheme : String}
    (hsame : impliedPort scheme = impliedPort u.scheme) :
    u.withScheme? scheme = some { u with scheme := scheme } := by
  obtain ⟨a, hauthority, hhost, hport⟩ := h.authority
  have hnet : (impliedPort scheme).isSome = true := hsame ▸ h.network
  have hspecial : ¬ isSpecial scheme ≠ isSpecial u.scheme := by
    rw [isSpecial_of_impliedPort hnet, isSpecial_of_impliedPort h.network]
    exact fun hne => hne rfl
  have hfile : ¬ (scheme = "file" ∧ u.authority.isSome = true) := by
    rintro ⟨rfl, -⟩
    cases hnet
  have hsome : ¬ (isSpecial scheme = true ∧ u.host?.isNone = true) := by
    rintro ⟨-, hnone⟩
    rw [host?, hauthority, Option.bind_some, Option.isNone_iff_eq_none] at hnone
    rw [hnone] at hhost
    cases hhost
  have hkept : u.authority.map (fun a =>
      { a with port := if a.port = impliedPort scheme then none else a.port }) = u.authority := by
    rw [hauthority, Option.map_some, hsame, if_neg hport]
  rw [withScheme?, if_neg hspecial, if_neg hfile, if_neg hsome, hkept]

theorem NetworkForm.of_scheme {u : Url} (h : NetworkForm u) {scheme : String}
    (hsame : impliedPort scheme = impliedPort u.scheme) : NetworkForm { u with scheme := scheme } where
  network := hsame ▸ h.network
  authority := by
    obtain ⟨a, hauthority, hhost, hport⟩ := h.authority
    exact ⟨a, hauthority, hhost, hsame ▸ hport⟩
  path := h.path

/-! ## Another path -/

/-- The segments of a path without the empty ones at its end. -/
def kept (u : Url) : List (List Char) :=
  match u.path with
  | .segments list => list.rdropWhile List.isEmpty
  | .text _ => []

theorem NetworkForm.plain_kept {u : Url} (h : NetworkForm u) : ∀ s ∈ u.kept, PlainSegment s := by
  obtain ⟨list, hpath, -, hplain⟩ := h.path
  rw [kept, hpath]
  exact fun s hs => hplain s ((List.rdropWhile_prefix List.isEmpty list).subset hs)

theorem NetworkForm.trimmedPath_eq {u : Url} (h : NetworkForm u) :
    u.trimmedPath = writeSegments u.kept := by
  obtain ⟨list, hpath, -, hplain⟩ := h.path
  rw [trimmedPath, kept, hpath]
  exact trimEnd_writeSegments hplain

/-- Plain segments are set as the path as they are. -/
theorem NetworkForm.replacePath_eq {u : Url} (h : NetworkForm u) {segments : List (List Char)}
    (hne : segments ≠ []) (hplain : ∀ s ∈ segments, PlainSegment s) :
    u.replacePath (writeSegments segments) = .segments segments := by
  obtain ⟨list, hpath, -⟩ := h.path
  rw [replacePath, hpath, filter_writeSegments hplain, pathStyle_of_impliedPort h.network]
  exact congrArg Path.segments (segmentsOf_writeSegments hne hplain)

/-- Plain segments behind the path are put behind those that remain of it. -/
theorem NetworkForm.withPath_below {u : Url} (h : NetworkForm u) {segments : List (List Char)}
    (hne : segments ≠ []) (hplain : ∀ s ∈ segments, PlainSegment s) :
    u.withPath (u.trimmedPath ++ writeSegments segments) =
      { u with path := .segments (u.kept ++ segments) } := by
  have happend : u.kept ++ segments ≠ [] := fun hnil => hne (List.append_eq_nil_iff.1 hnil).2
  rw [withPath, h.trimmedPath_eq, ← writeSegments_append,
    h.replacePath_eq happend (List.forall_mem_append.2 ⟨h.plain_kept, hplain⟩)]

theorem NetworkForm.pathText_below {u : Url} (h : NetworkForm u) (segments : List (List Char)) :
    String.ofList (Path.write (.segments (u.kept ++ segments))) =
      String.ofList u.trimmedPath ++ String.ofList (writeSegments segments) := by
  rw [h.trimmedPath_eq, ← String.ofList_append, ← writeSegments_append]
  rfl

end LiveFeed.Url
