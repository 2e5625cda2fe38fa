import LiveFeed.Address
import LiveFeed.Resource

/-!
# Endpoints of resources

Below a base address of the web every resource has an endpoint of its own: the segments of its path
stand as they are behind what the base's path comes to.

* `Url.resolve_append`, `Url.resolve_plain`: segments resolved one after the other;
* `Url.endpoint_path`: the path of an endpoint;
* `Url.pathText_endpoint_injective`, `Url.origin_endpoint`: endpoints are distinct, and of one origin.
-/

namespace LiveFeed

namespace Text

theorem splitBy_ne_nil (p : Char → Bool) (cs : List Char) : splitBy p cs ≠ [] := by
  cases cs with
  | nil => simp [splitBy]
  | cons c cs =>
      rw [splitBy]
      split
      · exact List.cons_ne_nil _ _
      · split
        · exact List.cons_ne_nil _ _
        · exact List.cons_ne_nil _ _

/-- A text is split at a separator into what its two sides are split into. -/
theorem splitBy_append {p : Char → Bool} {c : Char} (hc : p c = true) (as bs : List Char) :
    splitBy p (as ++ c :: bs) = splitBy p as ++ splitBy p bs := by
  induction as with
  | nil => simp [splitBy, hc]
  | cons a as ih =>
      rw [List.cons_append, splitBy, splitBy]
      by_cases ha : p a = true
      · rw [if_pos ha, if_pos ha, ih, List.cons_append]
      · rw [if_neg ha, if_neg ha, ih]
        cases hsplit : splitBy p as with
        | nil => exact absurd hsplit (splitBy_ne_nil p as)
        | cons part parts => rfl

end Text

namespace Url

/-! ## Segments -/

/-- What a segment that is not the last one makes of those done. -/
def resolveOne (style : PathStyle) (done : List (List Char)) (s : List Char) : List (List Char) :=
  if isDoubleDot s then dropSegment style done
  else if isDot s then done
  else addSegment style s done

theorem resolve_cons (style : PathStyle) (done : List (List Char)) (s : List Char)
    {rest : List (List Char)} (hrest : rest ≠ []) :
    resolve style done (s :: rest) = resolve style (resolveOne style done s) rest := by
  cases rest with
  | nil => exact absurd rfl hrest
  | cons t rest =>
      rw [resolve, resolveOne]
      · split
        · rfl
        · split
          · rfl
          · rfl
      · simp

/-- Only the last segment is resolved in a way of its own. -/
theorem resolve_append (style : PathStyle) (done front : List (List Char))
    {rest : List (List Char)} (hrest : rest ≠ []) :
    resolve style done (front ++ rest) = resolve style (front.foldl (resolveOne style) done) rest := by
  induction front generalizing done with
  | nil => rfl
  | cons s front ih =>
      rw [List.cons_append, resolve_cons style done s (by simp [hrest]), ih]
      rfl

theorem resolve_plain (done : List (List Char)) {segments : List (List Char)}
    (hplain : ∀ s ∈ segments, isDoubleDot s = false ∧ isDot s = false) :
    resolve .special done segments = done.reverse ++ segments := by
  induction segments generalizing done with
  | nil => simp [resolve]
  | cons s segments ih =>
      rw [List.forall_mem_cons] at hplain
      cases segments with
      | nil => simp [resolve, hplain.1.1, hplain.1.2, addSegment]
      | cons t segments =>
          rw [resolve_cons .special done s (List.cons_ne_nil _ _), ih _ hplain.2]
          simp [resolveOne, hplain.1.1, hplain.1.2, addSegment]

/-- Text that stands in a path as it is: nothing is skipped or encoded, and no segment is resolved. -/
def StandsInPath (cs : List Char) : Prop :=
  cs.filter (!isSkipped ·) = cs ∧
    (Text.splitBy PathStyle.special.isSlash cs).map (percentEncode .path) =
      Text.splitBy PathStyle.special.isSlash cs ∧
    writeSegments (Text.splitBy PathStyle.special.isSlash cs) = '/' :: cs ∧
    ∀ s ∈ Text.splitBy PathStyle.special.isSlash cs, isDoubleDot s = false ∧ isDot s = false

instance (cs : List Char) : Decidable (StandsInPath cs) :=
  inferInstanceAs (Decidable (_ ∧ _))

end Url

namespace Resource

/-- A resource's path below a base, without the slash in front. -/
def below (r : Resource) : List Char :=
  r.path.toList.dropWhile (· == '/')

/-- The segments of a resource's path. -/
def segments (r : Resource) : List (List Char) :=
  Text.splitBy Url.PathStyle.special.isSlash r.below

theorem standsInPath_below (r : Resource) : Url.StandsInPath r.below := by
  cases r <;> decide +kernel

theorem path_eq (r : Resource) : r.path = String.ofList ('/' :: r.below) := by
  cases r <;> decide +kernel

theorem find?_path (r : Resource) : all.find? (fun s => s.path = r.path) = some r := by
  cases r <;> decide +kernel

theorem segments_injective {r r' : Resource}
    (h : Url.writeSegments r.segments = Url.writeSegments r'.segments) : r = r' := by
  rw [segments, r.standsInPath_below.2.2.1, segments, r'.standsInPath_below.2.2.1] at h
  have hfind := r.find?_path
  rw [r.path_eq, h, ← r'.path_eq, r'.find?_path] at hfind
  exact (Option.some.inj hfind).symm

end Resource

namespace Url

/-- An address below which resources are kept. -/
structure IsBase (base : Url) : Prop where
  scheme : base.scheme = "http" ∨ base.scheme = "https"
  path : ∃ list, base.path = .segments list

theorem IsBase.pathStyle {base : Url} (h : IsBase base) : pathStyle base.scheme = .special := by
  rcases h.scheme with hs | hs
  · rw [hs]
    decide
  · rw [hs]
    decide

/-- A resource's path that stands behind other text adds its segments. -/
theorem resolve_below (cs : List Char) (r : Resource) :
    resolve .special [] ((Text.splitBy PathStyle.special.isSlash (cs ++ '/' :: r.below)).map
        (percentEncode .path)) =
      (((Text.splitBy PathStyle.special.isSlash cs).map (percentEncode .path)).foldl
        (resolveOne .special) []).reverse ++ r.segments := by
  have hslash : PathStyle.special.isSlash '/' = true := rfl
  obtain ⟨-, hencoded, -, hplain⟩ := r.standsInPath_below
  rw [Text.splitBy_append hslash, List.map_append, hencoded,
    resolve_append _ _ _ (Text.splitBy_ne_nil _ _), resolve_plain _ hplain]
  rfl

theorem segmentsOf_below (cs : List Char) :
    ∃ front, ∀ r : Resource, segmentsOf .special (cs ++ '/' :: r.below) = front ++ r.segments := by
  cases cs with
  | nil =>
      refine ⟨[], fun r => ?_⟩
      obtain ⟨-, hencoded, -, hplain⟩ := r.standsInPath_below
      have hbody : segmentsOf .special ('/' :: r.below) =
          resolve .special [] ((Text.splitBy PathStyle.special.isSlash r.below).map
            (percentEncode .path)) := rfl
      rw [List.nil_append, hbody, hencoded, resolve_plain _ hplain]
      rfl
  | cons c cs =>
      cases hc : PathStyle.special.isSlash c with
      | true =>
          -- A slash in front of the whole separates nothing.
          refine ⟨_, fun r => Eq.trans ?_ (resolve_below cs r)⟩
          simp [segmentsOf, hc]
      | false =>
          refine ⟨_, fun r => Eq.trans ?_ (resolve_below (c :: cs) r)⟩
          simp [segmentsOf, hc]

/-- The segments of a resource's path stand behind whatever the base's path comes to. -/
theorem endpoint_path {base : Url} (h : IsBase base) :
    ∃ front, ∀ r : Resource, (endpoint base r.path).path = .segments (front ++ r.segments) := by
  obtain ⟨list, hlist⟩ := h.path
  obtain ⟨front, hfront⟩ := segmentsOf_below (base.trimmedPath.filter (!isSkipped ·))
  refine ⟨front, fun r => ?_⟩
  have hpath : (endpoint base r.path).path = base.replacePath (base.trimmedPath ++ '/' :: r.below) :=
    rfl
  have hbelow : ('/' :: r.below).filter (!isSkipped ·) = '/' :: r.below :=
    congrArg ('/' :: ·) r.standsInPath_below.1
  rw [hpath, replacePath, hlist]
  dsimp only
  rw [List.filter_append, hbelow, h.pathStyle, hfront]

/-- Different resources have different endpoints. -/
theorem pathText_endpoint_injective {base : Url} (h : IsBase base) {r r' : Resource}
    (heq : (endpoint base r.path).pathText = (endpoint base r'.path).pathText) : r = r' := by
  obtain ⟨front, hfront⟩ := endpoint_path h
  have hwrite := String.ofList_injective heq
  rw [hfront, hfront] at hwrite
  simp only [Path.write, writeSegments, List.flatMap_append] at hwrite
  exact Resource.segments_injective (List.append_cancel_left hwrite)

/-- An endpoint shares its secrets with the base. -/
theorem origin_endpoint {base : Url} (h : IsBase base) (path : String) :
    (endpoint base path).origin = base.origin := by
  have hblob : base.scheme ≠ "blob" := by
    rcases h.scheme with hs | hs
    · rw [hs]
      decide
    · rw [hs]
      decide
  have hscheme : (endpoint base path).scheme ≠ "blob" := hblob
  rw [origin, originWithin, if_neg hscheme, origin, originWithin, if_neg hblob]
  rfl

end Url

end LiveFeed
