import Mathlib.Data.List.DropRight
import LiveFeed.Proofs.EncodedText
import LiveFeed.Proofs.Endpoints

/-!
# Paths that are read already

What reading makes of a path it leaves alone when it reads it again: nothing is encoded a second time,
no segment is resolved, and the slashes stand where they stood.  So segments may be put behind a path
as text, and are read as what they are.

* `PlainSegment`, `plain_segmentsOf`: the segments that reading leaves;
* `segmentsOf_writeSegments`: reading undoes writing;
* `segmentsOf_behind`: what reading makes of a text behind them;
* `trimEnd_writeSegments`: what remains without the slashes at the end.
-/

namespace LiveFeed

namespace Text

theorem splitBy_of_forall {p : Char → Bool} {cs : List Char} (h : ∀ c ∈ cs, p c = false) :
    splitBy p cs = [cs] := by
  induction cs with
  | nil => rfl
  | cons c cs ih =>
      rw [List.forall_mem_cons] at h
      rw [splitBy, if_neg (by simp [h.1]), ih h.2]

theorem not_of_mem_splitBy {p : Char → Bool} {cs part : List Char} (hpart : part ∈ splitBy p cs) :
    ∀ c ∈ part, p c = false := by
  induction cs generalizing part with
  | nil =>
      obtain rfl := List.mem_singleton.1 hpart
      simp
  | cons c cs ih =>
      rw [splitBy] at hpart
      split at hpart
      · rcases List.mem_cons.1 hpart with rfl | hrest
        · simp
        · exact ih hrest
      · next hc =>
          have hc : p c = false := by simpa using hc
          split at hpart
          · next hnil => exact absurd hnil (splitBy_ne_nil p cs)
          · next first rest heq =>
              rw [heq] at ih
              rcases List.mem_cons.1 hpart with rfl | hrest
              · exact List.forall_mem_cons.2 ⟨hc, ih List.mem_cons_self⟩
              · exact ih (List.mem_cons_of_mem _ hrest)

theorem sublist_of_mem_splitBy {p : Char → Bool} {cs part : List Char} (hpart : part ∈ splitBy p cs) :
    part.Sublist cs := by
  induction cs generalizing part with
  | nil => rw [List.mem_singleton.1 hpart]
  | cons c cs ih =>
      rw [splitBy] at hpart
      split at hpart
      · rcases List.mem_cons.1 hpart with rfl | hrest
        · exact List.nil_sublist _
        · exact (ih hrest).cons c
      · split at hpart
        · next hnil => exact absurd hnil (splitBy_ne_nil p cs)
        · next first rest heq =>
            rw [heq] at ih
            rcases List.mem_cons.1 hpart with rfl | hrest
            · exact (ih List.mem_cons_self).cons_cons c
            · exact (ih (List.mem_cons_of_mem _ hrest)).cons c

end Text

namespace Url

/-! ## Plain segments -/

/-- A segment that reading leaves alone, on the network: nothing in it is encoded or separates segments,
and it does not stand for dots. -/
def PlainSegment (s : List Char) : Prop :=
  Settled .path s ∧ (∀ c ∈ s, PathStyle.special.isSlash c = false) ∧
    isDoubleDot s = false ∧ isDot s = false

instance (s : List Char) : Decidable (PlainSegment s) :=
  let _ := List.decidableBAll (fun c => PathStyle.special.isSlash c = false) s
  inferInstanceAs (Decidable (_ ∧ _ ∧ _ ∧ _))

theorem plainSegment_nil : PlainSegment [] := by decide

theorem sparesCodes_path : SparesCodes .path := by decide

/-- Encoding a segment puts no slash into it. -/
theorem not_isSlash_percentEncode {s : List Char} (h : ∀ c ∈ s, PathStyle.special.isSlash c = false) :
    ∀ d ∈ percentEncode .path s, PathStyle.special.isSlash d = false := by
  have hdigits : ∀ n < 16, PathStyle.special.isSlash (hexUpper n) = false := by decide
  intro d hd
  obtain ⟨c, hc, hd⟩ := List.mem_flatMap.1 hd
  rcases mem_encodeChar hd with ⟨rfl, -⟩ | rfl | ⟨n, hn, rfl⟩
  · exact h d hc
  · decide
  · exact hdigits n hn

/-- The last segment leaves an empty one behind it, if it stands for dots. -/
theorem resolve_singleton (style : PathStyle) (done : List (List Char)) (s : List Char) :
    resolve style done [s] =
      ((if isDoubleDot s || isDot s then [[]] else []) ++ resolveOne style done s).reverse := by
  rw [resolve, resolveOne]
  cases isDoubleDot s <;> cases isDot s <;> rfl

/-- On the network, what is left of segments is empty or stands for no dots. -/
theorem forall_mem_resolve {P : List Char → Prop} (hnil : P []) {done parts : List (List Char)}
    (hdone : ∀ s ∈ done, P s)
    (hparts : ∀ s ∈ parts, isDoubleDot s = false → isDot s = false → P s) :
    ∀ s ∈ resolve .special done parts, P s := by
  have hone : ∀ done : List (List Char), (∀ t ∈ done, P t) → ∀ s ∈ parts,
      ∀ t ∈ resolveOne .special done s, P t := by
    intro done hdone s hs
    rw [resolveOne]
    split
    · cases done with
      | nil => exact hdone
      | cons d rest => exact fun t ht => hdone t (List.mem_cons_of_mem _ ht)
    split
    · exact hdone
    · next hdouble hdot =>
        exact List.forall_mem_cons.2 ⟨hparts s hs (by simpa using hdouble) (by simpa using hdot), hdone⟩
  -- The induction follows `resolve`: what is done has the property, and each segment keeps it so.
  induction parts generalizing done with
  | nil =>
      intro s hs
      exact hdone s (List.mem_reverse.1 hs)
  | cons s parts ih =>
      have hfirst := hone done hdone s List.mem_cons_self
      cases parts with
      | nil =>
          intro t ht
          rw [resolve_singleton, List.mem_reverse, List.mem_append] at ht
          rcases ht with hdots | hdone
          · split at hdots
            · rwa [List.mem_singleton.1 hdots]
            · cases hdots
          · exact hfirst t hdone
      | cons t parts =>
          rw [resolve_cons _ _ _ (List.cons_ne_nil _ _)]
          exact ih hfirst (fun u hu => hparts u (List.mem_cons_of_mem _ hu))
            fun done hdone u hu => hone done hdone u (List.mem_cons_of_mem _ hu)

theorem resolve_ne_nil {done parts : List (List Char)} (hparts : parts ≠ []) :
    resolve .special done parts ≠ [] := by
  rw [← List.dropLast_append_getLast hparts, resolve_append _ _ _ (List.cons_ne_nil _ _),
    resolve_singleton, resolveOne]
  cases isDoubleDot (parts.getLast hparts) <;> cases isDot (parts.getLast hparts) <;>
    simp [addSegment]

/-- Reading a path leaves plain segments, and at least one. -/
theorem plain_segmentsOf (cs : List Char) :
    segmentsOf .special cs ≠ [] ∧ ∀ s ∈ segmentsOf .special cs, PlainSegment s := by
  have hbody : ∀ body, resolve .special [] ((Text.splitBy PathStyle.special.isSlash body).map
      (percentEncode .path)) ≠ [] ∧
      ∀ s ∈ resolve .special [] ((Text.splitBy PathStyle.special.isSlash body).map
        (percentEncode .path)), PlainSegment s := by
    intro body
    refine ⟨resolve_ne_nil ?_, forall_mem_resolve plainSegment_nil (List.forall_mem_nil _) ?_⟩
    · rw [Ne, List.map_eq_nil_iff]
      exact Text.splitBy_ne_nil _ _
    · intro s hs hdouble hdot
      obtain ⟨part, hpart, rfl⟩ := List.mem_map.1 hs
      exact ⟨settled_percentEncode sparesCodes_path part,
        not_isSlash_percentEncode (Text.not_of_mem_splitBy hpart), hdouble, hdot⟩
  exact hbody _

/-! ## Reading what was written -/

theorem splitBy_writeSegments {s : List Char} {rest : List (List Char)}
    (hs : ∀ c ∈ s, PathStyle.special.isSlash c = false)
    (hrest : ∀ t ∈ rest, ∀ c ∈ t, PathStyle.special.isSlash c = false) :
    Text.splitBy PathStyle.special.isSlash (s ++ writeSegments rest) = s :: rest := by
  induction rest generalizing s with
  | nil => rw [writeSegments, List.flatMap_nil, List.append_nil, Text.splitBy_of_forall hs]
  | cons t rest ih =>
      rw [List.forall_mem_cons] at hrest
      have hslash : PathStyle.special.isSlash '/' = true := rfl
      rw [writeSegments, List.flatMap_cons, List.cons_append, Text.splitBy_append hslash,
        Text.splitBy_of_forall hs, ← writeSegments, ih hrest.1 hrest.2]
      rfl

theorem foldl_resolveOne_plain (done : List (List Char)) {segments : List (List Char)}
    (hplain : ∀ s ∈ segments, isDoubleDot s = false ∧ isDot s = false) :
    segments.foldl (resolveOne .special) done = segments.reverse ++ done := by
  induction segments generalizing done with
  | nil => rfl
  | cons s segments ih =>
      rw [List.forall_mem_cons] at hplain
      rw [List.foldl_cons, ih _ hplain.2]
      simp [resolveOne, hplain.1.1, hplain.1.2, addSegment]

/-- Plain segments are split as they were written, and encoding leaves them alone. -/
theorem map_splitBy_writeSegments {s : List Char} {rest : List (List Char)}
    (hplain : ∀ t ∈ s :: rest, PlainSegment t) :
    (Text.splitBy PathStyle.special.isSlash (s ++ writeSegments rest)).map (percentEncode .path) =
      s :: rest := by
  have hslashes : ∀ t ∈ s :: rest, ∀ c ∈ t, PathStyle.special.isSlash c = false :=
    fun t ht => (hplain t ht).2.1
  rw [List.forall_mem_cons] at hslashes
  rw [splitBy_writeSegments hslashes.1 hslashes.2]
  exact (List.map_congr_left fun t ht => percentEncode_of_settled (hplain t ht).1).trans (List.map_id _)

/-- Plain segments are read as they were written. -/
theorem segmentsOf_writeSegments {segments : List (List Char)} (hne : segments ≠ [])
    (hplain : ∀ s ∈ segments, PlainSegment s) :
    segmentsOf .special (writeSegments segments) = segments := by
  cases segments with
  | nil => exact absurd rfl hne
  | cons s rest =>
      have hread : segmentsOf .special (writeSegments (s :: rest)) =
          resolve .special [] ((Text.splitBy PathStyle.special.isSlash (s ++ writeSegments rest)).map
            (percentEncode .path)) := rfl
      rw [hread, map_splitBy_writeSegments hplain, resolve_plain [] fun t ht => (hplain t ht).2.2]
      rfl

/-- Behind plain segments any text is split, and resolved on top of them. -/
theorem segmentsOf_behind {segments : List (List Char)} (hne : segments ≠ [])
    (hplain : ∀ s ∈ segments, PlainSegment s) (cs : List Char) :
    segmentsOf .special (writeSegments segments ++ '/' :: cs) =
      resolve .special segments.reverse
        ((Text.splitBy PathStyle.special.isSlash cs).map (percentEncode .path)) := by
  cases segments with
  | nil => exact absurd rfl hne
  | cons s rest =>
      have hslash : PathStyle.special.isSlash '/' = true := rfl
      have hread : segmentsOf .special (writeSegments (s :: rest) ++ '/' :: cs) =
          resolve .special [] ((Text.splitBy PathStyle.special.isSlash
            (s ++ writeSegments rest ++ '/' :: cs)).map (percentEncode .path)) := rfl
      have hparts : (Text.splitBy PathStyle.special.isSlash cs).map (percentEncode .path) ≠ [] := by
        rw [Ne, List.map_eq_nil_iff]
        exact Text.splitBy_ne_nil _ _
      rw [hread, Text.splitBy_append hslash, List.map_append, map_splitBy_writeSegments hplain,
        resolve_append _ _ _ hparts, foldl_resolveOne_plain [] fun t ht => (hplain t ht).2.2,
        List.append_nil]

/-- Plain segments are written in different ways. -/
theorem writeSegments_injective {front back : List (List Char)}
    (hfront : ∀ s ∈ front, PlainSegment s) (hback : ∀ s ∈ back, PlainSegment s)
    (h : writeSegments front = writeSegments back) : front = back := by
  cases front with
  | nil =>
      cases back with
      | nil => rfl
      | cons s back => cases h
  | cons s front =>
      cases back with
      | nil => cases h
      | cons t back =>
          rw [← segmentsOf_writeSegments (List.cons_ne_nil _ _) hfront, h,
            segmentsOf_writeSegments (List.cons_ne_nil _ _) hback]

/-- Nothing in what is written is skipped. -/
theorem filter_writeSegments {segments : List (List Char)} (hplain : ∀ s ∈ segments, PlainSegment s) :
    (writeSegments segments).filter (!isSkipped ·) = writeSegments segments := by
  rw [List.filter_eq_self]
  intro c hc
  obtain ⟨s, hs, hc⟩ := List.mem_flatMap.1 hc
  rcases List.mem_cons.1 hc with rfl | hc
  · decide
  · cases hskipped : isSkipped c with
    | false => rfl
    | true =>
        -- What is skipped is a control character, and would have been encoded.
        have hcontrol : EncodeSet.path c = true := by
          simp only [isSkipped, Bool.or_eq_true, beq_iff_eq] at hskipped
          rcases hskipped with (rfl | rfl) | rfl <;> decide
        rw [((hplain s hs).1 c hc).2] at hcontrol
        cases hcontrol

theorem writeSegments_append (front back : List (List Char)) :
    writeSegments (front ++ back) = writeSegments front ++ writeSegments back :=
  List.flatMap_append

/-- Without the slashes at its end, a path is written without the empty segments at its end. -/
theorem trimEnd_writeSegments {segments : List (List Char)}
    (hplain : ∀ s ∈ segments, PlainSegment s) :
    Text.trimEnd '/' (writeSegments segments) = writeSegments (segments.rdropWhile List.isEmpty) := by
  have htrim : ∀ cs, Text.trimEnd '/' cs = cs.rdropWhile (· == '/') := fun cs => rfl
  rw [htrim]
  -- The induction is on the last segment, because that is where slashes are dropped.
  induction segments using List.reverseRecOn with
  | nil => rfl
  | append_singleton front s ih =>
      rw [List.forall_mem_append] at hplain
      have hs : PlainSegment s := hplain.2 s (List.mem_singleton_self s)
      rw [writeSegments_append]
      rcases List.eq_nil_or_concat s with rfl | ⟨t, c, rfl⟩
      · -- An empty segment is a slash with nothing behind it.
        have hslash : writeSegments [[]] = ['/'] := rfl
        rw [hslash, List.rdropWhile_concat_pos _ _ _ (by decide), ih hplain.1,
          List.rdropWhile_concat_pos _ _ _ (by decide)]
      · have hc : ¬ (c == '/') = true := by
          rintro heq
          have hslash := hs.2.1 c (by simp)
          rw [beq_iff_eq.1 heq] at hslash
          cases hslash
        have hwrite : writeSegments [t.concat c] = '/' :: t ++ [c] := by simp [writeSegments]
        rw [hwrite, ← List.append_assoc, List.rdropWhile_concat_neg (· == '/') _ c hc,
          List.rdropWhile_concat_neg _ _ _ (by simp), writeSegments_append, hwrite,
          List.append_assoc]

end Url

end LiveFeed
