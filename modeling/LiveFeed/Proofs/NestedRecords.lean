import LiveFeed.Proofs.MemberOrder

/-!
# Records inside of values

Records stand inside of other records, in lists, in pairs and as optional values.  All that the
reading of the whole takes from such a place is what is read there, so what is said of the members
of a record holds wherever its object stands.

* `Layout.FieldAt`, `Codec.Place`: where inside of a value another value is read;
* `Codec.Focus`, `Codec.Place.focus`: what is taken from a place;
* `Kind.members_by_name`: the members of a record, wherever it stands.
-/

namespace LiveFeed.Wire

/-! ## Places -/

/-- The field of a name in a layout, with its codec, and what a change of it does to a row. -/
inductive Layout.FieldAt :
    {ρ α : Type} → Layout ρ → String → Codec α → ((α → α) → ρ → ρ) → Prop where
  | front {ρ α : Type} (name : String) (c : Codec α) (missing : Missing α) (rest : Layout ρ) :
      FieldAt (.field name c missing rest) name c fun f r => (f r.1, r.2)
  | behind {ρ α β : Type} {rest : Layout ρ} {name : String} {c : Codec α}
      {change : (α → α) → ρ → ρ} (key : String) (codec : Codec β) (missing : Missing β)
      (field : FieldAt rest name c change) :
      FieldAt (.field key codec missing rest) name c fun f r => (r.1, change f r.2)

namespace Codec

variable {α β γ : Type}

/-- Inside of what codec `c` reads there is a place where codec `d` reads: `fill` puts a value
there, and `change` tells what a change of what is read there does to the whole. -/
inductive Place : {α β : Type} → Codec α → Codec β → (Json → Json) → ((β → β) → α → α) → Prop where
  /-- The whole value. -/
  | here {α : Type} (c : Codec α) : Place c c id id
  /-- Inside of an item of a list. -/
  | item {α β : Type} {c : Codec α} {d : Codec β} {fill : Json → Json} {change : (β → β) → α → α}
      (before after : List Json) (inside : Place c d fill change) :
      Place (list c) d (fun v => .arr (before ++ fill v :: after)) fun f xs =>
        xs.modify before.length (change f)
  /-- Inside of the first half of a pair. -/
  | first {α β γ : Type} {c : Codec α} {d : Codec β} {fill : Json → Json}
      {change : (β → β) → α → α} (c' : Codec γ) (w : Json) (inside : Place c d fill change) :
      Place (pair c c') d (fun v => .arr [fill v, w]) fun f p => (change f p.1, p.2)
  /-- Inside of the second half of a pair. -/
  | second {α β γ : Type} {c : Codec α} {d : Codec β} {fill : Json → Json}
      {change : (β → β) → α → α} (c' : Codec γ) (w : Json) (inside : Place c d fill change) :
      Place (pair c' c) d (fun v => .arr [w, fill v]) fun f p => (p.1, change f p.2)
  /-- Inside of an optional value that is there. -/
  | present {α β : Type} {c : Codec α} {d : Codec β} {fill : Json → Json}
      {change : (β → β) → α → α} (inside : Place c d fill change) :
      Place (optional c) d fill fun f => Option.map (change f)
  /-- Inside of a member of an object. -/
  | member {α β γ : Type} {c : Codec α} {d : Codec β} {fill : Json → Json}
      {change : (β → β) → α → α} {name : String} (r : Record γ)
      {changeField : (α → α) → r.Row → r.Row} (field : r.layout.FieldAt name c changeField)
      (before after : List (Option String × Json)) (inside : Place c d fill change) :
      Place r.codec d (fun v => .obj (before ++ (some name, fill v) :: after)) fun f =>
        r.onRow (changeField (change f))

/-- All that a reading takes from a value put somewhere is what codec `c` reads from it, and a
change of that changes what the whole is read as. -/
def Focus (read : Json → Option α) (c : Codec β) (change : (β → β) → α → α) : Prop :=
  ∃ use : β → Option α, (∀ v, v ≠ .null → read v = (c.decode v).bind use) ∧
    ∀ f b, use (f b) = (use b).map (change f)

namespace Focus

variable {read : Json → Option α} {c : Codec β} {d : Codec γ} {change : (β → β) → α → α}

theorem decode_map (hf : Focus read c change) {v w : Json} (hv : v ≠ .null) (hw : w ≠ .null)
    {f : β → β} (h : c.decode w = (c.decode v).map f) : read w = (read v).map (change f) := by
  rcases hf with ⟨use, hread, huse⟩
  rw [hread w hw, hread v hv, h]
  cases c.decode v with
  | none => rfl
  | some b => exact huse f b

theorem decode_congr (hf : Focus read c change) {v w : Json} (hv : v ≠ .null) (hw : w ≠ .null)
    (h : c.decode w = c.decode v) : read w = read v := by
  rcases hf with ⟨use, hread, -⟩
  rw [hread w hw, hread v hv, h]

theorem decode_none (hf : Focus read c change) {v : Json} (hv : v ≠ .null)
    (h : c.decode v = none) : read v = none := by
  rcases hf with ⟨use, hread, -⟩
  rw [hread v hv, h]
  rfl

/-- What is read at a place inside of a place. -/
theorem trans {fill : Json → Json} {change' : (γ → γ) → β → β} (hf : Focus read c change)
    (hinside : Focus (fun v => c.decode (fill v)) d change')
    (hfill : ∀ v, v ≠ .null → fill v ≠ .null) :
    Focus (fun v => read (fill v)) d fun f => change (change' f) := by
  rcases hf with ⟨use, hread, huse⟩
  rcases hinside with ⟨use', hread', huse'⟩
  refine ⟨fun a => (use' a).bind use, ?_, ?_⟩
  · intro v hv
    calc read (fill v) = (c.decode (fill v)).bind use := hread _ (hfill v hv)
      _ = ((d.decode v).bind use').bind use := congrArg (·.bind use) (hread' v hv)
      _ = (d.decode v).bind fun a => (use' a).bind use := Option.bind_assoc _ _ _
  · intro f a
    simp only [huse']
    cases use' a with
    | none => rfl
    | some b => exact huse (change' f) b

end Focus

theorem focus_here (c : Codec α) : Focus c.decode c id :=
  ⟨some, fun _ _ => (Option.bind_fun_some _).symm, fun _ _ => rfl⟩

theorem mapM_length {f : α → Option β} {xs : List α} {ys : List β} (h : xs.mapM f = some ys) :
    ys.length = xs.length := by
  induction xs generalizing ys with
  | nil =>
      obtain rfl : [] = ys := by simpa using h
      rfl
  | cons x xs ih =>
      simp only [List.mapM_cons, Option.bind_eq_bind, Option.bind_eq_some_iff, Option.pure_def,
        Option.some.injEq] at h
      rcases h with ⟨y, -, zs, hzs, rfl⟩
      rw [List.length_cons, List.length_cons, ih hzs]

theorem modify_length_append {f : α → α} (xs : List α) (x : α) (ys : List α) :
    (xs ++ x :: ys).modify xs.length f = xs ++ f x :: ys := by
  induction xs with
  | nil => rfl
  | cons y xs ih =>
      rw [List.cons_append, List.length_cons, List.modify_succ_cons, ih, List.cons_append]

theorem focus_item (c : Codec α) (before after : List Json) :
    Focus (fun v => (list c).decode (.arr (before ++ v :: after))) c fun f xs =>
      xs.modify before.length f := by
  refine ⟨fun x => (before.mapM c.decode).bind fun xs =>
    (after.mapM c.decode).map fun ys => xs ++ x :: ys, ?_, ?_⟩
  · intro v _
    cases hbefore : before.mapM c.decode <;> cases hv : c.decode v <;>
      cases hafter : after.mapM c.decode <;> simp [list, hbefore, hv, hafter]
  · intro f x
    cases hbefore : before.mapM c.decode with
    | none => rfl
    | some xs =>
        -- The items in front are read one by one, so the place of the item is known.
        have hlength := mapM_length hbefore
        cases after.mapM c.decode with
        | none => rfl
        | some ys =>
            have hmodify : (xs ++ x :: ys).modify before.length f = xs ++ f x :: ys := by
              rw [← hlength, modify_length_append]
            exact congrArg some hmodify.symm

theorem focus_first (c : Codec α) (c' : Codec γ) (w : Json) :
    Focus (fun v => (pair c c').decode (.arr [v, w])) c fun f p => (f p.1, p.2) := by
  refine ⟨fun x => (c'.decode w).map fun y => (x, y), ?_, ?_⟩
  · intro v _
    cases hv : c.decode v <;> cases hw : c'.decode w <;> simp [pair, hv, hw]
  · intro f x
    cases c'.decode w <;> rfl

theorem focus_second (c : Codec α) (c' : Codec γ) (w : Json) :
    Focus (fun v => (pair c' c).decode (.arr [w, v])) c fun f p => (p.1, f p.2) := by
  refine ⟨fun x => (c'.decode w).map fun y => (y, x), ?_, ?_⟩
  · intro v _
    cases hv : c.decode v <;> cases hw : c'.decode w <;> simp [pair, hv, hw]
  · intro f x
    cases c'.decode w <;> rfl

theorem focus_present (c : Codec α) : Focus (optional c).decode c fun f => Option.map f := by
  refine ⟨fun x => some (some x), ?_, fun _ _ => rfl⟩
  intro v hv
  rw [decode_optional hv]
  cases c.decode v <;> rfl

end Codec

theorem Layout.FieldAt.mem_names {ρ α : Type} {l : Layout ρ} {name : String} {c : Codec α}
    {change : (α → α) → ρ → ρ} (h : l.FieldAt name c change) : name ∈ l.names := by
  induction h with
  | front => exact List.mem_cons_self
  | behind key _ _ _ ih => exact List.mem_cons_of_mem key ih

/-- All that reading a record takes from a member is what the codec of its field reads. -/
theorem Layout.FieldAt.exists_use {ρ α : Type} {l : Layout ρ} {name : String} {c : Codec α}
    {change : (α → α) → ρ → ρ} (h : l.FieldAt name c change) (hnames : l.names.Nodup)
    (ms : List (String × Json)) :
    ∃ use : α → Option ρ, (∀ v, l.ofMembers ((name, v) :: ms) = (c.decode v).bind use) ∧
      ∀ f a, use (f a) = (use a).map (change f) := by
  induction h with
  | front name c missing rest =>
      have hname : name ∉ rest.names := (List.nodup_cons.1 hnames).1
      by_cases hmem : name ∈ ms.map (·.1)
      · -- The field stands there twice, whatever its value is.
        refine ⟨fun _ => none, ?_, fun _ _ => rfl⟩
        intro v
        rw [ofMembers, lookup_cons_of_mem hmem, Option.bind_fun_none]
      · refine ⟨fun a => (rest.ofMembers ms).map fun r => (a, r), ?_, ?_⟩
        · intro v
          rw [ofMembers, lookup_cons_self hmem, ofMembers_cons hname]
          cases c.decode v <;> cases rest.ofMembers ms <;> rfl
        · intro f a
          cases rest.ofMembers ms <;> rfl
  | @behind ρ α β rest name c change key codec missing field ih =>
      rcases List.nodup_cons.1 hnames with ⟨hkey, hrest⟩
      rcases ih hrest with ⟨use, hread, huse⟩
      have hne : name ≠ key := fun heq => hkey (heq ▸ field.mem_names)
      refine ⟨fun a =>
        (lookup key codec missing ms).bind fun b => (use a).map fun r => (b, r), ?_, ?_⟩
      · intro v
        rw [ofMembers, lookup_cons_of_ne hne, hread]
        cases lookup key codec missing ms with
        | none => cases c.decode v <;> rfl
        | some b =>
            cases c.decode v with
            | none => rfl
            | some a => cases huse' : use a <;> simp [huse']
      · intro f a
        simp only [huse]
        cases lookup key codec missing ms with
        | none => rfl
        | some b => cases use a <;> rfl

namespace Codec

variable {α β γ : Type}

theorem focus_member {c : Codec α} (r : Record γ) {name : String}
    {change : (α → α) → r.Row → r.Row} (field : r.layout.FieldAt name c change)
    (before after : List (Option String × Json)) :
    Focus (fun v => r.codec.decode (.obj (before ++ (some name, v) :: after))) c fun f =>
      r.onRow (change f) := by
  cases hbefore : Json.namedMembers? before with
  | none =>
      -- A member without a name fails the reading, whatever the others are.
      refine ⟨fun _ => none, ?_, fun _ _ => rfl⟩
      intro v _
      simp [Record.decode_obj, namedMembers?_append, hbefore]
  | some ns =>
      cases hafter : Json.namedMembers? after with
      | none =>
          refine ⟨fun _ => none, ?_, fun _ _ => rfl⟩
          intro v _
          simp [Record.decode_obj, namedMembers?_append, hbefore, Json.namedMembers?, hafter]
      | some ns' =>
          rcases field.exists_use r.nodup_names (ns ++ ns') with ⟨use, hread, huse⟩
          refine ⟨fun a => (use a).map r.make, ?_, ?_⟩
          · intro v _
            have hnamed : Json.namedMembers? (before ++ (some name, v) :: after) =
                some (ns ++ (name, v) :: ns') := by
              simp [namedMembers?_append, hbefore, Json.namedMembers?, hafter]
            simp only [Record.decode_obj, hnamed, Option.bind_some]
            rw [Layout.ofMembers_perm List.perm_middle, hread]
            cases c.decode v <;> rfl
          · intro f a
            simp only [huse, Option.map_map]
            refine congrArg (fun g => (use a).map g) (funext fun row => ?_)
            simp [Record.onRow, r.row_make]

theorem Place.fill_ne_null {c : Codec α} {d : Codec β} {fill : Json → Json}
    {change : (β → β) → α → α} (p : Place c d fill change) {v : Json} (hv : v ≠ .null) :
    fill v ≠ .null := by
  induction p with
  | here => exact hv
  | present _ ih => exact ih
  | item | first | second | member =>
      intro h
      cases h

/-- At every place, all that is taken from a value there is what is read there. -/
theorem Place.focus {c : Codec α} {d : Codec β} {fill : Json → Json} {change : (β → β) → α → α}
    (p : Place c d fill change) : Focus (fun v => c.decode (fill v)) d change := by
  induction p with
  | here c => exact focus_here c
  | item before after inside ih =>
      exact (focus_item _ before after).trans ih fun _ => inside.fill_ne_null
  | first c' w inside ih => exact (focus_first _ c' w).trans ih fun _ => inside.fill_ne_null
  | second c' w inside ih => exact (focus_second _ c' w).trans ih fun _ => inside.fill_ne_null
  | present inside ih => exact (focus_present _).trans ih fun _ => inside.fill_ne_null
  | member r field before after inside ih =>
      exact (focus_member r field before after).trans ih fun _ => inside.fill_ne_null

end Codec

/-! ## The members of a record, wherever it stands -/

namespace Kind

/-- Wherever inside of a value the object of a record stands: in another order of its members and
among unknown ones the same is read; without a member, what is read has the default of that field,
or nothing is read if the field must be there; and with a field twice nothing is read.  How the
texts spell the values does not matter. -/
theorem members_by_name {k k' : Kind} {r : Record k'.Carrier} (hr : k'.record? = some r)
    {fill : Json → Json} {change : (k'.Carrier → k'.Carrier) → k.Carrier → k.Carrier}
    (place : Codec.Place k.codec k'.codec fill change) {text : String}
    {ms : List (Option String × Json)} {v : k.Carrier}
    (htext : Json.read? text = some (fill (.obj ms))) (hv : k.read? text = some v) :
    (∀ (extra : List (String × Json)) (ms' : List (Option String × Json)) (text' : String),
        (∀ m ∈ extra, m.1 ∉ r.layout.names) →
        ms'.Perm (ms ++ extra.map fun m => (some m.1, m.2)) →
        Json.read? text' = some (fill (.obj ms')) → k.read? text' = some v) ∧
      (∀ (before after : List (Option String × Json)) (name : String) (w : Json) (text' : String),
        ms = before ++ (some name, w) :: after → name ∈ r.layout.names →
        Json.read? text' = some (fill (.obj (before ++ after))) →
        k.read? text' = (r.layout.reset? name).map fun reset => change (r.onRow reset) v) ∧
      ∀ (before after : List (Option String × Json)) (name : String) (w : Json) (text' : String),
        ms = before ++ after → name ∈ r.layout.names → some name ∈ ms.map (·.1) →
        Json.read? text' = some (fill (.obj (before ++ (some name, w) :: after))) →
        k.read? text' = none := by
  have hfocus := place.focus
  have hobject : ∀ {ns : List (Option String × Json)}, Json.obj ns ≠ .null := fun h => by cases h
  rw [read?_of_read? htext] at hv
  -- What is read of the whole could not be if the record was not.
  have hrecord : ∃ a, r.codec.decode (.obj ms) = some a := by
    refine Option.ne_none_iff_exists'.1 fun hnone => ?_
    rw [← codec_eq_of_record? hr] at hnone
    rw [hfocus.decode_none hobject hnone] at hv
    cases hv
  rcases hrecord with ⟨a, ha⟩
  refine ⟨?_, ?_, ?_⟩
  · intro extra ms' text' hextra hperm htext'
    rw [read?_of_read? htext', ← hv]
    refine hfocus.decode_congr hobject hobject ?_
    rw [codec_eq_of_record? hr, ha, r.decode_rearranged ha hextra hperm]
  · rintro before after name w text' rfl hname htext'
    have hwithout := r.decode_without ha hname
    rw [read?_of_read? htext']
    cases hreset : r.layout.reset? name with
    | none =>
        rw [hreset, Option.map_none, ← codec_eq_of_record? hr] at hwithout
        exact hfocus.decode_none hobject hwithout
    | some reset =>
        rw [hreset, Option.map_some] at hwithout
        rw [Option.map_some, ← Option.map_some, ← hv]
        refine hfocus.decode_map hobject hobject ?_
        rw [codec_eq_of_record? hr, ha, hwithout, Option.map_some]
  · rintro before after name w text' rfl hname hmem htext'
    rw [read?_of_read? htext']
    refine hfocus.decode_none hobject ?_
    rw [codec_eq_of_record? hr, r.decode_repeated hname hmem w]

/-- A policy with one override, whose group is an object with the given members. -/
def overridden (group : List (Option String × Json)) : Json :=
  .obj ([(some "claim", .text "role"), (some "name", .text "role"), (some "uuid", .text "p1")] ++
    (some "group", .arr ([] ++ .arr [.obj group, .text "admin"] :: [])) ::
      [(some "default", .text "user")])

/-- Inside of a pair in a list in a policy, the members of a group stand the other way round and
around an unknown one; one is missing; and one stands there twice. -/
theorem members_by_name_overridden :
    oauthPolicy.read? (overridden [(some "name", .text "admins"), (some "uuid", .text "g1")]).compact =
      some ⟨"p1", "role", "role", "user", [(⟨"admins", "g1"⟩, "admin")]⟩ ∧
    oauthPolicy.read? (overridden [(some "uuid", .text "g1"), (some "size", .arr [.null]),
        (some "name", .text "admins")]).compact =
      some ⟨"p1", "role", "role", "user", [(⟨"admins", "g1"⟩, "admin")]⟩ ∧
    oauthPolicy.read? (overridden [(some "name", .text "admins")]).compact = none ∧
    oauthPolicy.read? (overridden [(some "name", .text "admins"), (some "uuid", .text "g1"),
        (some "name", .text "admins")]).compact = none := by
  -- The place: a member of the policy, an item of its list, the first half of the pair.
  have place : Codec.Place oauthPolicy.codec basicInfo.codec _ _ :=
    .member (r := (oauthPolicy.record?).get rfl) (.behind _ _ _ <| .behind _ _ _ <| .behind _ _ _ <|
      .behind _ _ _ <| .front _ _ _ _) [(some "claim", .text "role"), (some "name", .text "role"),
        (some "uuid", .text "p1")] [(some "default", .text "user")]
      (.item [] [] (.first Codec.string (.text "admin") (.here _)))
  have hread : ∀ group : List (Option String × Json),
      Json.read? (overridden group).compact = some (overridden group) := fun group =>
    Json.read?_compact _
  have hpolicy : oauthPolicy.read?
      (overridden [(some "name", .text "admins"), (some "uuid", .text "g1")]).compact =
      some ⟨"p1", "role", "role", "user", [(⟨"admins", "g1"⟩, "admin")]⟩ :=
    read?_of_read? (hread _)
  have hlaw := members_by_name rfl place (hread _) hpolicy
  refine ⟨hpolicy, ?_, ?_, ?_⟩
  · have hperm := List.perm_append_singleton (some "name", Json.text "admins")
      [(some "uuid", Json.text "g1"), (some "size", .arr [.null])]
    exact hlaw.1 [("size", .arr [.null])] _ _ (by decide) hperm (hread _)
  · exact hlaw.2.1 [(some "name", .text "admins")] [] "uuid" (.text "g1") _ rfl (by decide)
      (hread _)
  · exact hlaw.2.2 [(some "name", .text "admins"), (some "uuid", .text "g1")] [] "name"
      (.text "admins") _ rfl (by decide) (by decide) (hread _)

end Kind

end LiveFeed.Wire
