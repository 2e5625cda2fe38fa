import LiveFeed.Proofs.WireRecords

/-!
# Records are read by name

A record is read from an object by the names of its members.  In which order they stand and what
stands between them does not matter; a field that is missing takes its default or fails the reading,
and one that stands there twice fails it.

* `Layout.ofMembers_perm`, `Layout.ofMembers_append`, `Layout.ofMembers_of_cons`,
  `Layout.ofMembers_cons_of_mem`: order, unknown members, missing and repeated ones;
* `Layout.reset?`: what a record becomes when a field is missing;
* `Record`, `Kind.record?`: the kinds of records, with their layouts;
* `Record.decode_rearranged`, `Record.decode_without`, `Record.decode_repeated`: what changes of an
  object do to what is read.
-/

namespace LiveFeed.Wire

/-! ## Members with names -/

theorem namedMembers?_cons_eq_some_iff {m : Option String × Json}
    {ms : List (Option String × Json)} {ns : List (String × Json)} :
    Json.namedMembers? (m :: ms) = some ns ↔
      ∃ key rest, m = (some key, m.2) ∧ Json.namedMembers? ms = some rest ∧
        ns = (key, m.2) :: rest := by
  obtain ⟨_ | key, v⟩ := m
  · simp [Json.namedMembers?]
  · simp [Json.namedMembers?, Option.map_eq_some_iff, eq_comm (a := ns)]

/-- In another order the members have the same names. -/
theorem namedMembers?_perm {ms ms' : List (Option String × Json)} (h : ms.Perm ms')
    {ns : List (String × Json)} (hns : Json.namedMembers? ms = some ns) :
    ∃ ns', Json.namedMembers? ms' = some ns' ∧ ns.Perm ns' := by
  induction h generalizing ns with
  | nil => exact ⟨ns, hns, .refl ns⟩
  | cons m _ ih =>
      rcases namedMembers?_cons_eq_some_iff.1 hns with ⟨key, rest, hkey, hrest, rfl⟩
      rcases ih hrest with ⟨rest', hrest', hperm⟩
      exact ⟨_, namedMembers?_cons_eq_some_iff.2 ⟨key, rest', hkey, hrest', rfl⟩, hperm.cons _⟩
  | swap m m' ms =>
      rcases namedMembers?_cons_eq_some_iff.1 hns with ⟨key', rest, hkey', hrest, rfl⟩
      rcases namedMembers?_cons_eq_some_iff.1 hrest with ⟨key, rest', hkey, hrest', rfl⟩
      refine ⟨_, namedMembers?_cons_eq_some_iff.2 ⟨key, _, hkey, ?_, rfl⟩, .swap _ _ rest'⟩
      exact namedMembers?_cons_eq_some_iff.2 ⟨key', rest', hkey', hrest', rfl⟩
  | trans _ _ ih ih' =>
      rcases ih hns with ⟨ns', hns', hperm⟩
      rcases ih' hns' with ⟨ns'', hns'', hperm'⟩
      exact ⟨ns'', hns'', hperm.trans hperm'⟩

theorem map_fst_of_namedMembers? {ms : List (Option String × Json)} {ns : List (String × Json)}
    (h : Json.namedMembers? ms = some ns) : ms.map (·.1) = ns.map fun n => some n.1 := by
  induction ms generalizing ns with
  | nil =>
      obtain rfl : [] = ns := Option.some.inj h
      rfl
  | cons m ms ih =>
      rcases namedMembers?_cons_eq_some_iff.1 h with ⟨key, rest, hkey, hrest, rfl⟩
      rw [List.map_cons, List.map_cons, ih hrest, hkey]

theorem namedMembers?_append (ms ms' : List (Option String × Json)) :
    Json.namedMembers? (ms ++ ms') = (Json.namedMembers? ms).bind fun ns =>
      (Json.namedMembers? ms').map fun ns' => ns ++ ns' := by
  induction ms with
  | nil => simp [Json.namedMembers?]
  | cons m ms ih =>
      obtain ⟨_ | key, v⟩ := m
      · rfl
      · rw [List.cons_append, Json.namedMembers?, ih, Json.namedMembers?]
        cases Json.namedMembers? ms <;> cases Json.namedMembers? ms' <;> rfl

/-- A member in the middle of named ones. -/
theorem exists_of_namedMembers?_middle {before after : List (Option String × Json)} {name : String}
    {w : Json} {ns : List (String × Json)}
    (h : Json.namedMembers? (before ++ (some name, w) :: after) = some ns) :
    ∃ rest, Json.namedMembers? (before ++ after) = some rest ∧ ns.Perm ((name, w) :: rest) := by
  rcases namedMembers?_perm List.perm_middle h with ⟨ns', hns', hperm⟩
  rcases namedMembers?_cons_eq_some_iff.1 hns' with ⟨key, rest, hkey, hrest, rfl⟩
  obtain rfl : name = key := Option.some.inj (congrArg Prod.fst hkey)
  exact ⟨rest, hrest, hperm⟩

/-! ## One record -/

namespace Layout

variable {ρ : Type}

theorem lookup_of_not_mem {α : Type} {name : String} {ms : List (String × Json)}
    (h : name ∉ ms.map (·.1)) (codec : Codec α) (missing : Missing α) :
    lookup name codec missing ms = missing.inObject := by
  rw [lookup, filter_name_eq_nil h]

/-- A field that stands there twice has no value. -/
theorem lookup_cons_of_mem {α : Type} {name : String} {ms : List (String × Json)}
    (h : name ∈ ms.map (·.1)) (codec : Codec α) (missing : Missing α) (v : Json) :
    lookup name codec missing ((name, v) :: ms) = none := by
  rcases List.mem_map.1 h with ⟨m, hm, hname⟩
  have hfound : m ∈ ms.filter (fun m => m.1 = name) :=
    List.mem_filter.2 ⟨hm, by simpa using hname⟩
  rw [lookup, List.filter_cons_of_pos (by simp)]
  cases hrest : ms.filter (fun m => m.1 = name) with
  | nil =>
      rw [hrest] at hfound
      cases hfound
  | cons => rfl

theorem lookup_perm {α : Type} {ms ms' : List (String × Json)} (h : ms.Perm ms') (name : String)
    (codec : Codec α) (missing : Missing α) :
    lookup name codec missing ms = lookup name codec missing ms' := by
  have hperm := h.filter fun m => decide (m.1 = name)
  rw [lookup, lookup]
  generalize ms.filter (fun m => m.1 = name) = found at hperm
  generalize ms'.filter (fun m => m.1 = name) = found' at hperm
  -- What counts is whether none, one or more are found under the name.
  rcases found with _ | ⟨m, _ | ⟨m', rest⟩⟩
  · rw [hperm.nil_eq]
  · rw [hperm.symm.eq_singleton]
  · rcases found' with _ | ⟨n, _ | ⟨n', rest'⟩⟩
    · simpa using hperm.length_eq
    · simpa using hperm.length_eq
    · rfl

/-- In which order the members stand does not matter. -/
theorem ofMembers_perm {ms ms' : List (String × Json)} (h : ms.Perm ms') (l : Layout ρ) :
    l.ofMembers ms = l.ofMembers ms' := by
  induction l with
  | done => rfl
  | field name codec missing rest ih =>
      rw [ofMembers, ofMembers, lookup_perm h, ih]

/-- Members whose names are no field's are passed over. -/
theorem ofMembers_append {l : Layout ρ} {extra : List (String × Json)}
    (h : ∀ m ∈ extra, m.1 ∉ l.names) (ms : List (String × Json)) :
    l.ofMembers (ms ++ extra) = l.ofMembers ms := by
  induction extra with
  | nil => rw [List.append_nil]
  | cons m extra ih =>
      rw [ofMembers_perm List.perm_middle, ofMembers_cons (h m List.mem_cons_self),
        ih fun n hn => h n (List.mem_cons_of_mem m hn)]

/-- What becomes of a record if an object lacks the field of a name: the field takes its default.
There is nothing for a name that is no field's, or one of a field that must be there. -/
def reset? : {ρ : Type} → Layout ρ → String → Option (ρ → ρ)
  | _, done, _ => none
  | _, field name _ missing rest, key =>
    if key = name then missing.inObject.map fun a r => (a, r.2)
    else (rest.reset? key).map fun f r => (r.1, f r.2)

/-- An object that lacks a member, beside one that has it and is read as a record. -/
theorem ofMembers_of_cons {l : Layout ρ} (hnames : l.names.Nodup) {name : String}
    (hname : name ∈ l.names) {v : Json} {ms : List (String × Json)} {r : ρ}
    (h : l.ofMembers ((name, v) :: ms) = some r) :
    l.ofMembers ms = (l.reset? name).map fun f => f r := by
  induction l with
  | done => cases hname
  | field key codec missing rest ih =>
      rcases List.nodup_cons.1 hnames with ⟨hkey, hrest⟩
      rcases r with ⟨a, r⟩
      simp only [ofMembers] at h
      split at h
      · next b s hvalue hothers =>
          obtain ⟨rfl, rfl⟩ : b = a ∧ s = r := by simpa using h
          by_cases heq : name = key
          · subst heq
            -- The field was read, so it stood there once, and stands there no more.
            have hnot : name ∉ ms.map (·.1) := by
              intro hmem
              rw [lookup_cons_of_mem hmem] at hvalue
              cases hvalue
            rw [ofMembers_cons hkey] at hothers
            rw [ofMembers, lookup_of_not_mem hnot, hothers, reset?, if_pos rfl]
            cases missing.inObject <;> rfl
          · rw [lookup_cons_of_ne heq] at hvalue
            have hmem : name ∈ rest.names := (List.mem_cons.1 hname).resolve_left heq
            rw [ofMembers, hvalue, ih hrest hmem hothers, reset?, if_neg heq]
            cases rest.reset? name <;> rfl
      · cases h

/-- An object in which a field stands twice is no record. -/
theorem ofMembers_cons_of_mem {l : Layout ρ} {name : String} (hname : name ∈ l.names)
    {ms : List (String × Json)} (h : name ∈ ms.map (·.1)) (v : Json) :
    l.ofMembers ((name, v) :: ms) = none := by
  induction l with
  | done => cases hname
  | field key codec missing rest ih =>
      by_cases heq : name = key
      · subst heq
        rw [ofMembers, lookup_cons_of_mem h]
      · have hmem : name ∈ rest.names := (List.mem_cons.1 hname).resolve_left heq
        rw [ofMembers, ih hmem]
        cases lookup key codec missing ((name, v) :: ms) <;> rfl

end Layout

/-! ## Kinds of records -/

/-- A type that is read field by field: a layout, and what the values of its fields make up. -/
structure Record (α : Type) where
  {Row : Type}
  layout : Layout Row
  make : Row → α
  row : α → Row
  nodup_names : layout.names.Nodup := by decide
  row_make : ∀ r, row (make r) = r := by exact fun _ => rfl

namespace Record

variable {α : Type}

/-- The codec of a record. -/
def codec (r : Record α) : Codec α :=
  r.layout.codec.convert r.make r.row

theorem decode_obj (r : Record α) (ms : List (Option String × Json)) :
    r.codec.decode (.obj ms) = ((Json.namedMembers? ms).bind r.layout.ofMembers).map r.make :=
  rfl

/-- An object is read as a record if its members have names and are read as the fields. -/
theorem decode_obj_eq_some {r : Record α} {ms : List (Option String × Json)} {a : α}
    (h : r.codec.decode (.obj ms) = some a) :
    ∃ ns row, Json.namedMembers? ms = some ns ∧ r.layout.ofMembers ns = some row ∧
      r.make row = a := by
  rw [decode_obj, Option.map_eq_some_iff] at h
  rcases h with ⟨row, hrow, rfl⟩
  rcases Option.bind_eq_some_iff.1 hrow with ⟨ns, hns, hof⟩
  exact ⟨ns, row, hns, hof, rfl⟩

/-- Changes the values of the fields. -/
def onRow (r : Record α) (f : r.Row → r.Row) (a : α) : α :=
  r.make (f (r.row a))

variable {r : Record α}

/-- In another order and among unknown members, the same record is read. -/
theorem decode_rearranged {ms ms' : List (Option String × Json)} {a : α}
    (h : r.codec.decode (.obj ms) = some a) {extra : List (String × Json)}
    (hextra : ∀ m ∈ extra, m.1 ∉ r.layout.names)
    (hperm : ms'.Perm (ms ++ extra.map fun m => (some m.1, m.2))) :
    r.codec.decode (.obj ms') = some a := by
  rcases decode_obj_eq_some h with ⟨ns, row, hns, hrow, rfl⟩
  have hall : Json.namedMembers? (ms ++ extra.map fun m => (some m.1, m.2)) =
      some (ns ++ extra) := by
    rw [namedMembers?_append, hns, Json.namedMembers?_map]
    rfl
  rcases namedMembers?_perm hperm.symm hall with ⟨ns', hns', hperm'⟩
  rw [decode_obj, hns', Option.bind_some, ← Layout.ofMembers_perm hperm',
    Layout.ofMembers_append hextra, hrow, Option.map_some]

/-- Without one of its members, a record is read with the default of the field, or not at all. -/
theorem decode_without {before after : List (Option String × Json)} {name : String} {w : Json}
    {a : α} (h : r.codec.decode (.obj (before ++ (some name, w) :: after)) = some a)
    (hname : name ∈ r.layout.names) :
    r.codec.decode (.obj (before ++ after)) =
      (r.layout.reset? name).map fun reset => r.onRow reset a := by
  rcases decode_obj_eq_some h with ⟨ns, row, hns, hrow, rfl⟩
  rcases exists_of_namedMembers?_middle hns with ⟨rest, hrest, hperm⟩
  rw [Layout.ofMembers_perm hperm] at hrow
  rw [decode_obj, hrest, Option.bind_some, Layout.ofMembers_of_cons r.nodup_names hname hrow]
  cases r.layout.reset? name with
  | none => rfl
  | some reset => simp [onRow, r.row_make]

/-- With a field twice, nothing is read. -/
theorem decode_repeated {before after : List (Option String × Json)} {name : String}
    (hname : name ∈ r.layout.names) (h : some name ∈ (before ++ after).map (·.1)) (w : Json) :
    r.codec.decode (.obj (before ++ (some name, w) :: after)) = none := by
  refine Option.eq_none_iff_forall_ne_some.2 fun a ha => ?_
  rcases decode_obj_eq_some ha with ⟨ns, row, hns, hrow, -⟩
  rcases exists_of_namedMembers?_middle hns with ⟨rest, hrest, hperm⟩
  rw [map_fst_of_namedMembers? hrest] at h
  have hmem : name ∈ rest.map (·.1) := by simpa using h
  rw [Layout.ofMembers_perm hperm, Layout.ofMembers_cons_of_mem hname hmem] at hrow
  cases hrow

end Record

namespace Kind

/-- How the records of a kind are laid out, if it is a kind of records of the service. -/
def record? : (k : Kind) → Option (Record k.Carrier)
  | basicInfo => some
    { layout := BasicInfo.layout
      make := fun (a, b, ()) => ⟨a, b⟩
      row := fun r => (r.name, r.uuid, ()) }
  | user => some
    { layout := User.layout
      make := fun (a, b, c, d, e, f, g, ()) => ⟨a, b, c, d, e, f, g⟩
      row := fun r =>
        (r.uuid, r.name, r.image, r.email, r.lastLogin, r.permissions, r.accessLevel, ()) }
  | group => some
    { layout := Group.layout
      make := fun (a, b, c, d, e, ()) => ⟨a, b, c, d, e⟩
      row := fun r => (r.uuid, r.name, r.permissions, r.accessLevel, r.users, ()) }
  | oauthClientInfo => some
    { layout := OAuthClientInfo.layout
      make := fun (a, b, c, d, e, f, g, h, ()) => ⟨a, b, c, d, e, f, g, h⟩
      row := fun r =>
        (r.name, r.clientId, r.redirectUri, r.additionalRedirectUris, r.defaultScope, r.groupAccess,
          r.userAccess, r.confidential, ()) }
  | oauthScope => some
    { layout := OAuthScope.layout
      make := fun (a, b, c, d, ()) => ⟨a, b, c, d⟩
      row := fun r => (r.uuid, r.name, r.scope, r.policy, ()) }
  | oauthPolicy => some
    { layout := OAuthPolicy.layout
      make := fun (a, b, c, d, e, ()) => ⟨a, b, c, d, e⟩
      row := fun r => (r.uuid, r.name, r.claim, r.default, r.group, ()) }
  | passkey => some
    { layout := Passkey.layout
      make := fun (a, b, c, ()) => ⟨a, b, c⟩
      row := fun r => (r.name, r.created, r.used, ()) }
  | settings => some
    { layout := Settings.layout
      make := fun (a, ()) => ⟨a⟩
      row := fun r => (r.oAuthInstantConfirm, ()) }
  | userInfo => some
    { layout := UserInfo.layout
      make := fun (a, b, c, d, e, f, g, h, ()) => ⟨a, b, c, d, e, f, g, h⟩
      row := fun r =>
        (r.uuid, r.lastLogin, r.lastSpecialAccess, r.totpEnabled, r.totpCreated, r.totpLastUsed,
          r.permissions, r.accessLevel, ()) }
  | apodInfo => some
    { layout := ApodInfo.layout
      make := fun (a, b, c, d, ()) => ⟨a, b, c, d⟩
      row := fun r => (r.title, r.date, r.image, r.user, ()) }
  | apodData => some
    { layout := ApodData.layout
      make := fun (a, b, ()) => ⟨a, b⟩
      row := fun r => (r.title, r.user, ()) }
  | apod => some
    { layout := Apod.layout
      make := fun (a, ()) => ⟨a⟩
      row := fun r => (r.image, ()) }
  | credential | basicInfos | users | strings => none

theorem codec_eq_of_record? {k : Kind} {r : Record k.Carrier} (h : k.record? = some r) :
    k.codec = r.codec := by
  cases k <;> cases h <;> rfl

/-- The fields that an object may lack, kind by kind. -/
example :
    [basicInfo, user, group, oauthClientInfo, oauthScope, oauthPolicy, passkey, settings, userInfo,
      apodInfo, apodData, apod].map (fun k => (k.record?.map fun r =>
        r.layout.names.filter fun name => (r.layout.reset? name).isSome)) =
      [some [], some ["image", "last_login", "permissions", "access_level"],
        some ["permissions", "access_level", "users"],
        some ["additional_redirect_uris", "default_scope", "group_access", "user_access",
          "confidential"], some ["policy"], some ["group"], some [], some [],
        some ["last_login", "last_special_access", "totp_enabled", "totp_created", "totp_last_used",
          "permissions", "access_level"], some [], some ["user"], some []] := by
  decide

theorem read?_of_read? {k : Kind} {text : String} {j : Json} (h : Json.read? text = some j) :
    k.read? text = k.codec.decode j := by
  rw [read?, h, Option.bind_some]

end Kind

end LiveFeed.Wire
