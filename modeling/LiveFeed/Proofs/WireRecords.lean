import LiveFeed.Proofs.StoredData

/-!
# Wire records read back

What is written of a record is read back as that record.  The law is proved once for each way to build
a codec; a record then only has to name its fields differently and to give each a lawful codec.

* `Codec.list_lawful`, `Codec.optional_lawful`, `Codec.pair_lawful`, `Codec.convert_lawful`: the ways to
  build a codec;
* `Layout.ofMembers_cons`: a member that is no field is passed over;
* `Layout.codec_lawful`: records;
* `Kind.codec_lawful`, `Kind.reading_undoes_writing`: every kind of wire value, as JSON text.
-/

namespace LiveFeed.Wire

/-! ## Codecs -/

namespace Codec

variable {α β : Type}

theorem string_lawful : string.Lawful :=
  fun _ => rfl

theorem flag_lawful : flag.Lawful :=
  fun _ => rfl

theorem int32_lawful : int32.Lawful := by
  intro i
  have hlow : -2147483648 ≤ i.toInt := i.le_toInt
  have hhigh : i.toInt < 2147483648 := i.toInt_lt
  simp [int32, Json.int, Numeral.toInt?_ofInt, hlow, hhigh]

/-- Elements that are read back one by one are read back as a list. -/
theorem mapM_decode_encode {c : Codec α} (h : c.Lawful) (xs : List α) :
    (xs.map c.encode).mapM c.decode = some xs := by
  induction xs with
  | nil =>
      rfl
  | cons x xs ih =>
      simp [h x, ih]

theorem list_lawful {c : Codec α} (h : c.Lawful) : (list c).Lawful :=
  fun xs => mapM_decode_encode h xs

/-- A codec that never writes `null`, which stands for a missing value. -/
def WritesNoNull (c : Codec α) : Prop :=
  ∀ a, c.encode a ≠ .null

theorem string_writesNoNull : string.WritesNoNull := by
  intro s h
  cases h

theorem convert_writesNoNull {c : Codec α} (h : c.WritesNoNull) (make : α → β) (back : β → α) :
    (c.convert make back).WritesNoNull :=
  fun b => h (back b)

/-- A value that is not `null` is read as one that is there. -/
theorem decode_optional {c : Codec α} {v : Json} (h : v ≠ .null) :
    (optional c).decode v = (c.decode v).map some := by
  cases v with
  | null => exact absurd rfl h
  | bool | num | str | arr | obj => rfl

theorem optional_lawful {c : Codec α} (h : c.Lawful) (hnull : c.WritesNoNull) :
    (optional c).Lawful := by
  intro o
  cases o with
  | none =>
      rfl
  | some a =>
      have hdecode : (optional c).decode (c.encode a) = (c.decode (c.encode a)).map some :=
        decode_optional (hnull a)
      rw [h a] at hdecode
      exact hdecode

theorem pair_lawful {c : Codec α} {d : Codec β} (hc : c.Lawful) (hd : d.Lawful) :
    (pair c d).Lawful := by
  intro p
  simp [pair, hc p.1, hd p.2]

theorem convert_lawful {c : Codec α} (h : c.Lawful) {make : α → β} {back : β → α}
    (hmake : ∀ b, make (back b) = b) : (c.convert make back).Lawful := by
  intro b
  simp [convert, h (back b), hmake b]

end Codec

/-! ## Records -/

namespace Layout

variable {ρ : Type}

/-- Every field has a lawful codec. -/
def FieldsLawful : {ρ : Type} → Layout ρ → Prop
  | _, done => True
  | _, field _ codec _ rest => codec.Lawful ∧ rest.FieldsLawful

theorem map_members (l : Layout ρ) (r : ρ) : (l.members r).map (·.1) = l.names := by
  induction l with
  | done => rfl
  | field name codec missing rest ih =>
      exact congrArg (name :: ·) (ih r.2)

/-- A member of another name does not show in the value of a field. -/
theorem lookup_cons_of_ne {α : Type} {name : String} {m : String × Json} (h : m.1 ≠ name)
    (codec : Codec α) (missing : Missing α) (ms : List (String × Json)) :
    lookup name codec missing (m :: ms) = lookup name codec missing ms := by
  rw [lookup, lookup, List.filter_cons_of_neg (by simpa using h)]

theorem filter_name_eq_nil {name : String} {ms : List (String × Json)} (h : name ∉ ms.map (·.1)) :
    ms.filter (fun m => m.1 = name) = [] := by
  refine List.filter_eq_nil_iff.2 ?_
  intro m hm hname
  have heq : m.1 = name := by simpa using hname
  exact h (heq ▸ List.mem_map_of_mem hm)

/-- A field that stands in front and nowhere else has the value that stands there. -/
theorem lookup_cons_self {α : Type} {name : String} {ms : List (String × Json)}
    (h : name ∉ ms.map (·.1)) (codec : Codec α) (missing : Missing α) (v : Json) :
    lookup name codec missing ((name, v) :: ms) = codec.decode v := by
  -- Only the front member is found under the name, so there is nothing twice.
  rw [lookup, List.filter_cons_of_pos (by simp), filter_name_eq_nil h]

/-- A member whose name is no field's is passed over. -/
theorem ofMembers_cons {l : Layout ρ} {m : String × Json} (h : m.1 ∉ l.names)
    (ms : List (String × Json)) : l.ofMembers (m :: ms) = l.ofMembers ms := by
  induction l with
  | done => rfl
  | field name codec missing rest ih =>
      have hne : m.1 ≠ name := fun heq => h (heq ▸ List.mem_cons_self)
      have hrest : m.1 ∉ rest.names := fun hmem => h (List.mem_cons_of_mem _ hmem)
      rw [ofMembers, ofMembers, lookup_cons_of_ne hne, ih hrest]

/-- Under distinct names, the members that a record is written as are read as this record. -/
theorem ofMembers_members {l : Layout ρ} (hnames : l.names.Nodup) (hfields : l.FieldsLawful)
    (r : ρ) : l.ofMembers (l.members r) = some r := by
  induction l with
  | done => rfl
  | field name codec missing rest ih =>
      rcases r with ⟨a, r⟩
      rcases List.nodup_cons.1 hnames with ⟨hname, hrest⟩
      rcases hfields with ⟨hcodec, hfields⟩
      have hvalue : lookup name codec missing ((name, codec.encode a) :: rest.members r) = some a := by
        rw [lookup_cons_self (by rw [map_members]; exact hname), hcodec a]
      -- The field's own member is none of the other fields', so they are read as if it were not there.
      have hothers : rest.ofMembers ((name, codec.encode a) :: rest.members r) = some r := by
        rw [ofMembers_cons hname, ih hrest hfields]
      simp [members, ofMembers, hvalue, hothers]

theorem codec_lawful (l : Layout ρ) (hnames : l.names.Nodup) (hfields : l.FieldsLawful) :
    l.codec.Lawful := by
  intro r
  have hdecode : l.codec.decode (l.codec.encode r) =
      (Json.namedMembers? ((l.members r).map fun m => (some m.1, m.2))).bind l.ofMembers := rfl
  rw [hdecode, Json.namedMembers?_map]
  exact ofMembers_members hnames hfields r

theorem codec_writesNoNull (l : Layout ρ) : l.codec.WritesNoNull := by
  intro r h
  cases h

end Layout

/-! ## Records of the service -/

open Codec

theorem BasicInfo.codec_lawful : BasicInfo.codec.Lawful :=
  convert_lawful (layout.codec_lawful (by decide) ⟨string_lawful, string_lawful, trivial⟩)
    fun _ => rfl

theorem User.codec_lawful : User.codec.Lawful :=
  convert_lawful
    (layout.codec_lawful (by decide)
      ⟨string_lawful, string_lawful, string_lawful, string_lawful, string_lawful,
        list_lawful string_lawful, int32_lawful, trivial⟩)
    fun _ => rfl

theorem Group.codec_lawful : Group.codec.Lawful :=
  convert_lawful
    (layout.codec_lawful (by decide)
      ⟨string_lawful, string_lawful, list_lawful string_lawful, int32_lawful,
        list_lawful BasicInfo.codec_lawful, trivial⟩)
    fun _ => rfl

theorem OAuthClientInfo.codec_lawful : OAuthClientInfo.codec.Lawful :=
  convert_lawful
    (layout.codec_lawful (by decide)
      ⟨string_lawful, string_lawful, string_lawful, list_lawful string_lawful, string_lawful,
        list_lawful BasicInfo.codec_lawful, list_lawful BasicInfo.codec_lawful, flag_lawful,
        trivial⟩)
    fun _ => rfl

theorem OAuthScope.codec_lawful : OAuthScope.codec.Lawful :=
  convert_lawful
    (layout.codec_lawful (by decide)
      ⟨string_lawful, string_lawful, string_lawful, list_lawful BasicInfo.codec_lawful, trivial⟩)
    fun _ => rfl

theorem OAuthPolicy.codec_lawful : OAuthPolicy.codec.Lawful :=
  convert_lawful
    (layout.codec_lawful (by decide)
      ⟨string_lawful, string_lawful, string_lawful, string_lawful,
        list_lawful (pair_lawful BasicInfo.codec_lawful string_lawful), trivial⟩)
    fun _ => rfl

theorem Passkey.codec_lawful : Passkey.codec.Lawful :=
  convert_lawful
    (layout.codec_lawful (by decide) ⟨string_lawful, string_lawful, string_lawful, trivial⟩)
    fun _ => rfl

theorem Settings.codec_lawful : Settings.codec.Lawful :=
  convert_lawful (layout.codec_lawful (by decide) ⟨flag_lawful, trivial⟩) fun _ => rfl

theorem UserInfo.codec_lawful : UserInfo.codec.Lawful :=
  convert_lawful
    (layout.codec_lawful (by decide)
      ⟨string_lawful, string_lawful, string_lawful, flag_lawful,
        optional_lawful string_lawful string_writesNoNull,
        optional_lawful string_lawful string_writesNoNull,
        list_lawful string_lawful, int32_lawful, trivial⟩)
    fun _ => rfl

theorem ApodInfo.codec_lawful : ApodInfo.codec.Lawful :=
  convert_lawful
    (layout.codec_lawful (by decide)
      ⟨string_lawful, string_lawful, string_lawful, BasicInfo.codec_lawful, trivial⟩)
    fun _ => rfl

theorem ApodData.codec_lawful : ApodData.codec.Lawful :=
  convert_lawful
    (layout.codec_lawful (by decide)
      ⟨string_lawful,
        optional_lawful BasicInfo.codec_lawful
          (convert_writesNoNull (BasicInfo.layout.codec_writesNoNull) _ _),
        trivial⟩)
    fun _ => rfl

theorem Apod.codec_lawful : Apod.codec.Lawful :=
  convert_lawful (layout.codec_lawful (by decide) ⟨string_lawful, trivial⟩) fun _ => rfl

/-! ## Kinds -/

namespace Kind

/-- Every kind of wire value is read from the JSON value that it is written as. -/
theorem codec_lawful (k : Kind) : k.codec.Lawful := by
  cases k with
  | basicInfo => exact BasicInfo.codec_lawful
  | user => exact User.codec_lawful
  | group => exact Group.codec_lawful
  | oauthClientInfo => exact OAuthClientInfo.codec_lawful
  | oauthScope => exact OAuthScope.codec_lawful
  | oauthPolicy => exact OAuthPolicy.codec_lawful
  | passkey => exact Passkey.codec_lawful
  | settings => exact Settings.codec_lawful
  | userInfo => exact UserInfo.codec_lawful
  | apodInfo => exact ApodInfo.codec_lawful
  | apodData => exact ApodData.codec_lawful
  | apod => exact Apod.codec_lawful
  | credential => exact Credential.ofJson?_toJson
  | basicInfos => exact list_lawful BasicInfo.codec_lawful
  | users => exact list_lawful User.codec_lawful
  | strings => exact list_lawful string_lawful

theorem read?_compact (k : Kind) (j : Json) : k.read? j.compact = k.codec.decode j := by
  rw [read?, Json.read?_compact]
  rfl

/-- What is written of a value is JSON text, from which the value is read back; and a value that was read
from any text, however that spells it, is read from what is written of it as the same value. -/
theorem reading_undoes_writing (k : Kind) :
    (∀ v, Json.read? (k.write v) = some (k.codec.encode v) ∧ k.read? (k.write v) = some v) ∧
      ∀ text v, k.read? text = some v → k.read? (k.write v) = some v := by
  have hread : ∀ v, k.read? (k.write v) = some v := by
    intro v
    rw [write, read?_compact]
    exact k.codec_lawful v
  exact ⟨fun v => ⟨Json.read?_compact _, hread v⟩, fun text v _ => hread v⟩

/-- A policy whose text has a member too many, another order and an override, and lacks nothing. -/
def shuffledPolicy : Json :=
  Json.record [("claim", .text "role\n"), ("extra", .arr [.null]), ("default", .text "user"),
    ("group", .arr [.arr [Json.record [("uuid", .text "g1"), ("name", .text "admins")],
      .text "admin"]]),
    ("name", .text "\x7f\x00"), ("uuid", .text "p1")]

/-- A policy written in an order of its own is read, and what is written of it is read as the same. -/
theorem reading_undoes_writing_shuffled :
    oauthPolicy.read? shuffledPolicy.compact =
        some ⟨"p1", "\x7f\x00", "role\n", "user", [(⟨"admins", "g1"⟩, "admin")]⟩ ∧
      oauthPolicy.read? (oauthPolicy.write
          ⟨"p1", "\x7f\x00", "role\n", "user", [(⟨"admins", "g1"⟩, "admin")]⟩) =
        some ⟨"p1", "\x7f\x00", "role\n", "user", [(⟨"admins", "g1"⟩, "admin")]⟩ := by
  have hread : oauthPolicy.read? shuffledPolicy.compact =
      some ⟨"p1", "\x7f\x00", "role\n", "user", [(⟨"admins", "g1"⟩, "admin")]⟩ :=
    oauthPolicy.read?_compact shuffledPolicy
  exact ⟨hread, (reading_undoes_writing oauthPolicy).2 _ _ hread⟩

end Kind

end LiveFeed.Wire
