import LiveFeed.Json.Basic

/-!
# Codecs for wire records

A codec turns a type into JSON values and back.  Records are laid out by a `Layout`: a chain of named
fields, each with a codec and a rule for when it is missing.

A record is read from an object or from an array.  In an object, members with unknown names are
ignored, a field may stand anywhere but only once, and a missing field takes its default.  In an array
the fields stand in order, only fields with a default may be missing at the end, and nothing may
follow.  A field that may be left out of an object without having a default, as optional fields may,
must still be present in an array.
-/

namespace LiveFeed.Wire

/-- A way to write a type as JSON and to read it back. -/
structure Codec (α : Type) where
  encode : α → Json
  decode : Json → Option α

/-- What is written is read back. -/
def Codec.Lawful {α : Type} (c : Codec α) : Prop :=
  ∀ a, c.decode (c.encode a) = some a

namespace Codec

variable {α β : Type}

/-- Text. -/
def string : Codec String where
  encode := Json.text
  decode
    | .str t => t
    | _ => none

/-- Truth values. -/
def flag : Codec Bool where
  encode := .bool
  decode
    | .bool b => some b
    | _ => none

/-- Integers of 32 bits in integer spelling. -/
def int32 : Codec Int32 where
  encode i := Json.int i.toInt
  decode
    | .num n =>
      match n.toInt? with
      | some i => if -2147483648 ≤ i ∧ i < 2147483648 then some (Int32.ofInt i) else none
      | none => none
    | _ => none

/-- Lists, as arrays. -/
def list (c : Codec α) : Codec (List α) where
  encode xs := .arr (xs.map c.encode)
  decode
    | .arr vs => vs.mapM c.decode
    | _ => none

/-- A value or `null`. -/
def optional (c : Codec α) : Codec (Option α) where
  encode
    | some a => c.encode a
    | none => .null
  decode
    | .null => some none
    | v => (c.decode v).map some

/-- Pairs, as arrays of two. -/
def pair (c : Codec α) (d : Codec β) : Codec (α × β) where
  encode p := .arr [c.encode p.1, d.encode p.2]
  decode
    | .arr [v, w] => do
      let a ← c.decode v
      let b ← d.decode w
      pure (a, b)
    | _ => none

/-- A codec for a type with the same content. -/
def convert (c : Codec α) (make : α → β) (back : β → α) : Codec β where
  encode b := c.encode (back b)
  decode v := (c.decode v).map make

end Codec

/-- What a missing field means. -/
inductive Missing (α : Type) where
  /-- It must be there. -/
  | refused
  /-- It takes a default. -/
  | default (a : α)
  /-- It takes a default, but in an array it must be there. -/
  | unlessInArray (a : α)

namespace Missing

variable {α : Type}

/-- The value of a field that an object lacks. -/
def inObject : Missing α → Option α
  | refused => none
  | default a => some a
  | unlessInArray a => some a

/-- The value of a field that an array is too short for. -/
def inArray : Missing α → Option α
  | refused => none
  | default a => some a
  | unlessInArray _ => none

end Missing

/-- The fields of a record, in order; the type is the product of theirs. -/
inductive Layout : Type → Type 1 where
  | done : Layout Unit
  | field {α ρ : Type} (name : String) (codec : Codec α) (missing : Missing α) (rest : Layout ρ) :
      Layout (α × ρ)

namespace Layout

/-- The names of the fields. -/
def names : {ρ : Type} → Layout ρ → List String
  | _, done => []
  | _, field name _ _ rest => name :: rest.names

/-- The members that a record is written as. -/
def members : {ρ : Type} → Layout ρ → ρ → List (String × Json)
  | _, done, _ => []
  | _, field name codec _ rest, (a, r) => (name, codec.encode a) :: rest.members r

/-- The value of a field among the members of an object. -/
def lookup {α : Type} (name : String) (codec : Codec α) (missing : Missing α)
    (ms : List (String × Json)) : Option α :=
  match ms.filter fun m => m.1 = name with
  | [] => missing.inObject
  | [m] => codec.decode m.2
  | _ => none

/-- Reads a record from the members of an object. -/
def ofMembers : {ρ : Type} → Layout ρ → List (String × Json) → Option ρ
  | _, done, _ => some ()
  | _, field name codec missing rest, ms =>
    match lookup name codec missing ms, rest.ofMembers ms with
    | some a, some r => some (a, r)
    | _, _ => none

/-- Reads a record from the elements of an array. -/
def ofItems : {ρ : Type} → Layout ρ → List Json → Option ρ
  | _, done, [] => some ()
  | _, done, _ :: _ => none
  | _, field _ _ missing rest, [] =>
    match missing.inArray, rest.ofItems [] with
    | some a, some r => some (a, r)
    | _, _ => none
  | _, field _ codec _ rest, v :: vs =>
    match codec.decode v, rest.ofItems vs with
    | some a, some r => some (a, r)
    | _, _ => none

/-- The codec of a record. -/
def codec {ρ : Type} (l : Layout ρ) : Codec ρ where
  encode r := Json.record (l.members r)
  decode
    | .obj ms => (Json.namedMembers? ms).bind l.ofMembers
    | .arr vs => l.ofItems vs
    | _ => none

end Layout

end LiveFeed.Wire
