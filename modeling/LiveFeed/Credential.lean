import LiveFeed.Wire.Codec
import LiveFeed.Json.Plain

/-!
# Credentials

What proves to a backend who is asking.  A credential is written as an object whose member `type`
names its kind; the other members are kept whole until the kind is known, so they must be plain and
not nested too deep.  An array that starts with the kind is read as well.
-/

namespace LiveFeed

/-- A credential. -/
inductive Credential where
  /-- A session token. -/
  | bearer (token : String)
  deriving DecidableEq, Repr

namespace Credential

/-- The session token. -/
def token : Credential → String
  | bearer t => t

/-- The deepest nesting of a text that names its kind. -/
def depthLimit : Nat := 127

/-- Fields of a bearer credential besides its kind. -/
def bearerLayout : Wire.Layout (String × Unit) :=
  .field "token" .string .refused <| .done

/-- The members of an object besides those named `type`, and the values of the latter. -/
def splitKind (ms : List (String × Json)) : List Json × List (String × Json) :=
  ((ms.filter fun m => m.1 = "type").map (·.2), ms.filter fun m => m.1 ≠ "type")

/-- Whether a value is the name of the bearer kind. -/
def isBearerKind : Json → Bool
  | .str (some k) => k == "bearer"
  | _ => false

/-- Reads a credential from its JSON value. -/
def ofJson? (v : Json) : Option Credential :=
  if v.isPlain && v.depth ≤ depthLimit then
    match v with
    | .obj ms =>
      match (Json.namedMembers? ms).map splitKind with
      | some ([kind], others) =>
        if isBearerKind kind then (bearerLayout.ofMembers others).map fun (t, ()) => bearer t
        else none
      | _ => none
    | .arr (kind :: others) =>
      if isBearerKind kind then (bearerLayout.ofItems others).map fun (t, ()) => bearer t else none
    | _ => none
  else none

/-- The JSON value of a credential. -/
def toJson : Credential → Json
  | bearer t => Json.record (("type", .text "bearer") :: bearerLayout.members (t, ()))

/-- Codec of a credential. -/
def codec : Wire.Codec Credential := ⟨toJson, ofJson?⟩

end Credential

end LiveFeed
