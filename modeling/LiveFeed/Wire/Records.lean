import LiveFeed.Wire.Codec

/-!
# Records of the service

What the service sends and takes.  Ids and timestamps stay the text they are: the client only shows
them.
-/

namespace LiveFeed.Wire

/-- The name and the id by which one entity refers to another. -/
structure BasicInfo where
  name : String
  uuid : String
  deriving DecidableEq, Repr

/-- An account as the managers see it. -/
structure User where
  uuid : String
  name : String
  image : String
  email : String
  lastLogin : String
  permissions : List String
  accessLevel : Int32
  deriving DecidableEq

/-- A group of accounts. -/
structure Group where
  uuid : String
  name : String
  permissions : List String
  accessLevel : Int32
  users : List BasicInfo
  deriving DecidableEq

/-- An application that signs people in through the service. -/
structure OAuthClientInfo where
  name : String
  clientId : String
  redirectUri : String
  additionalRedirectUris : List String
  defaultScope : String
  groupAccess : List BasicInfo
  userAccess : List BasicInfo
  confidential : Bool
  deriving DecidableEq, Repr

/-- A scope that applications may ask for. -/
structure OAuthScope where
  uuid : String
  name : String
  scope : String
  policy : List BasicInfo
  deriving DecidableEq, Repr

/-- A claim with its value by default and by group. -/
structure OAuthPolicy where
  uuid : String
  name : String
  claim : String
  default : String
  group : List (BasicInfo × String)
  deriving DecidableEq, Repr

/-- A registered passkey. -/
structure Passkey where
  name : String
  created : String
  used : String
  deriving DecidableEq, Repr

/-- Account settings. -/
structure Settings where
  oAuthInstantConfirm : Bool
  deriving DecidableEq, Repr

/-- The profile of one account. -/
structure UserInfo where
  uuid : String
  lastLogin : String
  lastSpecialAccess : String
  totpEnabled : Bool
  totpCreated : Option String
  totpLastUsed : Option String
  permissions : List String
  accessLevel : Int32
  deriving DecidableEq

/-- An entry of the picture archive, with a preview. -/
structure ApodInfo where
  title : String
  date : String
  image : String
  user : BasicInfo
  deriving DecidableEq, Repr

/-- What is known about the picture of a date. -/
structure ApodData where
  title : String
  user : Option BasicInfo
  deriving DecidableEq, Repr

/-- The picture of a date. -/
structure Apod where
  image : String
  deriving DecidableEq, Repr

/-! ## Layouts -/

open Codec (string flag int32 list optional pair)

namespace BasicInfo

/-- Fields of a reference. -/
def layout : Layout (String × String × Unit) :=
  .field "name" string .refused <| .field "uuid" string .refused <| .done

/-- Codec of a reference. -/
def codec : Codec BasicInfo :=
  layout.codec.convert (fun (name, uuid, ()) => ⟨name, uuid⟩) fun r => (r.name, r.uuid, ())

end BasicInfo

namespace User

/-- Fields of an account. -/
def layout : Layout (String × String × String × String × String × List String × Int32 × Unit) :=
  .field "uuid" string .refused <| .field "name" string .refused <|
  .field "image" string (.default "") <| .field "email" string .refused <|
  .field "last_login" string (.default "") <| .field "permissions" (list string) (.default []) <|
  .field "access_level" int32 (.default 0) <| .done

/-- Codec of an account. -/
def codec : Codec User :=
  layout.codec.convert (fun (a, b, c, d, e, f, g, ()) => ⟨a, b, c, d, e, f, g⟩) fun r =>
    (r.uuid, r.name, r.image, r.email, r.lastLogin, r.permissions, r.accessLevel, ())

end User

namespace Group

/-- Fields of a group. -/
def layout : Layout (String × String × List String × Int32 × List BasicInfo × Unit) :=
  .field "uuid" string .refused <| .field "name" string .refused <|
  .field "permissions" (list string) (.default []) <| .field "access_level" int32 (.default 0) <|
  .field "users" (list BasicInfo.codec) (.default []) <| .done

/-- Codec of a group. -/
def codec : Codec Group :=
  layout.codec.convert (fun (a, b, c, d, e, ()) => ⟨a, b, c, d, e⟩) fun r =>
    (r.uuid, r.name, r.permissions, r.accessLevel, r.users, ())

end Group

namespace OAuthClientInfo

/-- Fields of an application. -/
def layout : Layout (String × String × String × List String × String × List BasicInfo ×
    List BasicInfo × Bool × Unit) :=
  .field "name" string .refused <| .field "client_id" string .refused <|
  .field "redirect_uri" string .refused <|
  .field "additional_redirect_uris" (list string) (.default []) <|
  .field "default_scope" string (.default "") <|
  .field "group_access" (list BasicInfo.codec) (.default []) <|
  .field "user_access" (list BasicInfo.codec) (.default []) <|
  .field "confidential" flag (.default false) <| .done

/-- Codec of an application. -/
def codec : Codec OAuthClientInfo :=
  layout.codec.convert (fun (a, b, c, d, e, f, g, h, ()) => ⟨a, b, c, d, e, f, g, h⟩) fun r =>
    (r.name, r.clientId, r.redirectUri, r.additionalRedirectUris, r.defaultScope, r.groupAccess,
      r.userAccess, r.confidential, ())

end OAuthClientInfo

namespace OAuthScope

/-- Fields of a scope. -/
def layout : Layout (String × String × String × List BasicInfo × Unit) :=
  .field "uuid" string .refused <| .field "name" string .refused <|
  .field "scope" string .refused <| .field "policy" (list BasicInfo.codec) (.default []) <| .done

/-- Codec of a scope. -/
def codec : Codec OAuthScope :=
  layout.codec.convert (fun (a, b, c, d, ()) => ⟨a, b, c, d⟩) fun r =>
    (r.uuid, r.name, r.scope, r.policy, ())

end OAuthScope

namespace OAuthPolicy

/-- Fields of a policy. -/
def layout : Layout (String × String × String × String × List (BasicInfo × String) × Unit) :=
  .field "uuid" string .refused <| .field "name" string .refused <|
  .field "claim" string .refused <| .field "default" string .refused <|
  .field "group" (list (pair BasicInfo.codec string)) (.default []) <| .done

/-- Codec of a policy. -/
def codec : Codec OAuthPolicy :=
  layout.codec.convert (fun (a, b, c, d, e, ()) => ⟨a, b, c, d, e⟩) fun r =>
    (r.uuid, r.name, r.claim, r.default, r.group, ())

end OAuthPolicy

namespace Passkey

/-- Fields of a passkey. -/
def layout : Layout (String × String × String × Unit) :=
  .field "name" string .refused <| .field "created" string .refused <|
  .field "used" string .refused <| .done

/-- Codec of a passkey. -/
def codec : Codec Passkey :=
  layout.codec.convert (fun (a, b, c, ()) => ⟨a, b, c⟩) fun r => (r.name, r.created, r.used, ())

end Passkey

namespace Settings

/-- Fields of the settings. -/
def layout : Layout (Bool × Unit) :=
  .field "o_auth_instant_confirm" flag .refused <| .done

/-- Codec of the settings. -/
def codec : Codec Settings :=
  layout.codec.convert (fun (a, ()) => ⟨a⟩) fun r => (r.oAuthInstantConfirm, ())

end Settings

namespace UserInfo

/-- Fields of a profile. -/
def layout : Layout (String × String × String × Bool × Option String × Option String ×
    List String × Int32 × Unit) :=
  .field "uuid" string .refused <| .field "last_login" string (.default "") <|
  .field "last_special_access" string (.default "") <| .field "totp_enabled" flag (.default false) <|
  .field "totp_created" (optional string) (.unlessInArray none) <|
  .field "totp_last_used" (optional string) (.unlessInArray none) <|
  .field "permissions" (list string) (.default []) <| .field "access_level" int32 (.default 0) <| .done

/-- Codec of a profile. -/
def codec : Codec UserInfo :=
  layout.codec.convert (fun (a, b, c, d, e, f, g, h, ()) => ⟨a, b, c, d, e, f, g, h⟩) fun r =>
    (r.uuid, r.lastLogin, r.lastSpecialAccess, r.totpEnabled, r.totpCreated, r.totpLastUsed,
      r.permissions, r.accessLevel, ())

end UserInfo

namespace ApodInfo

/-- Fields of an archive entry. -/
def layout : Layout (String × String × String × BasicInfo × Unit) :=
  .field "title" string .refused <| .field "date" string .refused <|
  .field "image" string .refused <| .field "user" BasicInfo.codec .refused <| .done

/-- Codec of an archive entry. -/
def codec : Codec ApodInfo :=
  layout.codec.convert (fun (a, b, c, d, ()) => ⟨a, b, c, d⟩) fun r =>
    (r.title, r.date, r.image, r.user, ())

end ApodInfo

namespace ApodData

/-- Fields of what is known about a picture. -/
def layout : Layout (String × Option BasicInfo × Unit) :=
  .field "title" string .refused <|
  .field "user" (optional BasicInfo.codec) (.unlessInArray none) <| .done

/-- Codec of what is known about a picture. -/
def codec : Codec ApodData :=
  layout.codec.convert (fun (a, b, ()) => ⟨a, b⟩) fun r => (r.title, r.user, ())

end ApodData

namespace Apod

/-- Fields of a picture. -/
def layout : Layout (String × Unit) :=
  .field "image" string .refused <| .done

/-- Codec of a picture. -/
def codec : Codec Apod :=
  layout.codec.convert (fun (a, ()) => ⟨a⟩) fun r => (r.image, ())

end Apod

end LiveFeed.Wire
