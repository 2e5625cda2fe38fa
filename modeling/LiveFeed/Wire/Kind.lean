import LiveFeed.Wire.Records
import LiveFeed.Credential
import LiveFeed.Json.Reader
import LiveFeed.Json.Printer

/-!
# Kinds of wire values

Every kind of value that is read from or written to JSON text, with its codec.  `Kind.read?` reads a
whole text as a value of a kind and `Kind.write` writes its compact form.
-/

namespace LiveFeed.Wire

/-- A kind of wire value. -/
inductive Kind where
  | basicInfo
  | user
  | group
  | oauthClientInfo
  | oauthScope
  | oauthPolicy
  | passkey
  | settings
  | userInfo
  | apodInfo
  | apodData
  | apod
  | credential
  | basicInfos
  | users
  | strings
  deriving DecidableEq, Repr

namespace Kind

/-- The type of the values of a kind. -/
abbrev Carrier : Kind → Type
  | basicInfo => BasicInfo
  | user => User
  | group => Group
  | oauthClientInfo => OAuthClientInfo
  | oauthScope => OAuthScope
  | oauthPolicy => OAuthPolicy
  | passkey => Passkey
  | settings => Settings
  | userInfo => UserInfo
  | apodInfo => ApodInfo
  | apodData => ApodData
  | apod => Apod
  | credential => Credential
  | basicInfos => List BasicInfo
  | users => List User
  | strings => List String

/-- The codec of a kind. -/
def codec : (k : Kind) → Codec k.Carrier
  | basicInfo => BasicInfo.codec
  | user => User.codec
  | group => Group.codec
  | oauthClientInfo => OAuthClientInfo.codec
  | oauthScope => OAuthScope.codec
  | oauthPolicy => OAuthPolicy.codec
  | passkey => Passkey.codec
  | settings => Settings.codec
  | userInfo => UserInfo.codec
  | apodInfo => ApodInfo.codec
  | apodData => ApodData.codec
  | apod => Apod.codec
  | credential => Credential.codec
  | basicInfos => .list BasicInfo.codec
  | users => .list User.codec
  | strings => .list .string

/-- Reads a text as a value of a kind. -/
def read? (k : Kind) (text : String) : Option k.Carrier :=
  (Json.read? text).bind k.codec.decode

/-- Writes a value of a kind in compact form. -/
def write (k : Kind) (a : k.Carrier) : String :=
  (k.codec.encode a).compact

end Kind

end LiveFeed.Wire
