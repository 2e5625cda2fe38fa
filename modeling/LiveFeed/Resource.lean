import LiveFeed.Topic
import LiveFeed.Wire.Records

/-!
# Resources

What the service keeps and announces changes of.  Every resource has the topic it is announced under,
the path it is read at, the type of what is read there and the label it goes by on the command line.

* `Resource.all`: every resource; `Resource.ofLabel?_label`: a label names its resource;
* `Resource.Value`: a resource with something read for it.
-/

namespace LiveFeed

/-- A resource of the service. -/
inductive Resource where
  | users
  | groups
  | oauthClients
  | oauthClientUsers
  | oauthClientGroups
  | oauthScopes
  | oauthScopeNames
  | oauthPolicies
  | oauthPolicyInfos
  | passkeys
  | settings
  | apods
  /-- The picture of a date that has to be chosen. -/
  | apodImage
  deriving DecidableEq, Repr

namespace Resource

/-- Every resource. -/
def all : List Resource :=
  [users, groups, oauthClients, oauthClientUsers, oauthClientGroups, oauthScopes, oauthScopeNames,
    oauthPolicies, oauthPolicyInfos, passkeys, settings, apods, apodImage]

/-- The label of a resource on the command line. -/
def label : Resource → String
  | users => "users"
  | groups => "groups"
  | oauthClients => "oauth-clients"
  | oauthClientUsers => "oauth-client-users"
  | oauthClientGroups => "oauth-client-groups"
  | oauthScopes => "oauth-scopes"
  | oauthScopeNames => "oauth-scope-names"
  | oauthPolicies => "oauth-policies"
  | oauthPolicyInfos => "oauth-policy-infos"
  | passkeys => "passkeys"
  | settings => "settings"
  | apods => "apods"
  | apodImage => "apod-image"

/-- The resource of a label; labels are compared exactly. -/
def ofLabel? (s : String) : Option Resource :=
  all.find? fun r => r.label = s

/-- The topic that changes of a resource are announced under. -/
def topic : Resource → Topic
  | users => .user
  | groups => .group
  | oauthClients => .oauthClient
  | oauthClientUsers => .user
  | oauthClientGroups => .group
  | oauthScopes => .oauthScope
  | oauthScopeNames => .oauthScope
  | oauthPolicies => .oauthPolicy
  | oauthPolicyInfos => .oauthPolicy
  | passkeys => .passkey
  | settings => .settings
  | apods => .apod
  | apodImage => .apod

/-- The path a resource is read at. -/
def path : Resource → String
  | users => "/management/user/list"
  | groups => "/management/group/list"
  | oauthClients => "/management/oauth_client/list"
  | oauthClientUsers => "/management/oauth_client/user_list"
  | oauthClientGroups => "/management/oauth_client/group_list"
  | oauthScopes => "/management/oauth_scope/list"
  | oauthScopeNames => "/management/oauth_client/list_scopes"
  | oauthPolicies => "/management/oauth_policy/list"
  | oauthPolicyInfos => "/management/oauth_scope/policy_list"
  | passkeys => "/auth/passkey/list"
  | settings => "/account/settings/get"
  | apods => "/services/apod/list"
  | apodImage => "/services/apod/get_image"

/-- The type of what is read for a resource. -/
abbrev Carrier : Resource → Type
  | users => List Wire.User
  | groups => List Wire.Group
  | oauthClients => List Wire.OAuthClientInfo
  | oauthClientUsers => List Wire.BasicInfo
  | oauthClientGroups => List Wire.BasicInfo
  | oauthScopes => List Wire.OAuthScope
  | oauthScopeNames => List String
  | oauthPolicies => List Wire.OAuthPolicy
  | oauthPolicyInfos => List Wire.BasicInfo
  | passkeys => List Wire.Passkey
  | settings => Wire.Settings
  | apods => List Wire.ApodInfo
  | apodImage => Wire.Apod

/-- The codec of what is read for a resource. -/
def codec : (r : Resource) → Wire.Codec r.Carrier
  | users => .list Wire.User.codec
  | groups => .list Wire.Group.codec
  | oauthClients => .list Wire.OAuthClientInfo.codec
  | oauthClientUsers => .list Wire.BasicInfo.codec
  | oauthClientGroups => .list Wire.BasicInfo.codec
  | oauthScopes => .list Wire.OAuthScope.codec
  | oauthScopeNames => .list .string
  | oauthPolicies => .list Wire.OAuthPolicy.codec
  | oauthPolicyInfos => .list Wire.BasicInfo.codec
  | passkeys => .list Wire.Passkey.codec
  | settings => Wire.Settings.codec
  | apods => .list Wire.ApodInfo.codec
  | apodImage => Wire.Apod.codec

/-- Something read for a resource. -/
structure Value where
  resource : Resource
  value : resource.Carrier

/-- The JSON value of something read. -/
def Value.json (v : Value) : Json :=
  v.resource.codec.encode v.value

theorem mem_all (r : Resource) : r ∈ all := by
  cases r <;> decide

theorem label_injective {r s : Resource} (h : r.label = s.label) : r = s := by
  revert h
  cases r <;> cases s <;> decide

theorem ofLabel?_label (r : Resource) : ofLabel? r.label = some r := by
  cases r <;> decide

end Resource

end LiveFeed
