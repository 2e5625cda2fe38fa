/-!
# Topics

A topic is a coarse class of change that the service announces over the update socket.  The set is
closed: `Topic.all` lists it in the order the service declares it, and a topic is written as its
name.

* `Topic.ofName?_name`: a name is read back as the topic it names;
* `Topic.ofName?_eq_some_iff`: nothing else is read as a topic.
-/

namespace LiveFeed

/-- A coarse class of change on the service. -/
inductive Topic where
  | passkey
  | user
  | group
  | oauthScope
  | oauthPolicy
  | oauthClient
  | apod
  | settings
  deriving DecidableEq, Repr

namespace Topic

/-- Every topic, in declaration order. -/
def all : List Topic :=
  [.passkey, .user, .group, .oauthScope, .oauthPolicy, .oauthClient, .apod, .settings]

/-- The name a topic goes by on the wire. -/
def name : Topic → String
  | .passkey => "Passkey"
  | .user => "User"
  | .group => "Group"
  | .oauthScope => "OAuthScope"
  | .oauthPolicy => "OAuthPolicy"
  | .oauthClient => "OAuthClient"
  | .apod => "Apod"
  | .settings => "Settings"

/-- The topic of a name; names are compared exactly. -/
def ofName? (s : String) : Option Topic :=
  all.find? fun t => t.name = s

theorem mem_all (t : Topic) : t ∈ all := by
  cases t <;> decide

theorem name_injective {s t : Topic} (h : s.name = t.name) : s = t := by
  revert h
  cases s <;> cases t <;> decide

theorem ofName?_eq_some_iff {s : String} {t : Topic} : ofName? s = some t ↔ s = t.name := by
  constructor
  · intro h
    have := List.find?_some h
    simpa using (of_decide_eq_true this).symm
  · rintro rfl
    cases t <;> decide

theorem ofName?_name (t : Topic) : ofName? t.name = some t :=
  ofName?_eq_some_iff.2 rfl

end Topic

end LiveFeed
