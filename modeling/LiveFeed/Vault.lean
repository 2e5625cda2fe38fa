import LiveFeed.Address
import LiveFeed.Config
import LiveFeed.Database
import LiveFeed.Wire.Kind

/-!
# Stored tokens

Session tokens are kept in the database, one per origin, beside the configuration.  A stored token
wins over one from the environment.

* `Vault.get`, `Vault.set`, `Vault.remove`: a credential under a name;
* `Vault.login`, `Vault.logout`, `Vault.resolve`: the operations that take an address.
-/

namespace LiveFeed

namespace Vault

/-- The variable of the environment that may hold a token. -/
def tokenVariable : String := "POSITRON_TOKEN"

/-- The credential filed under a name. -/
def get (db : Database) (name : String) : Except Failure (Option Credential) :=
  match db.credentials.get? name with
  | none => .ok none
  | some text =>
    match Wire.Kind.credential.read? text with
    | some c => .ok (some c)
    | none => .error .undecodable

/-- Files a credential under a name. -/
def set (db : Database) (name : String) (c : Credential) : Database :=
  { db with credentials := db.credentials.put name (Wire.Kind.credential.write c) }

/-- Forgets the credential under a name. -/
def remove (db : Database) (name : String) : Database :=
  { db with credentials := db.credentials.erase name }

/-- The token from the environment; an empty one is none. -/
def environmentToken (env : Option String) : Option String :=
  env.filter (!·.isEmpty)

/-- The token under a name: the stored one, or else the one from the environment. -/
def token (db : Database) (name : String) (env : Option String) :
    Except Failure (Option String) := do
  match ← get db name with
  | some c => pure (some c.token)
  | none => pure (environmentToken env)

/-- Where the stored data is: at hand, or in a place that cannot be opened. -/
inductive Location where
  | present (db : Database)
  | missing (path : String)

/-- Opens the table of tokens. -/
def Location.tokens : Location → Except Failure Database
  | .present db => .ok db
  | .missing path => .error (.database "failed to open token storage" path)

/-- Opens the table of settings. -/
def Location.settings : Location → Except Failure Database
  | .present db => .ok db
  | .missing path => .error (.database "failed to open config database" path)

/-- Keeps a token for an address; blanks around it are dropped. -/
def login (place : Location) (u : Url) (token : String) : Except Failure Database := do
  let token := Text.trim token
  if token.isEmpty then .error .noToken
  else
    let db ← place.tokens
    pure (set db (originKey u) (.bearer token))

/-- Forgets the token for an address. -/
def logout (place : Location) (u : Url) : Except Failure Database := do
  let db ← place.tokens
  pure (remove db (originKey u))

/-- The token for an address. -/
def resolve (place : Location) (u : Url) (env : Option String) : Except Failure (Option String) := do
  let db ← place.tokens
  token db (originKey u) env

end Vault

end LiveFeed
