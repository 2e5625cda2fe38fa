import LiveFeed.Vault

/-!
# Operations on the stored data

Settings and tokens share one database.  Everything that can be done with either is an operation that
comes to an answer and leaves the database as it is from then on; one that fails leaves it as it was.

* `Config.perform`, `Vault.perform`: the operations on settings and on tokens;
* `Database.perform`: both on one database, which may be closed and opened in between;
* `Answer.run`, `Database.run`: operations one after the other.
-/

namespace LiveFeed

/-- What an operation comes to. -/
inductive Answer where
  | done
  | text (value : Option String)
  | credential (value : Option Credential)
  | settings (value : ClientSettings)
  | failed (failure : Failure)

/-- The answer to a change and the state after it: a change that fails changes nothing. -/
def Answer.ofChange {σ : Type} (before : σ) : Except Failure σ → Answer × σ
  | .ok after => (.done, after)
  | .error f => (.failed f, before)

/-- The answer to a question. -/
def Answer.ofQuestion {α : Type} (make : α → Answer) : Except Failure α → Answer
  | .ok a => make a
  | .error f => .failed f

/-- The answers to some operations, one after the other, and the state after them. -/
def Answer.run {σ ο : Type} (step : σ → ο → Answer × σ) : σ → List ο → List Answer × σ
  | s, [] => ([], s)
  | s, operation :: operations =>
    let (answer, s) := step s operation
    let (answers, s) := Answer.run step s operations
    (answer :: answers, s)

/-! ## Settings -/

/-- What can be done with the stored settings. -/
inductive Config.Operation where
  | get (name : String)
  | set (name value : String)
  | unset (name : String)
  | load
  /-- Somebody else writes a row, which nobody checks. -/
  | write (name value : String)

/-- Does something with the stored settings. -/
def Config.perform (t : Table) : Config.Operation → Answer × Table
  | .get name => (.text (t.get? name), t)
  | .set name value => Answer.ofChange t (Config.set t name value)
  | .unset name => (.done, Config.unset t name)
  | .load => (.ofQuestion .settings (ClientSettings.load t), t)
  | .write name value => (.done, t.put name value)

/-! ## Tokens -/

/-- What can be done with the stored tokens. -/
inductive Vault.Operation where
  | get (name : String)
  | set (name : String) (credential : Credential)
  | remove (name : String)
  /-- The token under a name, with what the environment holds. -/
  | token (name : String) (env : Option String)
  | login (url : Url) (token : String)
  | logout (url : Url)
  | resolve (url : Url) (env : Option String)
  /-- Somebody else writes a row. -/
  | write (name data : String)

/-- Does something with the stored tokens. -/
def Vault.perform (db : Database) : Vault.Operation → Answer × Database
  | .get name => (.ofQuestion .credential (Vault.get db name), db)
  | .set name c => (.done, Vault.set db name c)
  | .remove name => (.done, Vault.remove db name)
  | .token name env => (.ofQuestion .text (Vault.token db name env), db)
  | .login u token => Answer.ofChange db (Vault.login (.present db) u token)
  | .logout u => Answer.ofChange db (Vault.logout (.present db) u)
  | .resolve u env => (.ofQuestion .text (Vault.resolve (.present db) u env), db)
  | .write name data => (.done, { db with credentials := db.credentials.put name data })

/-! ## Both -/

namespace Database

/-- What can be done with the stored data. -/
inductive Operation where
  | config (operation : Config.Operation)
  | vault (operation : Vault.Operation)
  /-- The data is closed in a file and opened again. -/
  | reopen (path : String)

/-- Where the stored data is after it was closed in a file. -/
def closed (db : Database) (path : String) : Vault.Location :=
  match read? db.write with
  | some db => .present db
  | none => .missing path

/-- Opens what is in a place, for the settings and for the tokens. -/
def opened (place : Vault.Location) : Except Failure Database := do
  let _ ← place.settings
  place.tokens

/-- Does something with the stored data. -/
def perform (db : Database) : Operation → Answer × Database
  | .config operation =>
    let (answer, config) := Config.perform db.config operation
    (answer, { db with config := config })
  | .vault operation => Vault.perform db operation
  | .reopen path => Answer.ofChange db (opened (db.closed path))

/-- The answers to some operations on the stored data, and the data after them. -/
def run (db : Database) (operations : List Operation) : List Answer × Database :=
  Answer.run perform db operations

end Database

end LiveFeed
