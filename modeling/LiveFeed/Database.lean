import LiveFeed.Json.Printer
import LiveFeed.Json.Reader
import LiveFeed.Table

/-!
# The stored data

Two tables that do not touch each other: the configuration, and the credentials by origin.

* `Database.write`, `Database.read?`: the stored data as the text of a file.
-/

namespace LiveFeed

/-- The stored data. -/
structure Database where
  config : Table
  credentials : Table

namespace Database

/-- The database before anything is stored. -/
def empty : Database := ⟨.empty, .empty⟩

/-- A table as a JSON object. -/
def encodeTable (t : Table) : Json :=
  Json.record (t.rows.map fun r => (r.1, Json.text r.2))

/-- The table of an object whose members are text. -/
def decodeTable? : Json → Option Table
  | .obj members =>
    members.foldrM (fun (m : Option String × Json) (t : Table) =>
      match m with
      | (some key, .str (some value)) => some (t.put key value)
      | _ => none) .empty
  | _ => none

/-- The stored data as text. -/
def write (db : Database) : String :=
  (Json.record [("config", encodeTable db.config),
    ("credentials", encodeTable db.credentials)]).compact

/-- The stored data of a text. -/
def read? (text : String) : Option Database :=
  match Json.read? text with
  | some (.obj [(some "config", c), (some "credentials", k)]) => do
    let config ← decodeTable? c
    let credentials ← decodeTable? k
    pure ⟨config, credentials⟩
  | _ => none

end Database

end LiveFeed
