import LiveFeed.Proofs.JsonText
import LiveFeed.Storage

/-!
# Stored data read back

Credentials and whole databases are kept as JSON text.  What was written is what is read, so closing
the data and opening it again changes nothing.

* `Credential.read?_write`: a credential, whatever its token holds;
* `Database.read?_write`: a database;
* `Database.perform_reopen`: closing and opening;
* `Database.perform_failed`: what fails changes nothing.
-/

namespace LiveFeed

namespace Credential

theorem ofJson?_toJson (c : Credential) : ofJson? (toJson c) = some c := by
  cases c with
  | bearer token => rfl

/-- A credential is read from its text as it was. -/
theorem read?_write (c : Credential) :
    Wire.Kind.credential.read? (Wire.Kind.credential.write c) = some c := by
  rw [Wire.Kind.read?, Wire.Kind.write, Json.read?_compact]
  exact ofJson?_toJson c

end Credential

namespace Table

/-- Putting a row in front of rows that lack its key adds just that row. -/
theorem put_of_not_mem (t : Table) {key : String} (h : key ∉ t.rows.map (·.1)) (value : String) :
    (t.put key value).rows = (key, value) :: t.rows := by
  have hrest : t.rows.filter (fun r => r.1 ≠ key) = t.rows := by
    refine List.filter_eq_self.2 ?_
    intro r hr
    have hne : r.1 ≠ key := fun heq => h (heq ▸ List.mem_map_of_mem hr)
    simpa using hne
  exact congrArg ((key, value) :: ·) hrest

end Table

namespace Database

/-- The rows of a table, as they are written, are read as a table with these rows. -/
theorem decodeTable?_rows (rows : List (String × String)) (h : (rows.map (·.1)).Nodup) :
    ∃ t, decodeTable? (Json.record (rows.map fun r => (r.1, Json.text r.2))) = some t ∧
      t.rows = rows := by
  induction rows with
  | nil => exact ⟨.empty, rfl, rfl⟩
  | cons r rows ih =>
      rw [List.map_cons, List.nodup_cons] at h
      rcases ih h.2 with ⟨t, ht, hrows⟩
      refine ⟨t.put r.1 r.2, ?_, ?_⟩
      · simp only [Json.record, decodeTable?, List.map_cons, List.foldrM_cons] at ht ⊢
        rw [ht]
        rfl
      · rw [t.put_of_not_mem (hrows ▸ h.1), hrows]

theorem decodeTable?_encodeTable (t : Table) : decodeTable? (encodeTable t) = some t := by
  rcases decodeTable?_rows t.rows t.keys_nodup with ⟨t', ht', hrows⟩
  obtain ⟨rows, nodup⟩ := t
  obtain ⟨rows', nodup'⟩ := t'
  obtain rfl : rows' = rows := hrows
  exact ht'

/-- A database is read from its text as it was. -/
theorem read?_write (db : Database) : read? db.write = some db := by
  rw [read?, write, Json.read?_compact]
  simp only [Json.record, List.map_cons, List.map_nil]
  rw [decodeTable?_encodeTable, decodeTable?_encodeTable]
  rfl

theorem closed_eq (db : Database) (path : String) : db.closed path = .present db := by
  rw [closed, read?_write]

/-- Closing the data and opening it again changes nothing. -/
theorem perform_reopen (db : Database) (path : String) : db.perform (.reopen path) = (.done, db) := by
  rw [perform, closed_eq]
  rfl

theorem login_present (db : Database) (u : Url) (t : String) :
    Vault.login (.present db) u t =
      if Text.trim t = "" then .error .noToken
      else .ok (Vault.set db (originKey u) (.bearer (Text.trim t))) := by
  simp only [Vault.login, String.isEmpty_iff]
  rfl

/-- Operations on tokens leave the settings alone. -/
theorem perform_vault_config (db : Database) (op : Vault.Operation) :
    (Vault.perform db op).2.config = db.config := by
  cases op with
  | login u t =>
      rw [Vault.perform, login_present]
      split
      · rfl
      · rfl
  | _ => rfl

theorem ofChange_failed {σ : Type} {before : σ} {r : Except Failure σ} {f : Failure}
    (h : (Answer.ofChange before r).1 = .failed f) : (Answer.ofChange before r).2 = before := by
  cases r with
  | ok after => cases h
  | error g => rfl

/-- An operation that fails leaves the data as it was. -/
theorem perform_failed {db : Database} {op : Operation} {f : Failure}
    (h : (db.perform op).1 = .failed f) : (db.perform op).2 = db := by
  rcases op with op | op | path
  · have hconfig : (Config.perform db.config op).2 = db.config := by
      cases op with
      | set name value => exact ofChange_failed h
      | get | load => rfl
      | unset | write => cases h
    exact congrArg (fun t => { db with config := t }) hconfig
  · cases op with
    | login => exact ofChange_failed h
    | logout => exact ofChange_failed h
    | get | token | resolve => rfl
    | set | remove | write => cases h
  · exact ofChange_failed h

end Database

end LiveFeed
