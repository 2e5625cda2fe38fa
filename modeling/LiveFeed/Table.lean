/-!
# Tables

A table of text under text keys, one row per key.  `get?_put` and `get?_erase` say what an operation
does to every key.
-/

namespace LiveFeed

/-- Rows with distinct keys. -/
structure Table where
  rows : List (String × String)
  keys_nodup : (rows.map (·.1)).Nodup

namespace Table

/-- The table without rows. -/
def empty : Table := ⟨[], List.nodup_nil⟩

/-- The value under a key. -/
def get? (t : Table) (key : String) : Option String :=
  t.rows.lookup key

theorem erase_keys_nodup (t : Table) (key : String) :
    ((t.rows.filter fun r => r.1 ≠ key).map (·.1)).Nodup :=
  List.Nodup.sublist (List.Sublist.map _ List.filter_sublist) t.keys_nodup

/-- The table without a key. -/
def erase (t : Table) (key : String) : Table :=
  ⟨t.rows.filter fun r => r.1 ≠ key, t.erase_keys_nodup key⟩

/-- The table with a value under a key. -/
def put (t : Table) (key value : String) : Table :=
  ⟨(key, value) :: (t.erase key).rows, by
    rw [List.map_cons, List.nodup_cons]
    refine ⟨?_, (t.erase key).keys_nodup⟩
    simp [erase]⟩

theorem get?_put (t : Table) (key value k : String) :
    (t.put key value).get? k = if k = key then some value else t.get? k := by
  by_cases h : k = key
  · subst h
    simp [put, get?]
  · have hb : (k == key) = false := by simpa using h
    simp only [put, get?, erase, List.lookup_cons, hb, h, if_false]
    induction t.rows with
    | nil => rfl
    | cons r rest ih =>
      by_cases hr : r.1 = key
      · have hk : (k == r.1) = false := by
          rw [hr]
          exact hb
        rw [List.filter_cons_of_neg (by simpa using hr), ih, List.lookup_cons, hk]
      · rw [List.filter_cons_of_pos (by simpa using hr), List.lookup_cons, List.lookup_cons, ih]

theorem get?_erase (t : Table) (key k : String) :
    (t.erase key).get? k = if k = key then none else t.get? k := by
  by_cases h : k = key
  · subst h
    rw [if_pos rfl]
    simp only [erase, get?]
    induction t.rows with
    | nil => rfl
    | cons r rest ih =>
      by_cases hr : r.1 = k
      · rw [List.filter_cons_of_neg (by simpa using hr), ih]
      · have hk : (k == r.1) = false := by simpa using fun e => hr e.symm
        rw [List.filter_cons_of_pos (by simpa using hr), List.lookup_cons, hk, ih]
  · have := t.get?_put key "" k
    rw [if_neg h] at this
    have hb : (k == key) = false := by simpa using h
    simpa [put, get?, List.lookup_cons, hb, h] using this

end Table

end LiveFeed
