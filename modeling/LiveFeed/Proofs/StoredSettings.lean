import LiveFeed.Proofs.StoredData

/-!
# Stored settings

A value is checked when it is set and checked and read when it is loaded.  The two agree: what passes
the check can be read, whoever wrote it.

* `ClientSettings.Overlays`: the settings that a table stands for;
* `ClientSettings.load_eq_ok_iff`, `ClientSettings.loads_iff`: when loading succeeds, and with what;
* `Config.perform_set`: what setting a value does;
* `Database.get?_run`: what is stored after any operations;
* `Database.settings_follow_changes`: all of this, for every table and every history of an empty one.
-/

namespace LiveFeed

theorem bind_eq_ok_iff {ε α β : Type} {x : Except ε α} {f : α → Except ε β} {b : β} :
    (x >>= f) = .ok b ↔ ∃ a, x = .ok a ∧ f a = .ok b := by
  cases x with
  | error e => exact ⟨nofun, fun ⟨_, h, _⟩ => nomatch h⟩
  | ok a => exact ⟨fun h => ⟨a, rfl, h⟩, fun ⟨_, rfl, h⟩ => h⟩

theorem map_eq_ok_iff {ε α β : Type} {x : Except ε α} {f : α → β} {b : β} :
    x.map f = .ok b ↔ ∃ a, x = .ok a ∧ f a = b := by
  cases x with
  | error e => exact ⟨nofun, fun ⟨_, h, _⟩ => nomatch h⟩
  | ok a => simp [Except.map]

namespace Config

/-- The values that a setting takes. -/
def Accepts (key : Key) (value : String) : Prop :=
  validate key value = .ok ()

theorem readWhole_eq_ok_iff {key : Key} {limit n : Nat} {value : String} :
    readWhole key limit value = .ok n ↔ Text.whole limit value = .ok n := by
  rw [readWhole]
  cases Text.whole limit value with
  | ok m => exact Iff.of_eq (by rw [Except.ok.injEq, Except.ok.injEq])
  | error e => simp

theorem readBackend_eq_ok_iff {u : Url} {value : String} :
    readBackend value = .ok u ↔ Url.read value = .ok u := by
  rw [readBackend]
  cases Url.read value with
  | ok v => simp
  | error e => simp

/-- A time passes its check if it is a whole number and not zero. -/
theorem checkTime_eq_ok_iff {key : Key} {value : String} :
    checkTime key value = .ok () ↔ ∃ n, Text.whole timeLimit value = .ok n ∧ n ≠ 0 := by
  simp only [checkTime, bind_eq_ok_iff, readWhole_eq_ok_iff]
  refine exists_congr fun n => and_congr_right fun _ => ?_
  split
  · next h => simp [h]
  · next h => exact iff_of_true rfl h

theorem accepts_backendUrl {value : String} :
    Accepts .backendUrl value ↔ ∃ u, Url.read value = .ok u := by
  simp only [Accepts, validate, map_eq_ok_iff, readBackend_eq_ok_iff, and_true]

theorem accepts_maxReconnectAttempts {value : String} :
    Accepts .maxReconnectAttempts value ↔ ∃ n, Text.whole attemptLimit value = .ok n := by
  simp only [Accepts, validate, map_eq_ok_iff, readWhole_eq_ok_iff, and_true]

end Config

/-! ## Loading -/

/-- What a row stands for: the default if there is no row, else what its text reads as. -/
def Stands {α : Type} (row : Option String) (default : α) (Reads : String → α → Prop) (a : α) :
    Prop :=
  match row with
  | none => a = default
  | some text => Reads text a

theorem exists_stands {α : Type} {row : Option String} {default : α} {Reads : String → α → Prop} :
    (∃ a, Stands row default Reads a) ↔ ∀ text, row = some text → ∃ a, Reads text a := by
  cases row with
  | none => exact iff_of_true ⟨default, rfl⟩ nofun
  | some text => exact ⟨fun h _ htext => Option.some.inj htext ▸ h, fun h => h text rfl⟩

namespace ClientSettings

open Config

/-- The text of a time, in units of so many milliseconds. -/
def ReadsTime (unit : Nat) (text : String) (time : Nat) : Prop :=
  ∃ n, Text.whole timeLimit text = .ok n ∧ n ≠ 0 ∧ time = n * unit

/-- The text of a number of attempts, where none at all means no limit to them. -/
def ReadsLimit (text : String) (limit : Option Nat) : Prop :=
  ∃ n, Text.whole attemptLimit text = .ok n ∧ limit = if n = 0 then none else some n

/-- The settings are the defaults with what a table holds over them. -/
structure Overlays (t : Table) (s : ClientSettings) : Prop where
  backend : Stands (t.get? Key.backendUrl.name) defaultBackendUrl
    (fun text u => Url.read text = .ok u) s.backend
  heartbeat : Stands (t.get? Key.heartbeatSecs.name) 10000 (ReadsTime 1000) s.link.heartbeat
  pause : Stands (t.get? Key.reconnectDelayMs.name) 1000 (ReadsTime 1) s.link.pause
  limit : Stands (t.get? Key.maxReconnectAttempts.name) none ReadsLimit s.link.limit

-- The default address is written out in its parts; they are what its text reads as.
example : Url.read defaultBackend = .ok defaultBackendUrl := rfl

theorem storedBackend_iff {t : Table} {default u : Url} :
    (∃ r, storedBackend t = .ok r ∧ r.getD default = u) ↔
      Stands (t.get? Key.backendUrl.name) default (fun text u => Url.read text = .ok u) u := by
  simp only [storedBackend, Stands]
  cases t.get? Key.backendUrl.name with
  | none => simp [eq_comm]
  | some text =>
      simp only [map_eq_ok_iff, readBackend_eq_ok_iff]
      constructor
      · rintro ⟨r, ⟨v, hv, rfl⟩, rfl⟩
        exact hv
      · exact fun hu => ⟨some u, ⟨u, hu, rfl⟩, rfl⟩

theorem storedWhole_of_no_row {t : Table} {key : Key} {limit : Nat}
    (hrow : t.get? key.name = none) : storedWhole t key limit = .ok none := by
  rw [storedWhole, hrow]

/-- A row that passes its check and still cannot be read fails as well. -/
theorem storedWhole_of_row {t : Table} {key : Key} {limit : Nat} {r : Option Nat} {text : String}
    (hrow : t.get? key.name = some text) :
    storedWhole t key limit = .ok r ↔
      Accepts key text ∧ ∃ n, Text.whole limit text = .ok n ∧ r = some n := by
  simp only [storedWhole, hrow, bind_eq_ok_iff, Accepts]
  constructor
  · rintro ⟨_, haccepts, hread⟩
    refine ⟨haccepts, ?_⟩
    cases hwhole : Text.whole limit text with
    | ok n =>
        rw [hwhole] at hread
        cases hread
        exact ⟨n, rfl, rfl⟩
    | error e =>
        rw [hwhole] at hread
        cases hread
  · rintro ⟨haccepts, n, hwhole, rfl⟩
    refine ⟨(), haccepts, ?_⟩
    rw [hwhole]
    rfl

/-- A time that passes its check is read, so no time is refused for being unreadable. -/
theorem storedTime_iff {t : Table} {key : Key} (hkey : validate key = checkTime key)
    {unit default time : Nat} :
    (∃ r, storedWhole t key timeLimit = .ok r ∧ (r.map (· * unit)).getD default = time) ↔
      Stands (t.get? key.name) default (ReadsTime unit) time := by
  rcases hrow : t.get? key.name with _ | text
  · simp [storedWhole_of_no_row hrow, Stands, eq_comm]
  · simp only [storedWhole_of_row hrow, Stands, Accepts, hkey, checkTime_eq_ok_iff, ReadsTime]
    constructor
    · rintro ⟨r, ⟨⟨m, hm, hpositive⟩, n, hn, rfl⟩, rfl⟩
      obtain rfl : m = n := Except.ok.inj (hm.symm.trans hn)
      exact ⟨m, hm, hpositive, rfl⟩
    · rintro ⟨n, hn, hpositive, rfl⟩
      exact ⟨some n, ⟨⟨n, hn, hpositive⟩, n, hn, rfl⟩, rfl⟩

/-- The limit that a stored number means. -/
def limitOf (r : Option Nat) : Option Nat :=
  match r with
  | some n => if n = 0 then none else some n
  | none => none

theorem storedLimit_iff {t : Table} {limit : Option Nat} :
    (∃ r, storedWhole t .maxReconnectAttempts attemptLimit = .ok r ∧ limitOf r = limit) ↔
      Stands (t.get? Key.maxReconnectAttempts.name) none ReadsLimit limit := by
  rcases hrow : t.get? Key.maxReconnectAttempts.name with _ | text
  · simp [storedWhole_of_no_row hrow, Stands, limitOf, eq_comm]
  · simp only [storedWhole_of_row hrow, Stands, accepts_maxReconnectAttempts, ReadsLimit]
    constructor
    · rintro ⟨r, ⟨-, n, hn, rfl⟩, rfl⟩
      exact ⟨n, hn, rfl⟩
    · rintro ⟨n, hn, rfl⟩
      exact ⟨some n, ⟨⟨n, hn⟩, n, hn, rfl⟩, rfl⟩

/-- Loading succeeds with the settings that the table stands for, and only with these. -/
theorem load_eq_ok_iff {t : Table} {s : ClientSettings} : load t = .ok s ↔ Overlays t s := by
  have htime : ∀ r : Option Nat, (r.map (· * 1)).getD 1000 = r.getD 1000 := by simp
  simp only [load, bind_eq_ok_iff]
  constructor
  · rintro ⟨b, hb, h, hh, p, hp, l, hl, hs⟩
    cases hs
    exact ⟨storedBackend_iff.1 ⟨b, hb, rfl⟩, (storedTime_iff rfl).1 ⟨h, hh, rfl⟩,
      (storedTime_iff rfl).1 ⟨p, hp, htime p⟩, storedLimit_iff.1 ⟨l, hl, rfl⟩⟩
  · rintro ⟨hbackend, hheartbeat, hpause, hlimit⟩
    obtain ⟨b, hb, hbackend⟩ := storedBackend_iff.2 hbackend
    obtain ⟨h, hh, hheartbeat⟩ := (storedTime_iff rfl).2 hheartbeat
    obtain ⟨p, hp, hpause⟩ := (storedTime_iff rfl).2 hpause
    obtain ⟨l, hl, hlimit⟩ := storedLimit_iff.2 hlimit
    rw [htime] at hpause
    refine ⟨b, hb, h, hh, p, hp, l, hl, congrArg Except.ok ?_⟩
    obtain ⟨backend, heartbeat, pause, limit⟩ := s
    cases hbackend
    cases hheartbeat
    cases hpause
    cases hlimit
    rfl

theorem exists_readsTime {key : Key} (hkey : validate key = checkTime key) {unit : Nat}
    {text : String} : (∃ time, ReadsTime unit text time) ↔ Accepts key text := by
  rw [Accepts, hkey, checkTime_eq_ok_iff]
  constructor
  · rintro ⟨time, n, hn, hpositive, -⟩
    exact ⟨n, hn, hpositive⟩
  · rintro ⟨n, hn, hpositive⟩
    exact ⟨n * unit, n, hn, hpositive, rfl⟩

theorem exists_readsLimit {text : String} :
    (∃ limit, ReadsLimit text limit) ↔ Accepts .maxReconnectAttempts text := by
  rw [accepts_maxReconnectAttempts]
  constructor
  · rintro ⟨limit, n, hn, -⟩
    exact ⟨n, hn⟩
  · rintro ⟨n, hn⟩
    exact ⟨_, n, hn, rfl⟩

/-- Loading succeeds as long as every row of a setting passes the check of this setting. -/
theorem loads_iff {t : Table} :
    (∃ s, load t = .ok s) ↔ ∀ key text, t.get? key.name = some text → Accepts key text := by
  simp only [load_eq_ok_iff]
  constructor
  · rintro ⟨s, hbackend, hheartbeat, hpause, hlimit⟩ key text hrow
    cases key with
    | backendUrl => exact accepts_backendUrl.2 (exists_stands.1 ⟨_, hbackend⟩ text hrow)
    | heartbeatSecs => exact (exists_readsTime rfl).1 (exists_stands.1 ⟨_, hheartbeat⟩ text hrow)
    | reconnectDelayMs => exact (exists_readsTime rfl).1 (exists_stands.1 ⟨_, hpause⟩ text hrow)
    | maxReconnectAttempts => exact exists_readsLimit.1 (exists_stands.1 ⟨_, hlimit⟩ text hrow)
  · intro h
    obtain ⟨backend, hbackend⟩ := exists_stands.2 fun text hrow => accepts_backendUrl.1 (h _ text hrow)
    obtain ⟨heartbeat, hheartbeat⟩ :=
      exists_stands.2 fun text hrow => (exists_readsTime rfl).2 (h .heartbeatSecs text hrow)
    obtain ⟨pause, hpause⟩ :=
      exists_stands.2 fun text hrow => (exists_readsTime rfl).2 (h .reconnectDelayMs text hrow)
    obtain ⟨limit, hlimit⟩ := exists_stands.2 fun text hrow => exists_readsLimit.2 (h _ text hrow)
    exact ⟨⟨backend, heartbeat, pause, limit⟩, hbackend, hheartbeat, hpause, hlimit⟩

end ClientSettings

/-! ## Setting -/

namespace Config

/-- Under the name of a setting, a value is checked as one of this setting. -/
theorem check_name (key : Key) (value : String) : check key.name value = validate key value := by
  have hname : Key.ofName? key.name = some key := by
    cases key with
    | _ => decide
  rw [check, hname]

/-- A value that passes its check is stored as it is; any other changes nothing. -/
theorem perform_set (t : Table) (name value : String) :
    perform t (.set name value) =
      match check name value with
      | .ok () => (.done, t.put name value)
      | .error f => (.failed f, t) := by
  rw [perform, set]
  cases check name value with
  | ok _ => rfl
  | error f => rfl

end Config

/-! ## Histories -/

namespace Database

/-- An operation that stores a value under a name of the settings: a successful one, if it is checked. -/
def Operation.Stores (name value : String) : Operation → Prop
  | .config (.set k v) => k = name ∧ v = value ∧ Config.check k v = .ok ()
  | .config (.write k v) => k = name ∧ v = value
  | _ => False

/-- An operation after which nothing older is stored under a name of the settings. -/
def Operation.Settles (name : String) : Operation → Prop
  | .config (.set k v) => k = name ∧ Config.check k v = .ok ()
  | .config (.write k _) => k = name
  | .config (.unset k) => k = name
  | _ => False

theorem get?_put_eq_some_iff {t : Table} {k v name value : String} :
    (t.put k v).get? name = some value ↔
      (k = name ∧ v = value) ∨ (¬ k = name ∧ t.get? name = some value) := by
  rw [Table.get?_put]
  by_cases h : k = name
  · simp [h]
  · simp [h, Ne.symm h]

/-- What is stored after one operation: what it stores, or what it leaves. -/
theorem get?_perform {db : Database} {op : Operation} {name value : String} :
    (db.perform op).2.config.get? name = some value ↔
      op.Stores name value ∨ (¬ op.Settles name ∧ db.config.get? name = some value) := by
  rcases op with op | op | path
  · cases op with
    | set k v =>
        simp only [perform, Config.perform_set, Operation.Stores, Operation.Settles]
        rcases h : Config.check k v with f | _
        · simp
        · simp [get?_put_eq_some_iff]
    | write k v => exact get?_put_eq_some_iff
    | unset k =>
        simp only [perform, Config.perform, Config.unset, Table.get?_erase, Operation.Stores,
          Operation.Settles]
        by_cases hk : name = k
        · simp [hk]
        · simp [hk, eq_comm]
    | get k => simp [perform, Config.perform, Operation.Stores, Operation.Settles]
    | load => simp [perform, Config.perform, Operation.Stores, Operation.Settles]
  · simp [perform, perform_vault_config, Operation.Stores, Operation.Settles]
  · simp [perform_reopen, Operation.Stores, Operation.Settles]

/-- Some operation stored a value under a name, and none after it settled what is stored there. -/
def LastStored (ops : List Operation) (name value : String) : Prop :=
  ∃ before op after, ops = before ++ op :: after ∧ op.Stores name value ∧
    ∀ op' ∈ after, ¬ op'.Settles name

theorem lastStored_cons {op : Operation} {ops : List Operation} {name value : String} :
    LastStored (op :: ops) name value ↔
      LastStored ops name value ∨ (op.Stores name value ∧ ∀ op' ∈ ops, ¬ op'.Settles name) := by
  constructor
  · rintro ⟨before, op', after, hops, hstores, hafter⟩
    rcases before with _ | ⟨first, before⟩
    · obtain ⟨rfl, rfl⟩ := List.cons.inj hops
      exact .inr ⟨hstores, hafter⟩
    · exact .inl ⟨before, op', after, (List.cons.inj hops).2, hstores, hafter⟩
  · rintro (⟨before, op', after, rfl, hstores, hafter⟩ | ⟨hstores, hafter⟩)
    · exact ⟨op :: before, op', after, rfl, hstores, hafter⟩
    · exact ⟨[], op, ops, rfl, hstores, hafter⟩

/-- What is stored after some operations: what was stored last, or what was there before and nothing
settled. -/
theorem get?_run {db : Database} {ops : List Operation} {name value : String} :
    (db.run ops).2.config.get? name = some value ↔
      LastStored ops name value ∨
        ((∀ op ∈ ops, ¬ op.Settles name) ∧ db.config.get? name = some value) := by
  induction ops generalizing db with
  | nil => simp [run, Answer.run, LastStored]
  | cons op ops ih =>
      have hrun : (db.run (op :: ops)).2 = ((db.perform op).2.run ops).2 := rfl
      rw [hrun, ih, get?_perform, lastStored_cons, List.forall_mem_cons, and_or_left, ← or_assoc,
        and_comm (a := op.Stores name value), ← and_assoc, and_comm (a := ¬ op.Settles name)]

theorem get?_run_empty {ops : List Operation} {name value : String} :
    (empty.run ops).2.config.get? name = some value ↔ LastStored ops name value := by
  rw [get?_run, or_iff_left]
  rintro ⟨-, h⟩
  cases h

/-- As long as nobody else writes rows, what is stored can be loaded. -/
theorem loads_run_empty (ops : List Operation) :
    (∃ s, ClientSettings.load (empty.run ops).2.config = .ok s) ∨
      ∃ name value, Operation.config (.write name value) ∈ ops := by
  refine Classical.or_iff_not_imp_right.2 fun hwrite => ?_
  refine ClientSettings.loads_iff.2 fun key text hrow => ?_
  obtain ⟨before, op, after, rfl, hstores, -⟩ := get?_run_empty.1 hrow
  rcases op with op | _ | _
  · cases op with
    | set k v =>
        obtain ⟨rfl, rfl, hcheck⟩ := hstores
        rwa [Config.check_name] at hcheck
    | write k v => exact absurd ⟨k, v, by simp⟩ hwrite
    | _ => exact hstores.elim
  · exact hstores.elim
  · exact hstores.elim

/-- Setting and loading agree.  A table is loaded if each row of a setting passes the check that
setting it makes, and then as the defaults with the rows over them; a value that passes is stored, and
any other changes nothing.  So after any history of an empty database each setting is what was last
stored and not forgotten, and unless somebody else wrote a row it can be loaded. -/
theorem settings_follow_changes (t : Table) (ops : List Operation) :
    ((∃ s, ClientSettings.load t = .ok s) ↔
      ∀ (key : Config.Key) text, t.get? key.name = some text → Config.check key.name text = .ok ()) ∧
    (∀ s, ClientSettings.load t = .ok s ↔ ClientSettings.Overlays t s) ∧
    (∀ name value, Config.perform t (.set name value) =
      match Config.check name value with
      | .ok () => (.done, t.put name value)
      | .error f => (.failed f, t)) ∧
    (∀ name value k, (t.put name value).get? k = if k = name then some value else t.get? k) ∧
    (∀ name value, (empty.run ops).2.config.get? name = some value ↔ LastStored ops name value) ∧
    ((∃ s, ClientSettings.load (empty.run ops).2.config = .ok s) ∨
      ∃ name value, Operation.config (.write name value) ∈ ops) := by
  refine ⟨?_, fun s => ClientSettings.load_eq_ok_iff, Config.perform_set t, t.get?_put,
    fun name value => get?_run_empty, loads_run_empty ops⟩
  simp only [Config.check_name]
  exact ClientSettings.loads_iff

end Database

end LiveFeed
