import LiveFeed.CommandLine.Run
import LiveFeed.Proofs.StoredSettings

/-!
# Repairing settings from the command line

A run of the program loads the stored settings before it looks at its command.  The two commands that
change a row have no use for the settings; still, where one row does not pass its check they fail like
every other command, and the row stays.

* `Config.Loads`: a table whose settings load, and which changes keep it so;
* `CommandLine.Leaves`, `CommandLine.exists_leaves_run`: what a run can make of the stored settings;
* `CommandLine.World.loads_after_iff`: no runs of the program make settings load that did not;
* `CommandLine.row_commands`: when the two commands change their row;
* `CommandLine.spoiled_row_stays`: a row that cannot be forgotten.
-/

namespace LiveFeed

/-! ## Settings that load -/

namespace Config

/-- The settings of a table load. -/
def Loads (t : Table) : Prop :=
  ∃ settings, ClientSettings.load t = .ok settings

variable {t : Table} {name value : String}

theorem Loads.put (h : Loads t) (hcheck : check name value = .ok ()) : Loads (t.put name value) := by
  refine ClientSettings.loads_iff.2 fun key text hrow => ?_
  rw [Table.get?_put] at hrow
  split at hrow
  · next hname =>
      cases hrow
      rwa [← hname, check_name] at hcheck
  · exact ClientSettings.loads_iff.1 h key text hrow

theorem Loads.erase (h : Loads t) (name : String) : Loads (t.erase name) := by
  refine ClientSettings.loads_iff.2 fun key text hrow => ?_
  rw [Table.get?_erase] at hrow
  split at hrow
  · cases hrow
  · exact ClientSettings.loads_iff.1 h key text hrow

theorem get?_foldl_unset (names : List String) (t : Table) (k : String) :
    (names.foldl unset t).get? k = if k ∈ names then none else t.get? k := by
  induction names generalizing t with
  | nil => rfl
  | cons name names ih =>
      rw [List.foldl_cons, ih, unset, Table.get?_erase]
      by_cases hrest : k ∈ names
      · simp [hrest]
      · simp [hrest]

/-- Whatever a table holds, its settings load once each of them is forgotten. -/
theorem loads_foldl_unset (t : Table) : Loads (Key.names.foldl unset t) := by
  refine ClientSettings.loads_iff.2 fun key text hrow => ?_
  have hname : key.name ∈ Key.names := by
    cases key with
    | _ => decide
  rw [get?_foldl_unset, if_pos hname] at hrow
  cases hrow

end Config

namespace CommandLine

/-! ## One run -/

/-- What a run can make of the stored settings: it leaves them, stores a row that passes its check, or
forgets a row. -/
inductive Leaves (t : Table) : Table → Prop where
  | same : Leaves t t
  | set {name value : String} (check : Config.check name value = .ok ()) : Leaves t (t.put name value)
  | unset (name : String) : Leaves t (t.erase name)

theorem Leaves.loads {t t' : Table} (h : Leaves t t') (hloads : Config.Loads t) :
    Config.Loads t' := by
  cases h with
  | same => exact hloads
  | set check => exact hloads.put check
  | unset name => exact hloads.erase name

theorem place_ask {α : Type} (w : World) (backend : Url) (attempt : String)
    (call : Client → Network → Outcome α × Network) (shown : α → String) :
    (ask w backend attempt call shown).2.place = w.place := by
  unfold ask
  split
  · rfl
  · rfl

theorem place_watch (w : World) (settings : ClientSettings) (named : List Resource)
    (date : Option String) (verbosity horizon : Nat) (interrupted : Bool) :
    (watch w settings named date verbosity horizon interrupted).2.place = w.place := by
  unfold watch
  split
  · rfl
  · rfl

theorem exists_leaves_perform (w : World) (db : Database) (backend : Url) (command : Command) :
    ∃ after, (perform (w.keep db) db backend command).2.place = .present after ∧
      Leaves db.config after.config := by
  cases command with
  | watch | showToken => exact ⟨db, rfl, .same⟩
  | accountInfo | instantConfirm | pictureInfo | ratePicture =>
      exact ⟨db, place_ask _ _ _ _ _, .same⟩
  | setToken token =>
      simp only [perform, World.keep, Database.login_present]
      split
      · exact ⟨db, rfl, .same⟩
      · exact ⟨_, rfl, .same⟩
  | clearToken => exact ⟨_, rfl, .same⟩
  | getConfig key =>
      cases key with
      | none => exact ⟨db, rfl, .same⟩
      | some key => exact ⟨db, rfl, .same⟩
  | setConfig key value =>
      -- The one command that stores a row, and it checks the row before.
      simp only [perform, Config.set]
      cases hcheck : Config.check key value with
      | error f => exact ⟨db, rfl, .same⟩
      | ok _ => exact ⟨_, rfl, .set hcheck⟩
  | unsetConfig key => exact ⟨_, rfl, .unset key⟩

/-- What a command works with: the settings that load, but for the base address if one is given. -/
def overridden (i : Invocation) (settings : ClientSettings) : ClientSettings :=
  { settings with backend := i.backend.getD settings.backend }

theorem settingsFor_keep (w : World) (db : Database) (i : Invocation) :
    settingsFor (w.keep db) i =
      (ClientSettings.load db.config).map fun settings => (db, overridden i settings) :=
  rfl

/-- Where the settings do not load, every command comes to nothing. -/
theorem invoke_of_unreadable {w : World} {db : Database} {f : Failure}
    (hload : ClientSettings.load db.config = .error f) (i : Invocation) (horizon : Nat)
    (interrupted : Bool) :
    invoke (w.keep db) i horizon interrupted = (ended (.error f), w.keep db) := by
  rw [invoke, settingsFor_keep, hload]
  rfl

theorem invoke_watch {w : World} {db : Database} {settings : ClientSettings}
    (hload : ClientSettings.load db.config = .ok settings) {i : Invocation} {named : List Resource}
    {date : Option String} (hcommand : i.command = .watch named date) (horizon : Nat)
    (interrupted : Bool) :
    (invoke (w.keep db) i horizon interrupted).2 =
      (watch (w.keep db) (overridden i settings) named date i.verbosity horizon interrupted).2 := by
  rw [invoke, settingsFor_keep, hload]
  simp only [Except.map, hcommand]
  split
  · next h => rw [h]
  · next h => rw [h]

theorem invoke_perform {w : World} {db : Database} {settings : ClientSettings}
    (hload : ClientSettings.load db.config = .ok settings) {i : Invocation}
    (hcommand : ∀ named date, i.command ≠ .watch named date) (horizon : Nat) (interrupted : Bool) :
    invoke (w.keep db) i horizon interrupted =
      (ended (perform (w.keep db) db (overridden i settings).backend i.command).1,
        (perform (w.keep db) db (overridden i settings).backend i.command).2) := by
  rw [invoke, settingsFor_keep, hload]
  -- `hcommand` rules out the one alternative that stands before the others.
  simp only [Except.map]

theorem exists_leaves_invoke (w : World) (db : Database) (i : Invocation) (horizon : Nat)
    (interrupted : Bool) :
    ∃ after, (invoke (w.keep db) i horizon interrupted).2.place = .present after ∧
      Leaves db.config after.config := by
  cases hload : ClientSettings.load db.config with
  | error f =>
      rw [invoke_of_unreadable hload]
      exact ⟨db, rfl, .same⟩
  | ok settings =>
      by_cases hwatch : ∃ named date, i.command = .watch named date
      · obtain ⟨named, date, hcommand⟩ := hwatch
        rw [invoke_watch hload hcommand, place_watch]
        exact ⟨db, rfl, .same⟩
      · rw [invoke_perform hload (by simpa using hwatch)]
        exact exists_leaves_perform w db _ i.command

/-- A run of the program leaves the stored settings, or changes one row so that it can be loaded. -/
theorem exists_leaves_run (w : World) (db : Database) (start : Start) (horizon : Nat)
    (interrupted : Bool) :
    ∃ after, (run (w.keep db) start horizon interrupted).2.place = .present after ∧
      Leaves db.config after.config := by
  cases start with
  | run i => exact exists_leaves_invoke w db i horizon interrupted
  | help | version | misuse => exact ⟨db, rfl, .same⟩

/-! ## Any runs -/

namespace World

/-- There is stored data, and its settings load. -/
def Loads (w : World) : Prop :=
  ∃ db, w.place = .present db ∧ Config.Loads db.config

theorem keep_of_place {w : World} {db : Database} (hplace : w.place = .present db) : w.keep db = w := by
  rw [keep, ← hplace]

theorem loads_keep {w : World} {db : Database} : (w.keep db).Loads ↔ Config.Loads db.config := by
  constructor
  · rintro ⟨db', hplace, hloads⟩
    cases hplace
    exact hloads
  · exact fun hloads => ⟨db, rfl, hloads⟩

end World

theorem loads_of_settingsFor {w : World} {i : Invocation} {db : Database} {settings : ClientSettings}
    (h : settingsFor w i = .ok (db, settings)) : w.Loads := by
  cases hplace : w.place with
  | missing path =>
      rw [settingsFor, hplace] at h
      cases h
  | present stored =>
      rw [← World.keep_of_place hplace, settingsFor_keep, map_eq_ok_iff] at h
      obtain ⟨loaded, hload, -⟩ := h
      exact ⟨stored, hplace, loaded, hload⟩

/-- Where no settings load, whatever is run leaves the world as it was. -/
theorem run_of_not_loads {w : World} (h : ¬ w.Loads) (start : Start) (horizon : Nat)
    (interrupted : Bool) : (run w start horizon interrupted).2 = w := by
  cases start with
  | run i =>
      show (invoke w i horizon interrupted).2 = w
      cases hsettings : settingsFor w i with
      | error f => rw [invoke, hsettings]
      | ok found => exact absurd (loads_of_settingsFor hsettings) h
  | help | version | misuse => rfl

theorem loads_run_iff (w : World) (start : Start) (horizon : Nat) (interrupted : Bool) :
    (run w start horizon interrupted).2.Loads ↔ w.Loads := by
  -- From settings that load a run keeps what makes them load; from others it keeps everything.
  by_cases hloads : w.Loads
  · obtain ⟨db, hplace, hdb⟩ := hloads
    obtain ⟨after, hafter, hleaves⟩ := exists_leaves_run w db start horizon interrupted
    rw [World.keep_of_place hplace] at hafter
    exact iff_of_true ⟨after, hafter, hleaves.loads hdb⟩ ⟨db, hplace, hdb⟩
  · rw [run_of_not_loads hloads]

/-- A run of the program: what it is started for, how far it looks ahead if it watches, and whether
somebody interrupts it then. -/
structure Use where
  start : Start
  horizon : Nat
  interrupted : Bool

/-- The world after some runs of the program, one after the other. -/
def World.after (w : World) (uses : List Use) : World :=
  uses.foldl (fun w u => (run w u.start u.horizon u.interrupted).2) w

/-- No runs of the program make settings load that did not, and none keep them from loading. -/
theorem World.loads_after_iff (w : World) (uses : List Use) : (w.after uses).Loads ↔ w.Loads := by
  induction uses generalizing w with
  | nil => exact Iff.rfl
  | cons u uses ih =>
      calc
        (w.after (u :: uses)).Loads
            ↔ ((run w u.start u.horizon u.interrupted).2.after uses).Loads := Iff.rfl
        _ ↔ (run w u.start u.horizon u.interrupted).2.Loads := ih _
        _ ↔ w.Loads := loads_run_iff w u.start u.horizon u.interrupted

/-! ## The commands that change a row -/

/-- A run that succeeds with a line: one row of the stored settings has changed, and nothing else. -/
structure Edits (w : World) (db : Database) (result : Transcript × World) (line name : String)
    (row : Option String) : Prop where
  transcript : result.1 = ⟨some 0, line, "", []⟩
  kept : ∃ t, result.2 = w.keep { db with config := t } ∧
    ∀ k, t.get? k = if k = name then row else db.config.get? k

/-- A command that changes its row where the settings load does so nowhere else. -/
theorem edits_iff {w : World} {db : Database} {i : Invocation} {horizon : Nat} {interrupted : Bool}
    {line name : String} {row : Option String} {t : Table}
    (hrun : ∀ settings, ClientSettings.load db.config = .ok settings →
      invoke (w.keep db) i horizon interrupted =
        (ended (.ok line), w.keep { db with config := t }))
    (hrow : ∀ k, t.get? k = if k = name then row else db.config.get? k) :
    Edits w db (invoke (w.keep db) i horizon interrupted) line name row ↔ Config.Loads db.config := by
  constructor
  · rintro ⟨htranscript, -⟩
    cases hload : ClientSettings.load db.config with
    | error f =>
        rw [invoke_of_unreadable hload] at htranscript
        cases htranscript
    | ok settings => exact ⟨settings, hload⟩
  · rintro ⟨settings, hload⟩
    rw [hrun settings hload]
    exact ⟨rfl, t, rfl, hrow⟩

theorem edits_unset_iff {w : World} {db : Database} {i : Invocation} {name : String}
    (hcommand : i.command = .unsetConfig name) (horizon : Nat) (interrupted : Bool) :
    Edits w db (invoke (w.keep db) i horizon interrupted) ("✓ " ++ name ++ " unset\n") name none ↔
      Config.Loads db.config := by
  refine edits_iff (fun settings hload => ?_) (db.config.get?_erase name)
  rw [invoke_perform hload (by simp [hcommand]), hcommand]
  rfl

theorem edits_set_iff {w : World} {db : Database} {i : Invocation} {name value : String}
    (hcommand : i.command = .setConfig name value) (hcheck : Config.check name value = .ok ())
    (horizon : Nat) (interrupted : Bool) :
    Edits w db (invoke (w.keep db) i horizon interrupted) ("✓ " ++ name ++ " = " ++ value ++ "\n")
      name (some value) ↔ Config.Loads db.config := by
  refine edits_iff (fun settings hload => ?_) (db.config.get?_put name value)
  rw [invoke_perform hload (by simp [hcommand]), hcommand, perform, Config.set, hcheck]
  rfl

/-- Behind two dashes any name is read as the name of a row. -/
theorem read_unset (name : String) :
    Start.read ["config", "unset", "--", name] = .run ⟨none, none, 0, .unsetConfig name⟩ :=
  rfl

theorem read_set (name value : String) :
    Start.read ["config", "set", "--", name, value] = .run ⟨none, none, 0, .setConfig name value⟩ :=
  rfl

-- Without them a name that begins with a dash is taken for a switch.
example : Start.read ["config", "unset", "-x"] = .misuse := rfl

/-- What can be done about the settings of a database from the command line. -/
structure RowCommands (w : World) (db : Database) : Prop where
  /-- The settings load if each row of a setting passes its check; other rows do not matter. -/
  loads_iff : Config.Loads db.config ↔
    ∀ key text, db.config.get? (Config.Key.name key) = some text → Config.Accepts key text
  /-- Where they load, and only there, a row can be forgotten, whatever its name. -/
  unsets : ∀ i name horizon interrupted, i.command = Command.unsetConfig name →
    (Edits w db (run (w.keep db) (.run i) horizon interrupted) ("✓ " ++ name ++ " unset\n") name none ↔
      Config.Loads db.config)
  /-- Where they load, and only there, a value that passes its check can be stored. -/
  sets : ∀ i name value horizon interrupted, i.command = Command.setConfig name value →
    Config.check name value = .ok () →
    (Edits w db (run (w.keep db) (.run i) horizon interrupted)
      ("✓ " ++ name ++ " = " ++ value ++ "\n") name (some value) ↔ Config.Loads db.config)
  /-- Where they do not, every command ends with the failure of loading and leaves all as it was. -/
  fails : ∀ f, ClientSettings.load db.config = .error f → ∀ i horizon interrupted,
    run (w.keep db) (.run i) horizon interrupted = (ended (.error f), w.keep db)
  /-- So no runs of the program lead from settings that do not load to some that do. -/
  loads_after : ∀ uses, ((w.keep db).after uses).Loads ↔ Config.Loads db.config
  /-- To forget every setting, as the command would, makes any table load. -/
  repairs : Config.Loads (Config.Key.names.foldl Config.unset db.config)

/-- Any name and any value can be given to the two commands that change a row.  They change it if and
only if the settings load that are stored already. -/
theorem row_commands (w : World) (db : Database) :
    (∀ name, Start.read ["config", "unset", "--", name] =
      .run ⟨none, none, 0, .unsetConfig name⟩) ∧
    (∀ name value, Start.read ["config", "set", "--", name, value] =
      .run ⟨none, none, 0, .setConfig name value⟩) ∧
    RowCommands w db := by
  refine ⟨read_unset, read_set, ?_⟩
  constructor
  case loads_iff => exact ClientSettings.loads_iff
  case unsets => exact fun i name horizon interrupted h => edits_unset_iff h horizon interrupted
  case sets =>
    exact fun i name value horizon interrupted h hcheck => edits_set_iff h hcheck horizon interrupted
  case fails => exact fun f hload i => invoke_of_unreadable hload i
  case loads_after => exact fun uses => ((w.keep db).loads_after_iff uses).trans World.loads_keep
  case repairs => exact Config.loads_foldl_unset db.config

/-- A computer without a network, and with some stored data. -/
def computer (db : Database) : World :=
  ⟨.present db, "positron.db", none, .down⟩

/-- Besides a setting there is a row that another version of the program knows. -/
def foreignRow : Database :=
  ⟨(Table.empty.put "theme" "dark").put "heartbeat_secs" "20", .empty⟩

theorem row_commands_foreignRow :
    Config.Loads foreignRow.config ∧
      Edits (computer foreignRow) foreignRow
        (run (computer foreignRow) (Start.read ["config", "unset", "--", "theme"]) 0 false)
        "✓ theme unset\n" "theme" none := by
  have hloads : Config.Loads foreignRow.config := ⟨_, rfl⟩
  have hcommands := (row_commands (computer foreignRow) foreignRow).2.2
  exact ⟨hloads, (hcommands.unsets ⟨none, none, 0, .unsetConfig "theme"⟩ "theme" 0 false rfl).2 hloads⟩

/-- A row of zero seconds, which nobody can have set from the command line. -/
def spoiledRow : Database :=
  ⟨Table.empty.put "heartbeat_secs" "0", .empty⟩

/-- The row cannot be forgotten and no other value stored in its place, and no runs of the program will
change that; yet the table without the row would load. -/
theorem spoiled_row_stays :
    let w := computer spoiledRow
    let failure := "Error: heartbeat_secs must be greater than zero\n"
    run w (Start.read ["config", "unset", "heartbeat_secs"]) 0 false = (⟨some 1, "", failure, []⟩, w) ∧
      Config.check "heartbeat_secs" "10" = .ok () ∧
      run w (Start.read ["config", "set", "heartbeat_secs", "10"]) 0 false =
        (⟨some 1, "", failure, []⟩, w) ∧
      (∀ uses, ¬ (w.after uses).Loads) ∧
      ClientSettings.load (Config.unset spoiledRow.config "heartbeat_secs") = .ok .default := by
  refine ⟨rfl, rfl, rfl, fun uses hloads => ?_, rfl⟩
  obtain ⟨db, hplace, settings, hload⟩ := ((computer spoiledRow).loads_after_iff uses).1 hloads
  cases hplace
  cases hload

end CommandLine

end LiveFeed
