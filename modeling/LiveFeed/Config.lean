import LiveFeed.Failure
import LiveFeed.Table
import LiveFeed.Url.Reader

/-!
# Configuration

Four settings can be stored.  A value is checked before it is stored and again when it is loaded,
because rows may come from elsewhere; what is not stored has its default.

* `Config.Key`: the settings; `Config.validate`, `Config.check`: which values they take;
* `Config.set`, `Config.unset`: changes of the stored table;
* `ClientSettings.load`: the stored settings over the defaults.
-/

namespace LiveFeed

/-- Timing and patience of the connection; times are in milliseconds. -/
structure LinkConfig where
  /-- Time between two signs of life. -/
  heartbeat : Nat
  /-- Time before each new attempt. -/
  pause : Nat
  /-- How many attempts in a row may fail; none, for ever. -/
  limit : Option Nat
  deriving DecidableEq, Repr

/-- The connection's defaults. -/
def LinkConfig.default : LinkConfig := ⟨10000, 1000, none⟩

namespace Config

/-- A setting. -/
inductive Key where
  | backendUrl
  | heartbeatSecs
  | reconnectDelayMs
  | maxReconnectAttempts
  deriving DecidableEq, Repr

namespace Key

/-- Every setting, in the order they are listed. -/
def all : List Key := [backendUrl, heartbeatSecs, reconnectDelayMs, maxReconnectAttempts]

/-- The name of a setting. -/
def name : Key → String
  | backendUrl => "backend_url"
  | heartbeatSecs => "heartbeat_secs"
  | reconnectDelayMs => "reconnect_delay_ms"
  | maxReconnectAttempts => "max_reconnect_attempts"

/-- The setting of a name. -/
def ofName? (s : String) : Option Key :=
  all.find? fun k => k.name = s

/-- The names of all settings. -/
def names : List String := all.map name

end Key

/-- The largest number of seconds or milliseconds. -/
def timeLimit : Nat := 18446744073709551615

/-- The largest number of attempts. -/
def attemptLimit : Nat := 4294967295

/-- Reads a base address. -/
def readBackend (value : String) : Except Failure Url :=
  match Url.read value with
  | .ok u => .ok u
  | .error e => .error (.badBackend value e)

/-- Reads a number up to a limit. -/
def readWhole (key : Key) (limit : Nat) (value : String) : Except Failure Nat :=
  match Text.whole limit value with
  | .ok n => .ok n
  | .error e => .error (.notWhole key.name e)

/-- Checks a time, which may not be zero. -/
def checkTime (key : Key) (value : String) : Except Failure Unit := do
  let n ← readWhole key timeLimit value
  if n = 0 then .error (.notPositive key.name) else pure ()

/-- Checks the value of a setting. -/
def validate (key : Key) (value : String) : Except Failure Unit :=
  match key with
  | .backendUrl => (readBackend value).map fun _ => ()
  | .heartbeatSecs => checkTime key value
  | .reconnectDelayMs => checkTime key value
  | .maxReconnectAttempts => (readWhole key attemptLimit value).map fun _ => ()

/-- Checks a value under a name, which must be the name of a setting. -/
def check (name value : String) : Except Failure Unit :=
  match Key.ofName? name with
  | none => .error (.unknownKey name Key.names)
  | some key => validate key value

/-- Stores a value under a name, if it passes its check. -/
def set (t : Table) (name value : String) : Except Failure Table :=
  (check name value).map fun _ => t.put name value

/-- Forgets what is stored under a name. -/
def unset (t : Table) (name : String) : Table :=
  t.erase name

/-- Reads the stored base address, if there is one. -/
def storedBackend (t : Table) : Except Failure (Option Url) :=
  match t.get? Key.backendUrl.name with
  | none => .ok none
  | some text => (readBackend text).map some

/-- Reads a stored number up to a limit, if there is one.  It is checked before it is read, because it
may not have come through `set`. -/
def storedWhole (t : Table) (key : Key) (limit : Nat) : Except Failure (Option Nat) :=
  match t.get? key.name with
  | none => .ok none
  | some text => do
    validate key text
    match Text.whole limit text with
    | .ok n => pure (some n)
    | .error e => .error (.unreadable key.name text e)

end Config

/-- Everything needed to talk to one service. -/
structure ClientSettings where
  backend : Url
  link : LinkConfig
  deriving DecidableEq, Repr

namespace ClientSettings

/-- The base address unless another is given. -/
def defaultBackend : String := "http://localhost:8000"

/-- The default base address in its parts. -/
def defaultBackendUrl : Url :=
  ⟨"http", some ⟨"", none, some (.domain "localhost"), some 8000⟩, .segments [[]], none, none⟩

/-- The settings when nothing is stored. -/
def default : ClientSettings := ⟨defaultBackendUrl, .default⟩

/-- The stored settings over the defaults; no attempts at all means no limit to them. -/
def load (t : Table) : Except Failure ClientSettings := do
  let backend ← Config.storedBackend t
  let heartbeat ← Config.storedWhole t .heartbeatSecs Config.timeLimit
  let pause ← Config.storedWhole t .reconnectDelayMs Config.timeLimit
  let limit ← Config.storedWhole t .maxReconnectAttempts Config.attemptLimit
  pure
    { backend := backend.getD default.backend
      link :=
        { heartbeat := (heartbeat.map (· * 1000)).getD default.link.heartbeat
          pause := pause.getD default.link.pause
          limit :=
            match limit with
            | some n => if n = 0 then none else some n
            | none => default.link.limit } }

end ClientSettings

end LiveFeed
