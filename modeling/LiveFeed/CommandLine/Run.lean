import LiveFeed.CommandLine.Command
import LiveFeed.Watch

/-!
# Running commands

A command works on the stored data and asks the service.  The settings are loaded before anything
else, so that a stored row that cannot be read fails every command.

* `perform`: a command other than watching, with what it prints;
* `watch`: a watch, up to some time;
* `run`: a whole run of the program.
-/

namespace LiveFeed.CommandLine

/-- The world around a run. -/
structure World where
  /-- The stored data, unless it cannot be opened. -/
  place : Vault.Location
  /-- The path of the stored data as it is shown. -/
  path : String
  /-- The variable that may hold a token. -/
  token : Option String
  network : Network

/-- The world with other stored data. -/
def World.keep (w : World) (db : Database) : World :=
  { w with place := .present db }

/-- What a run of the program showed.  There is no status as long as it goes on. -/
structure Transcript where
  status : Option Nat
  output : String
  errors : String
  /-- What the log says. -/
  log : List String
  deriving DecidableEq, Repr

/-! ## The configuration -/

/-- Blanks behind a text, up to a width. -/
def padded (width : Nat) (s : String) : String :=
  s ++ String.ofList (List.replicate (width - s.length) ' ')

/-- Shows one setting. -/
def shownSetting (t : Table) (key : String) : String :=
  match t.get? key with
  | some value => value ++ "\n"
  | none => key ++ " is not set\n"

/-- Shows every setting. -/
def shownSettings (t : Table) : String :=
  String.join (Config.Key.names.map fun key =>
    padded 24 key ++ " " ++ (t.get? key).getD "(default)" ++ "\n")

/-! ## Requests -/

/-- The client for a command; it needs a token. -/
def signedIn (w : World) (backend : Url) : Except Failure Client := do
  let token ← Vault.resolve w.place backend w.token
  if token.isNone then .error (.noTokenFor (originKey backend)) else Client.create backend token

/-- Asks the service for something and shows it. -/
def ask {α : Type} (w : World) (backend : Url) (attempt : String)
    (call : Client → Network → Outcome α × Network) (shown : α → String) :
    Except Failure String × World :=
  match signedIn w backend with
  | .error f => (.error f, w)
  | .ok client =>
    let (outcome, network) := call client w.network
    -- Requests that were made stay made, whatever came of them.
    let result := match outcome with
      | .ok a => .ok (shown a)
      | .error e => .error (.request attempt e)
    (result, { w with network := network })

/-- What is shown of a picture: its title and who found it. -/
def shownPicture (date : String) : Option Wire.ApodData → String
  | none => "no media for " ++ date ++ "\n"
  | some data =>
    data.title ++ "  (by " ++ ((data.user.map (·.name)).getD "unknown") ++ ")\n"

/-! ## Commands -/

/-- Changes the stored data and says what was done. -/
def change (w : World) (result : Except Failure Database) (message : String) :
    Except Failure String × World :=
  match result with
  | .ok db => (.ok message, w.keep db)
  | .error f => (.error f, w)

/-- Changes the stored settings and says what was done. -/
def changeConfig (w : World) (db : Database) (result : Except Failure Table) (message : String) :
    Except Failure String × World :=
  change w (result.map fun t => { db with config := t }) message

/-- Performs a command other than watching. -/
def perform (w : World) (db : Database) (backend : Url) : Command → Except Failure String × World
  | .watch _ _ => (.ok "", w)
  | .accountInfo =>
    ask w backend "failed to load account" Client.currentAccount fun info =>
      (Wire.UserInfo.codec.encode info).indented ++ "\n"
  | .instantConfirm on =>
    ask w backend "failed to update settings" (fun c => c.updateSettings ⟨on⟩) fun _ =>
      "✓ instant confirm " ++ (if on then "on" else "off") ++ "\n"
  | .pictureInfo date =>
    ask w backend "failed to load media info" (fun c => c.apodInfo date) (shownPicture date)
  | .ratePicture date bad =>
    ask w backend "failed to rate media" (fun c => c.setApodGood (!bad) date) fun _ =>
      "✓ " ++ date ++ " marked " ++ (if bad then "bad" else "good") ++ "\n"
  | .setToken token =>
    change w (Vault.login w.place backend token) ("✓ token saved for " ++ originKey backend ++ "\n")
  | .clearToken =>
    change w (Vault.logout w.place backend) ("✓ token removed for " ++ originKey backend ++ "\n")
  | .showToken =>
    ((Vault.resolve w.place backend w.token).map fun token =>
      originKey backend ++ "  " ++ (token.map maskToken).getD "not set" ++ "\n", w)
  | .getConfig none => (.ok (shownSettings db.config), w)
  | .getConfig (some key) => (.ok (shownSetting db.config key), w)
  | .setConfig key value =>
    changeConfig w db (Config.set db.config key value) ("✓ " ++ key ++ " = " ++ value ++ "\n")
  | .unsetConfig key =>
    changeConfig w db (.ok (Config.unset db.config key)) ("✓ " ++ key ++ " unset\n")

/-- Watches up to some time.  A watch ends when the link gives up or somebody interrupts it. -/
def watch (w : World) (settings : ClientSettings) (named : List Resource) (date : Option String)
    (verbosity horizon : Nat) (interrupted : Bool) : Except Failure Transcript × World :=
  match Watch.setUp settings w.place w.token named date with
  | .error f => (.error f, w)
  | .ok setup =>
    let (printed, network) := Watch.fetchAll setup date w.network
    let output := (setup.banner w.path).text ++ printed
    let link := Watch.attend setup horizon network
    let log := (link.notes.filter fun note => note.verbosity ≤ verbosity).map Watch.Note.text
    let transcript : Transcript :=
      match link.ending with
      | .stopped reason => ⟨some 0, output, "updater stopped: " ++ reason ++ "\n", log⟩
      | .goingOn =>
        if interrupted then ⟨some 0, output ++ "\n", "", log⟩ else ⟨none, output, "", log⟩
    (.ok transcript, { w with network := link.network })

/-- The transcript of a run that ended one way or the other. -/
def ended : Except Failure String → Transcript
  | .ok output => ⟨some 0, output, "", []⟩
  | .error f => ⟨some 1, "", f.report, []⟩

/-- The settings a command runs with: those stored, but for the base address if one is given. -/
def settingsFor (w : World) (i : Invocation) : Except Failure (Database × ClientSettings) := do
  let db ← w.place.settings
  let settings ← ClientSettings.load db.config
  pure (db, { settings with backend := i.backend.getD settings.backend })

/-- Runs a command. -/
def invoke (w : World) (i : Invocation) (horizon : Nat) (interrupted : Bool) : Transcript × World :=
  match settingsFor w i with
  | .error f => (ended (.error f), w)
  | .ok (db, settings) =>
    match i.command with
    | .watch named date =>
      match watch w settings named date i.verbosity horizon interrupted with
      | (.ok transcript, w) => (transcript, w)
      | (.error f, w) => (ended (.error f), w)
    | command =>
      let (result, w) := perform w db settings.backend command
      (ended result, w)

/-- What is printed on request. -/
def helpText : String :=
  "Live view of a Positron backend.\n\nUsage: " ++ programName ++ " [OPTIONS] <COMMAND>\n"

/-- Runs the program, up to some time if it watches. -/
def run (w : World) (start : Start) (horizon : Nat) (interrupted : Bool) : Transcript × World :=
  match start with
  | .run i => invoke w i horizon interrupted
  | .help => (⟨some 0, helpText, "", []⟩, w)
  | .version => (⟨some 0, programName ++ " " ++ programVersion ++ "\n", "", []⟩, w)
  | .misuse => (⟨some 2, "", "error: invalid arguments\n", []⟩, w)

end LiveFeed.CommandLine
