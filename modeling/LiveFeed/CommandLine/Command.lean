import LiveFeed.CommandLine.Arguments
import LiveFeed.Resource
import LiveFeed.Url.Reader

/-!
# Commands

What can be asked of the program, and how it is written as arguments.

* `Command`, `Invocation`: a command with the database and the base address it is for;
* `Invocation.read`: the arguments read.
-/

namespace LiveFeed.CommandLine

/-- Something asked of the program. -/
inductive Command where
  | watch (resources : List Resource) (date : Option String)
  | accountInfo
  | instantConfirm (on : Bool)
  | pictureInfo (date : String)
  | ratePicture (date : String) (bad : Bool)
  | setToken (token : String)
  | clearToken
  | showToken
  | getConfig (key : Option String)
  | setConfig (key value : String)
  | unsetConfig (key : String)
  deriving DecidableEq, Repr

/-- A command with what can be given to every command. -/
structure Invocation where
  /-- The path of the database, unless it is the usual one. -/
  database : Option String
  /-- The base address, unless it is the stored one. -/
  backend : Option Url
  /-- How much is to be logged. -/
  verbosity : Nat
  command : Command
  deriving DecidableEq, Repr

/-! ## Forms -/

/-- Any value. -/
def anything (_ : String) : Bool := true

/-- Whether a text is an address. -/
def isAddress (s : String) : Bool :=
  match Url.read s with
  | .ok _ => true
  | .error _ => false

/-- The switches that can be given everywhere. -/
def everywhere : List Switch :=
  [⟨"db", some 'd', .value, anything⟩, ⟨"backend-url", some 'b', .value, isAddress⟩,
    ⟨"verbose", some 'v', .counted, anything⟩]

/-- A form with a number of operands. -/
def leaf (name : String) (operands : Nat) : Form := .mk name [] operands operands []

/-- The forms of the program. -/
def program : Form :=
  .mk "" [] 0 0
    [.mk "watch"
        [⟨"resource", some 'r', .listed, fun s => (Resource.ofLabel? s).isSome⟩,
          ⟨"date", none, .value, anything⟩] 0 0 [],
      .mk "account" [] 0 0 [leaf "info" 0, leaf "instant-confirm" 1],
      .mk "apod" [] 0 0
        [leaf "info" 1, .mk "rate" [⟨"bad", none, .flag, anything⟩] 1 1 []],
      .mk "token" [] 0 0 [leaf "set" 1, leaf "clear" 0, leaf "show" 0],
      .mk "config" [] 0 0 [.mk "get" [] 0 1 [], leaf "set" 2, leaf "unset" 1]]

/-! ## Reading -/

/-- A truth value as it is written. -/
def truth? (s : String) : Option Bool :=
  if s = "true" then some true else if s = "false" then some false else none

/-- The command that was given, by its path and its operands. -/
def command? (path : List String) (g : Given) : Option Command :=
  match path, g.operands with
  | ["watch"], [] =>
    some (.watch ((g.values "resource").filterMap Resource.ofLabel?) (g.values "date").head?)
  | ["account", "info"], [] => some .accountInfo
  | ["account", "instant-confirm"], [on] => (truth? on).map .instantConfirm
  | ["apod", "info"], [date] => some (.pictureInfo date)
  | ["apod", "rate"], [date] => some (.ratePicture date (!(g.values "bad").isEmpty))
  | ["token", "set"], [token] => some (.setToken token)
  | ["token", "clear"], [] => some .clearToken
  | ["token", "show"], [] => some .showToken
  | ["config", "get"], [] => some (.getConfig none)
  | ["config", "get"], [key] => some (.getConfig (some key))
  | ["config", "set"], [key, value] => some (.setConfig key value)
  | ["config", "unset"], [key] => some (.unsetConfig key)
  | _, _ => none

/-- The value of a switch that can be given everywhere: the innermost one counts. -/
def innermost? (levels : List Given) (name : String) : Option String :=
  (levels.flatMap fun g => g.values name).getLast?

/-- What the program is started for. -/
inductive Start where
  | run (i : Invocation)
  | help
  | version
  | misuse
  deriving DecidableEq, Repr

/-- The command that was given with what goes with it. -/
def Invocation.ofLevels? (levels : List Given) : Option Invocation := do
  let last ← levels.getLast?
  let command ← command? ((levels.drop 1).map (·.form)) last
  let backend ← match innermost? levels "backend-url" with
    | none => some none
    | some s =>
      match Url.read s with
      | .ok u => some (some u)
      | .error _ => none
  pure
    { database := innermost? levels "db"
      backend := backend
      verbosity := (levels.flatMap fun g => g.values "verbose").length
      command := command }

/-- Reads the arguments of the program; none at all are a misuse. -/
def Start.read (args : List String) : Start :=
  match program.read everywhere args with
  | .help => .help
  | .version => .version
  | .misuse => .misuse
  | .given levels =>
    match Invocation.ofLevels? levels with
    | some i => .run i
    | none => .misuse

end LiveFeed.CommandLine
