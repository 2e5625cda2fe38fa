import LiveFeed.CommandLine.Run

/-!
# The program

Reads the arguments, the environment and the stored data, runs the command and prints what it shows.
No transport is part of the program, so that every request finds the network down.
-/

open LiveFeed CommandLine

/-- The database that is used unless another is given. -/
def usualDatabase (home : String) : String :=
  home ++ "/.positron/positron.db"

/-- The stored data in a file; a file that does not exist holds nothing. -/
def openDatabase (path : String) : IO Vault.Location := do
  let text ← try IO.FS.readFile path catch _ => pure ""
  if text.isEmpty then return .present .empty
  match Database.read? text with
  | some db => return .present db
  | none => return .missing path

/-- How far ahead a watch looks before it waits for its user, in milliseconds. -/
def lookAhead : Nat := 20000

def main (args : List String) : IO UInt32 := do
  let home := (← IO.getEnv "HOME").getD "/tmp"
  let start := Start.read args
  let path := match start with
    | .run i => i.database.getD (usualDatabase home)
    | _ => usualDatabase home
  let world : World :=
    { place := ← openDatabase path, path := path
      token := ← IO.getEnv Vault.tokenVariable, network := .down }
  let (transcript, after) := run world start lookAhead false
  if let .present db := after.place then
    try IO.FS.writeFile path db.write catch _ => pure ()
  IO.print transcript.output
  IO.eprint transcript.errors
  match transcript.status with
  | some status => return status.toUInt32
  | none =>
    discard (← IO.getStdin).getLine
    IO.println ""
    return 0
