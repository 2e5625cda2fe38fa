import LiveFeed.Text.Whole
import LiveFeed.Url.Error
import LiveFeed.SocketError
import LiveFeed.RequestError

/-!
# Failures

Why an operation on the stored data, or a command, came to nothing.  A failure has a message and the
chain of causes behind it.
-/

namespace LiveFeed

/-- Why an operation failed. -/
inductive Failure where
  /-- A stored or given base address is none. -/
  | badBackend (text : String) (error : UrlError)
  /-- The value of a setting is no whole number. -/
  | notWhole (key : String) (error : Text.WholeError)
  /-- The value of a setting is zero. -/
  | notPositive (key : String)
  /-- The stored value of a setting passes its check and still cannot be read. -/
  | unreadable (key text : String) (error : Text.WholeError)
  /-- There is no such setting. -/
  | unknownKey (key : String) (known : List String)
  /-- A blank token cannot be kept. -/
  | noToken
  /-- Nobody is signed in at the origin. -/
  | noTokenFor (origin : String)
  /-- The database cannot be opened. -/
  | database (context path : String)
  /-- A stored credential cannot be read. -/
  | undecodable
  /-- A token cannot be sent in a header. -/
  | badHeader
  /-- No update socket can be opened at the base address. -/
  | socket (error : SocketError)
  /-- A request failed while something was attempted. -/
  | request (attempt : String) (error : RequestError)
  /-- The picture was asked for without a date. -/
  | pictureWithoutDate

namespace Failure

/-- The outermost message of a failure. -/
def message : Failure → String
  | badBackend text _ => "invalid backend url: " ++ text
  | notWhole key _ => key ++ " must be a whole number"
  | notPositive key => key ++ " must be greater than zero"
  | unreadable key text _ => "invalid value for " ++ key ++ ": " ++ text
  | unknownKey key known =>
    "unknown config key: " ++ key ++ " (known: " ++ ", ".intercalate known ++ ")"
  | noToken => "no token provided"
  | noTokenFor origin =>
    "no token for " ++ origin ++ "; run \x60positron token set <jwt>\x60"
  | database context _ => context
  | undecodable => "stored credential cannot be decoded"
  | badHeader => "failed to parse header value"
  | socket error => error.message
  | request attempt _ => attempt
  | pictureWithoutDate => "--resource apod-image needs --date"

/-- The causes behind a failure, outermost first. -/
def causes : Failure → List String
  | badBackend _ error => [error.message]
  | notWhole _ error => [error.message]
  | unreadable _ _ error => [error.message]
  | database _ path =>
    ["unable to open database file: " ++ path, "Error code 14: Unable to open the database file"]
  | socket (.malformed report) => [report.message]
  | socket (.transport fault) => [fault.message]
  | request _ error => [error.message]
  | _ => []

/-- A cause as it is listed; several are numbered. -/
def listed (several : Bool) (n : Nat) (cause : String) : String :=
  "\n    " ++ (if several then toString n ++ ": " else "") ++ cause

/-- What is printed of a failure. -/
def report (f : Failure) : String :=
  let causes := f.causes
  let several := 1 < causes.length
  let list := String.join ((causes.zipIdx).map fun (cause, n) => listed several n cause)
  "Error: " ++ f.message ++ (if causes.isEmpty then "" else "\n\nCaused by:" ++ list) ++ "\n"

end Failure

end LiveFeed
