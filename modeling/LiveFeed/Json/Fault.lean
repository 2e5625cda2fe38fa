import LiveFeed.Text.Utf8

/-!
# Faults in JSON text

What can be wrong with a JSON text, the wording of each fault, and the place where it is noticed.  A
scanner reports a fault with the input that was left and the number of octets it had taken from it,
so places are worked out from the text afterwards and scanners need not count.
-/

namespace LiveFeed.Json

/-- What is wrong with a text. -/
inductive Cause where
  | endInValue
  | endInString
  | endInObject
  | expectedValue
  | expectedWord
  | expectedColon
  | trailing
  | nameNotString
  | controlCharacter
  | badEscape
  | loneSurrogate
  | brokenSurrogate
  | badNumber
  | numberTooLarge
  deriving DecidableEq, Repr

/-- The wording of a cause. -/
def Cause.message : Cause → String
  | .endInValue => "EOF while parsing a value"
  | .endInString => "EOF while parsing a string"
  | .endInObject => "EOF while parsing an object"
  | .expectedValue => "expected value"
  | .expectedWord => "expected ident"
  | .expectedColon => "expected \x60:\x60"
  | .trailing => "trailing characters"
  | .nameNotString => "key must be a string"
  | .controlCharacter => "control character (\\u0000-\\u001F) found while parsing a string"
  | .badEscape => "invalid escape"
  | .loneSurrogate => "lone leading surrogate in hex escape"
  | .brokenSurrogate => "unexpected end of hex escape"
  | .badNumber => "invalid number"
  | .numberTooLarge => "number out of range"

/-- A fault: its cause, the input left when it was noticed, and how many octets of that input had
been looked at. -/
structure Fault where
  cause : Cause
  rest : List Char
  past : Nat
  deriving DecidableEq, Repr

/-- A place in a text: the line, from one, and the octets before it on that line. -/
structure Place where
  line : Nat
  column : Nat
  deriving DecidableEq, Repr

namespace Place

/-- The place before any input. -/
def start : Place := ⟨1, 0⟩

/-- The place after one more octet. -/
def after (p : Place) (octet : Nat) : Place :=
  if octet = 10 then ⟨p.line + 1, 0⟩ else ⟨p.line, p.column + 1⟩

/-- The place after some octets. -/
def afterAll (octets : List Nat) : Place :=
  octets.foldl after start

/-- The place reached in `whole` when `rest` is left and `past` of its octets are taken; it never
lies behind the end of the text. -/
def reached (whole rest : List Char) (past : Nat) : Place :=
  afterAll (Text.utf8 (whole.take (whole.length - rest.length)) ++ (Text.utf8 rest).take past)

/-- The wording of a place. -/
def describe (p : Place) : String :=
  " at line " ++ toString p.line ++ " column " ++ toString p.column

end Place

end LiveFeed.Json
