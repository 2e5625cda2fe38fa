import LiveFeed.Topic
import LiveFeed.Json.Scan
import LiveFeed.Json.Double
import LiveFeed.Decimal.Shortest

/-!
# Topic frames

A text frame of the update socket announces one topic: its name as a JSON string, or an object whose
only member has that name and the value `null`.  Anything else is malformed, and the report says what
was found and where.

* `Topic.ofFrame`: the topic of a frame, or the report;
* `Topic.frame`: the frame that announces a topic.
-/

namespace LiveFeed

open Json (Cause Fault Place Reading)

/-! ## Reports -/

/-- A value found where `null` was expected. -/
inductive Found where
  | bool (b : Bool)
  | integer (i : Int)
  | double (x : Float)
  | string (s : String)
  | sequence
  | map

/-- Doubles are written positionally from `10^-5` to below `10^16`. -/
def doubleStyle : Decimal.Style := ⟨-5, 15⟩

/-- A character of a string shown in a report. -/
def shownChar (c : Char) : List Char :=
  if c = '"' then ['\\', '"']
  else if c = '\\' then ['\\', '\\']
  else if c = '\n' then ['\\', 'n']
  else if c = '\r' then ['\\', 'r']
  else if c = '\t' then ['\\', 't']
  else if c.toNat = 0 then ['\\', '0']
  else if c.toNat < 0x20 ∨ (0x7F ≤ c.toNat ∧ c.toNat < 0xA0) ∨ c.toNat = 0xAD then
    "\\u\x7b".toList ++ Nat.toDigits 16 c.toNat ++ ['\x7d']
  else [c]

/-- A string shown in a report. -/
def shown (s : String) : String :=
  "\"" ++ String.ofList (s.toList.flatMap shownChar) ++ "\""

/-- The wording of a found value. -/
def Found.describe : Found → String
  | .bool true => "boolean \x60true\x60"
  | .bool false => "boolean \x60false\x60"
  | .integer i => "integer \x60" ++ toString i ++ "\x60"
  | .double x => "floating point \x60" ++ doubleStyle.write x ++ "\x60"
  | .string s => "string " ++ shown s
  | .sequence => "sequence"
  | .map => "map"

/-- Why a frame names no topic. -/
inductive Malformation where
  | syntaxError (cause : Cause)
  | unknownTopic (name : String)
  | notNull (found : Found)

/-- The wording of a malformation. -/
def Malformation.message : Malformation → String
  | .syntaxError cause => cause.message
  | .unknownTopic name =>
    "unknown variant \x60" ++ name ++ "\x60, expected one of " ++
      ", ".intercalate (Topic.all.map fun t => "\x60" ++ t.name ++ "\x60")
  | .notNull found => "invalid type: " ++ found.describe ++ ", expected unit"

/-- A report on a malformed frame. -/
structure FrameError where
  malformation : Malformation
  place : Place

/-- The wording of a report. -/
def FrameError.message (e : FrameError) : String :=
  e.malformation.message ++ e.place.describe

/-! ## Reading -/

namespace Frame

/-- A malformation with the input left when it was noticed. -/
structure Failure where
  malformation : Malformation
  rest : List Char
  past : Nat

/-- A fault of the text as a failure of the frame. -/
def Failure.ofFault (f : Fault) : Failure :=
  ⟨.syntaxError f.cause, f.rest, f.past⟩

/-- A syntax error where `past` octets of the input were looked at. -/
def fault {α : Type} (cause : Cause) (rest : List Char) (past : Nat) : Except Failure α :=
  .error ⟨.syntaxError cause, rest, past⟩

/-- The result of a scanner. -/
def scanned {α : Type} : Except Fault α → Except Failure α
  | .ok a => .ok a
  | .error f => .error (.ofFault f)

/-- Reads a string literal behind its opening quote. -/
def literal (s : List Char) : Except Failure (String × List Char) :=
  match Json.literal .strict s with
  | .ok (t, r) => .ok (t.getD "", r)
  | .error f => .error (.ofFault f)

/-- Reads a topic's name behind its opening quote. -/
def topicName (s : List Char) : Except Failure (Topic × List Char) := do
  let (name, r) ← literal s
  match Topic.ofName? name with
  | some t => pure (t, r)
  | none => .error ⟨.unknownTopic name, r, 0⟩

/-- The number of a numeral as a report shows it: an integer of 64 bits, or else a double. -/
def foundNumber (n : Numeral) (r : List Char) : Failure :=
  match n.toInt? with
  | some i =>
    if -9223372036854775808 ≤ i && i < 18446744073709551616 then ⟨.notNull (.integer i), r, 0⟩ else approximate
  | none => approximate
where
  /-- The report on a number that is no integer of 64 bits. -/
  approximate : Failure :=
    match n.toFloat? with
    | some x => ⟨.notNull (.double x), r, 0⟩
    | none => ⟨.syntaxError .numberTooLarge, r, 0⟩

/-- Reports the value that stands in place of `null`. -/
def foundValue (c : Char) (r : List Char) : Except Failure (List Char) :=
  if c = 't' then do
    let r ← scanned (Json.word "rue".toList r)
    .error ⟨.notNull (.bool true), r, 0⟩
  else if c = 'f' then do
    let r ← scanned (Json.word "alse".toList r)
    .error ⟨.notNull (.bool false), r, 0⟩
  else if c = '"' then do
    let (s, r) ← literal r
    .error ⟨.notNull (.string s), r, 0⟩
  else if c = '[' then .error ⟨.notNull .sequence, c :: r, 0⟩
  else if c = '\x7b' then .error ⟨.notNull .map, c :: r, 0⟩
  else if c = '-' ∨ c.isDigit then do
    let (n, r) ← scanned (Json.numeral (c :: r))
    .error (foundNumber n r)
  else fault .expectedValue (c :: r) 1

/-- Reads `null`. -/
def nullValue (s : List Char) : Except Failure (List Char) :=
  match Json.skipBlanks s with
  | [] => fault .endInValue [] 0
  | c :: r => if c = 'n' then scanned (Json.word "ull".toList r) else foundValue c r

/-- Reads the colon behind a member's name. -/
def colon (s : List Char) : Except Failure (List Char) :=
  match Json.skipBlanks s with
  | [] => fault .endInObject [] 0
  | c :: r => if c = ':' then .ok r else fault .expectedColon (c :: r) 1

/-- Reads the brace that closes an object with one member. -/
def closingBrace (s : List Char) : Except Failure (List Char) :=
  match Json.skipBlanks s with
  | [] => fault .endInObject [] 0
  | c :: r => if c = '\x7d' then .ok r else fault .expectedValue (c :: r) 0

/-- Reads an object with one member behind its opening brace. -/
def tagged (s : List Char) : Except Failure (Topic × List Char) :=
  match Json.skipBlanks s with
  | [] => fault .endInValue [] 0
  | c :: r =>
    if c = '"' then do
      let (t, r) ← topicName r
      let r ← colon r
      let r ← nullValue r
      let r ← closingBrace r
      pure (t, r)
    else if c = '\x7d' then fault .expectedValue (c :: r) 1
    else fault .nameNotString (c :: r) 1

/-- Reads a topic. -/
def topic (s : List Char) : Except Failure (Topic × List Char) :=
  match Json.skipBlanks s with
  | [] => fault .endInValue [] 0
  | c :: r =>
    if c = '"' then topicName r
    else if c = '\x7b' then tagged r
    else fault .expectedValue (c :: r) 1

/-- Reads a topic with nothing but blanks behind it. -/
def onlyTopic (s : List Char) : Except Failure Topic := do
  let (t, r) ← topic s
  match Json.skipBlanks r with
  | [] => pure t
  | c :: r => fault .trailing (c :: r) 1

end Frame

/-- The topic that a frame announces. -/
def Topic.ofFrame (frame : String) : Except FrameError Topic :=
  match Frame.onlyTopic frame.toList with
  | .ok t => .ok t
  | .error f => .error ⟨f.malformation, Place.reached frame.toList f.rest f.past⟩

/-- The frame that announces a topic. -/
def Topic.frame (t : Topic) : String :=
  "\"" ++ t.name ++ "\""

theorem Topic.ofFrame_frame (t : Topic) : ofFrame t.frame = .ok t := by
  have hplain : t.name.toList.all Json.standsForItself = true := by cases t <;> decide
  have hframe : t.frame.toList = '"' :: (t.name.toList ++ ['"']) := by simp [frame]
  have hname : Frame.topicName (t.name.toList ++ ['"']) = .ok (t, []) := by
    have hliteral := Json.literalFrom_plain .strict [] t.name.toList [] hplain
    simp [Frame.topicName, Frame.literal, Json.literal, hliteral, bind, Except.bind, pure,
      Except.pure, ofName?_name]
  have htopic : Frame.topic ('"' :: (t.name.toList ++ ['"'])) = .ok (t, []) := hname
  have honly : Frame.onlyTopic ('"' :: (t.name.toList ++ ['"'])) = .ok t := by
    rw [Frame.onlyTopic, htopic]
    rfl
  rw [ofFrame, hframe, honly]

end LiveFeed
