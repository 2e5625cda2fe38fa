import LiveFeed.Json.Scan

/-!
# Writing JSON text

The compact form, without blanks, and the indented form that people read.  Strings escape the quote,
the backslash and the control characters below U+0020, and nothing else.
-/

namespace LiveFeed.Json

/-! ## Numerals -/

/-- The decimal digits of a number. -/
def decimal (n : Nat) : List (Fin 10) :=
  if n < 10 then [Fin.ofNat 10 n] else decimal (n / 10) ++ [Fin.ofNat 10 n]

/-- The character of a digit. -/
def digitChar (d : Fin 10) : Char :=
  Char.ofNat (48 + d.val)

/-- The digits of a number as characters. -/
def natChars (n : Nat) : List Char :=
  (decimal n).map digitChar

/-- The characters of an integer. -/
def intChars (i : Int) : List Char :=
  if i < 0 then '-' :: natChars i.natAbs else natChars i.natAbs

/-- The characters of a numeral. -/
def numeralChars (n : Numeral) : List Char :=
  (if n.negative then ['-'] else []) ++ natChars n.whole ++
    (if n.fraction.isEmpty then [] else '.' :: n.fraction.map digitChar) ++
    (match n.exponent with
      | none => []
      | some e => 'e' :: intChars e)

/-! ## Strings -/

/-- The character of a hexadecimal digit, in lower case. -/
def hexChar (n : Nat) : Char :=
  if n < 10 then Char.ofNat (48 + n) else Char.ofNat (87 + n)

/-- A character inside a string literal. -/
def escapeChar (c : Char) : List Char :=
  if c = '"' then ['\\', '"']
  else if c = '\\' then ['\\', '\\']
  else if c = '\x08' then ['\\', 'b']
  else if c = '\x0c' then ['\\', 'f']
  else if c = '\n' then ['\\', 'n']
  else if c = '\r' then ['\\', 'r']
  else if c = '\t' then ['\\', 't']
  else if c.toNat < 0x20 then ['\\', 'u', '0', '0', hexChar (c.toNat / 16), hexChar (c.toNat % 16)]
  else [c]

/-- A string literal. -/
def quote (s : String) : List Char :=
  '"' :: (s.toList.flatMap escapeChar ++ ['"'])

/-- A literal for a string that may have no text: half of a surrogate pair stands for all such. -/
def quoteOption : Option String → List Char
  | some s => quote s
  | none => "\"\\ud800\"".toList

/-! ## The compact form -/

mutual

/-- The compact form of a value. -/
def compactChars : Json → List Char
  | .null => "null".toList
  | .bool true => "true".toList
  | .bool false => "false".toList
  | .num n => numeralChars n
  | .str t => quoteOption t
  | .arr vs => '[' :: (itemChars vs ++ [']'])
  | .obj ms => '\x7b' :: (memberChars ms ++ ['\x7d'])

/-- The elements of an array with commas between them. -/
def itemChars : List Json → List Char
  | [] => []
  | v :: vs => compactChars v ++ moreItemChars vs

/-- Further elements, each behind a comma. -/
def moreItemChars : List Json → List Char
  | [] => []
  | v :: vs => ',' :: (compactChars v ++ moreItemChars vs)

/-- The members of an object with commas between them. -/
def memberChars : List (Option String × Json) → List Char
  | [] => []
  | m :: ms => memberChar m ++ moreMemberChars ms

/-- Further members, each behind a comma. -/
def moreMemberChars : List (Option String × Json) → List Char
  | [] => []
  | m :: ms => ',' :: (memberChar m ++ moreMemberChars ms)

/-- One member. -/
def memberChar : Option String × Json → List Char
  | (k, v) => quoteOption k ++ ':' :: compactChars v

end

/-- The compact form of a value. -/
def compact (v : Json) : String :=
  String.ofList (compactChars v)

/-! ## The indented form -/

/-- A new line at a depth; each level is two blanks. -/
def newLine (depth : Nat) : List Char :=
  '\n' :: List.replicate (2 * depth) ' '

mutual

/-- The indented form of a value at a depth; empty containers stay on their line. -/
def indentedChars (depth : Nat) : Json → List Char
  | .arr [] => "[]".toList
  | .arr (v :: vs) => '[' :: (indentedItems (depth + 1) (v :: vs) ++ newLine depth ++ [']'])
  | .obj [] => ['\x7b', '\x7d']
  | .obj (m :: ms) =>
    '\x7b' :: (indentedMembers (depth + 1) (m :: ms) ++ newLine depth ++ ['\x7d'])
  | .null => "null".toList
  | .bool true => "true".toList
  | .bool false => "false".toList
  | .num n => numeralChars n
  | .str t => quoteOption t

/-- The elements of an array, one per line. -/
def indentedItems (depth : Nat) : List Json → List Char
  | [] => []
  | [v] => newLine depth ++ indentedChars depth v
  | v :: vs => newLine depth ++ indentedChars depth v ++ [','] ++ indentedItems depth vs

/-- The members of an object, one per line. -/
def indentedMembers (depth : Nat) : List (Option String × Json) → List Char
  | [] => []
  | [m] => newLine depth ++ indentedMember depth m
  | m :: ms => newLine depth ++ indentedMember depth m ++ [','] ++ indentedMembers depth ms

/-- One member; a blank follows its colon. -/
def indentedMember (depth : Nat) : Option String × Json → List Char
  | (k, v) => quoteOption k ++ ':' :: ' ' :: indentedChars depth v

end

/-- The indented form of a value. -/
def indented (v : Json) : String :=
  String.ofList (indentedChars 0 v)

end LiveFeed.Json
