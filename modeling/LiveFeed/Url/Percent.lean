import LiveFeed.Text.Utf8

/-!
# Percent encoding

An octet that may not stand in a part of an address is written as `%` and two hexadecimal digits.
Each part has its own set of ASCII characters that are encoded; characters beyond ASCII always are.

* `percentEncode`: what was encoded is left alone by encoding again, because neither `%` nor a
  hexadecimal digit belongs to any of the sets;
* form encoding writes a blank as `+`; `formPairs` reads it back.
-/

namespace LiveFeed.Url

/-- A set of characters to encode. -/
abbrev EncodeSet := Char → Bool

namespace EncodeSet

/-- Control characters. -/
def controls : EncodeSet := fun c => c.toNat < 0x20 || c.toNat == 0x7F

/-- Encoded in a fragment. -/
def fragment : EncodeSet := fun c => controls c || c ∈ [' ', '"', '<', '>', '\x60']

/-- Encoded in a path. -/
def path : EncodeSet := fun c => fragment c || c ∈ ['#', '?', '\x7b', '\x7d']

/-- Encoded in user information. -/
def userinfo : EncodeSet := fun c =>
  path c || c ∈ ['/', ':', ';', '=', '@', '[', '\\', ']', '^', '|']

/-- Encoded in a query. -/
def query : EncodeSet := fun c => controls c || c ∈ [' ', '"', '#', '<', '>']

/-- Encoded in the query of an address with a special scheme. -/
def specialQuery : EncodeSet := fun c => query c || c == '\''

end EncodeSet

/-- The character of a hexadecimal digit, in upper case. -/
def hexUpper (n : Nat) : Char :=
  if n < 10 then Char.ofNat (48 + n) else Char.ofNat (55 + n)

/-- An octet, encoded. -/
def encodeOctet (b : Nat) : List Char :=
  ['%', hexUpper (b / 16), hexUpper (b % 16)]

/-- A character, encoded if it has to be. -/
def encodeChar (set : EncodeSet) (c : Char) : List Char :=
  if c.toNat < 0x80 && !set c then [c] else (Text.octets c).flatMap encodeOctet

/-- Text, with the characters encoded that have to be. -/
def percentEncode (set : EncodeSet) (cs : List Char) : List Char :=
  cs.flatMap (encodeChar set)

/-- The value of a hexadecimal digit. -/
def hexValue? (c : Char) : Option Nat :=
  let n := c.toNat
  if 48 ≤ n && n ≤ 57 then some (n - 48)
  else if 97 ≤ n && n ≤ 102 then some (n - 87)
  else if 65 ≤ n && n ≤ 70 then some (n - 55)
  else none

/-- Octets with the encoded ones decoded; a `%` without two digits stands for itself. -/
def percentDecode : List Char → List Nat
  | [] => []
  | '%' :: a :: b :: r =>
    match hexValue? a, hexValue? b with
    | some x, some y => (x * 16 + y) :: percentDecode r
    | _, _ => 0x25 :: percentDecode (a :: b :: r)
  | c :: r => Text.octets c ++ percentDecode r

/-! ## Forms -/

/-- Characters that stand for themselves in a form. -/
def standsInForm (c : Char) : Bool :=
  c.isAlphanum || c ∈ ['*', '-', '.', '_']

/-- A character of a name or value in a form. -/
def formChar (c : Char) : List Char :=
  if c = ' ' then ['+']
  else if standsInForm c then [c]
  else (Text.octets c).flatMap encodeOctet

/-- A name or value in a form. -/
def formEncode (cs : List Char) : List Char :=
  cs.flatMap formChar

/-- A form with one pair. -/
def formPair (name value : String) : String :=
  String.ofList (formEncode name.toList ++ '=' :: formEncode value.toList)

/-- A name or value read from a form. -/
def formDecode (cs : List Char) : String :=
  String.ofList (Text.decodeLossy (percentDecode (cs.map fun c => if c = '+' then ' ' else c)))

/-- The parts of a list between the occurrences of `sep`. -/
def splitOn (sep : Char) : List Char → List (List Char)
  | [] => [[]]
  | c :: r =>
    if c = sep then [] :: splitOn sep r
    else
      match splitOn sep r with
      | [] => [[c]]
      | part :: parts => (c :: part) :: parts

/-- A pair of a form; without `=` the value is empty. -/
def readPair (cs : List Char) : String × String :=
  (formDecode (cs.takeWhile (· != '=')), formDecode ((cs.dropWhile (· != '=')).drop 1))

/-- The pairs of a form; empty stretches between `&` hold none. -/
def formPairs (s : String) : List (String × String) :=
  ((splitOn '&' s.toList).filter (!·.isEmpty)).map readPair

end LiveFeed.Url
