/-!
# UTF-8

The octets of a character, and the reading of octets as text where ill-formed stretches become the
replacement character: one per maximal prefix of a character that the following octet breaks off.
-/

namespace LiveFeed.Text

/-- The octets of one character. -/
def octets (c : Char) : List Nat :=
  let n := c.toNat
  if n < 0x80 then [n]
  else if n < 0x800 then [0xC0 + n / 0x40, 0x80 + n % 0x40]
  else if n < 0x10000 then [0xE0 + n / 0x1000, 0x80 + n / 0x40 % 0x40, 0x80 + n % 0x40]
  else [0xF0 + n / 0x40000, 0x80 + n / 0x1000 % 0x40, 0x80 + n / 0x40 % 0x40, 0x80 + n % 0x40]

/-- The octets of a list of characters. -/
def utf8 (cs : List Char) : List Nat :=
  cs.flatMap octets

/-- Stands for octets that are not text. -/
def replacement : Char := Char.ofNat 0xFFFD

/-- What the first octet of a character asks for: how many octets follow, the range of the first
of them, and the bits the first octet contributes. -/
def lead (b : Nat) : Option (Nat × Nat × Nat × Nat) :=
  if 0xC2 ≤ b && b ≤ 0xDF then some (1, 0x80, 0xBF, b - 0xC0)
  else if b == 0xE0 then some (2, 0xA0, 0xBF, 0)
  else if b == 0xED then some (2, 0x80, 0x9F, 0xD)
  else if 0xE1 ≤ b && b ≤ 0xEF then some (2, 0x80, 0xBF, b - 0xE0)
  else if b == 0xF0 then some (3, 0x90, 0xBF, 0)
  else if 0xF1 ≤ b && b ≤ 0xF3 then some (3, 0x80, 0xBF, b - 0xF0)
  else if b == 0xF4 then some (3, 0x80, 0x8F, 4)
  else none

/-- Reading position inside a character: nothing owed, or `owed` octets to come, the next of them
within `low` and `high`, with the bits read so far. -/
inductive Utf8State where
  | fresh
  | within (owed low high bits : Nat)

/-- Reads one octet that starts a character. -/
def beginChar (b : Nat) : List Char × Utf8State :=
  if b < 0x80 then ([Char.ofNat b], .fresh)
  else
    match lead b with
    | some (owed, low, high, bits) => ([], .within owed low high bits)
    | none => ([replacement], .fresh)

/-- Reads one octet: the characters it completes, and the state after it. -/
def Utf8State.next : Utf8State → Nat → List Char × Utf8State
  | .fresh, b => beginChar b
  | .within owed low high bits, b =>
    if low ≤ b && b ≤ high then
      let bits := bits * 0x40 + (b - 0x80)
      if owed ≤ 1 then ([Char.ofNat bits], .fresh) else ([], .within (owed - 1) 0x80 0xBF bits)
    else
      let (cs, st) := beginChar b
      (replacement :: cs, st)

/-- Reads octets as text from a state on. -/
def decodeFrom : Utf8State → List Nat → List Char
  | .fresh, [] => []
  | .within .., [] => [replacement]
  | st, b :: bs => let (cs, st) := st.next b; cs ++ decodeFrom st bs

/-- Reads octets as text, with replacement characters for what is not text. -/
def decodeLossy (bs : List Nat) : List Char :=
  decodeFrom .fresh bs

/-- Reads octets as text if they are well-formed. -/
def decodeStrict? (bs : List Nat) : Option (List Char) :=
  let cs := decodeLossy bs
  if utf8 cs = bs then some cs else none

end LiveFeed.Text
