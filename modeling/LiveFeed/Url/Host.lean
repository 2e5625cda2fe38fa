import LiveFeed.Url.Domain
import LiveFeed.Url.Error

/-!
# Hosts

A host is a domain name, an address of 32 bits or one of 128 bits.  Under a special scheme a name
whose last label is a number is an address in disguise, in any of the old spellings: fewer than four
parts, octal, hexadecimal.  Under other schemes a name is kept as it is written.
-/

namespace LiveFeed.Url

/-- A host. -/
inductive Host where
  | domain (name : String)
  | ipv4 (address : Nat)
  /-- Eight groups of 16 bits. -/
  | ipv6 (groups : List Nat)
  deriving DecidableEq, Repr

/-! ## Addresses of 32 bits -/

namespace Ipv4

/-- What one part of an address says. -/
inductive Part where
  | number (n : Nat)
  | notNumber
  deriving DecidableEq

/-- The number that digits spell in a base, if all of them are digits of it. -/
def digitsIn (base : Nat) (cs : List Char) : Option Nat :=
  cs.foldlM (fun n c =>
    match hexValue? c with
    | some d => if d < base then some (n * base + d) else none
    | none => none) 0

/-- Reads a part: hexadecimal behind `0x`, octal behind `0`, decimal otherwise. -/
def part? : List Char → Option Nat
  | [] => none
  | '0' :: 'x' :: r => digitsIn 16 r
  | '0' :: 'X' :: r => digitsIn 16 r
  | '0' :: c :: r => digitsIn 8 (c :: r)
  | cs => digitsIn 10 cs

/-- Whether a domain has to be read as an address: its last label is a number. -/
def endsInNumber (domain : List Char) : Bool :=
  let labels := (splitOn '.' domain).reverse
  match labels with
  | [] :: l :: _ => isNumber l
  | [] :: [] => false
  | l :: _ => isNumber l
  | [] => false
where
  /-- Whether a label is a number. -/
  isNumber (l : List Char) : Bool :=
    (!l.isEmpty && l.all Char.isDigit) || (part? l).isSome

/-- The address of its parts: all but the last are octets, the last fills what is left. -/
def ofParts? (parts : List Nat) : Option Nat :=
  match parts.reverse with
  | [] => none
  | last :: others =>
    if others.any (255 < ·) || 4 < parts.length then none
    else if Nat.pow 256 (5 - parts.length) ≤ last then none
    else some (others.reverse.foldr (fun (n : Nat) (p : Nat × Nat) => (p.1 + n * Nat.pow 256 p.2, p.2 + 1))
      (last, 4 - others.length)).1

/-- Reads an address. -/
def read (domain : List Char) : Except UrlError Host :=
  let parts := splitOn '.' domain
  let parts := if parts.getLast? = some [] then parts.dropLast else parts
  match parts.mapM part? with
  | none => .error .badIpv4
  | some ns =>
    match ofParts? ns with
    | some a => .ok (.ipv4 a)
    | none => .error .badIpv4

/-- The dotted spelling. -/
def write (a : Nat) : String :=
  ".".intercalate ([16777216, 65536, 256, 1].map fun w => toString (a / w % 256))

end Ipv4

/-! ## Addresses of 128 bits -/

namespace Ipv6

/-- Reads a group of up to four hexadecimal digits. -/
def group? (cs : List Char) : Option Nat :=
  if cs.isEmpty || 4 < cs.length then none else Ipv4.digitsIn 16 cs

/-- Reads a decimal octet without leading zeros. -/
def octet? (cs : List Char) : Option Nat :=
  match cs with
  | ['0'] => some 0
  | '0' :: _ => none
  | [] => none
  | cs =>
    match Ipv4.digitsIn 10 cs with
    | some n => if n < 256 then some n else none
    | none => none

/-- Reads the two groups that an embedded dotted address stands for. -/
def dotted? (cs : List Char) : Option (List Nat) :=
  match (splitOn '.' cs).mapM octet? with
  | some [a, b, c, d] => some [a * 256 + b, c * 256 + d]
  | _ => none

/-- Reads groups; a dotted address may stand at the end where `dotted` allows it. -/
def groupList? (dotted : Bool) : List (List Char) → Option (List Nat)
  | [] => some []
  | [l] =>
    match group? l with
    | some g => some [g]
    | none => if dotted then dotted? l else none
  | l :: ls =>
    match group? l, groupList? dotted ls with
    | some g, some gs => some (g :: gs)
    | _, _ => none

/-- Reads groups between colons; no text, no groups. -/
def groups? (dotted : Bool) (cs : List Char) : Option (List Nat) :=
  if cs.isEmpty then some [] else groupList? dotted (splitOn ':' cs)

/-- What stands before and after the first `::`. -/
def splitGap : List Char → Option (List Char × List Char)
  | [] => none
  | ':' :: ':' :: r => some ([], r)
  | c :: r => (splitGap r).map fun (a, b) => (c :: a, b)

/-- Reads an address; `::` stands for at least one group of zero. -/
def read? (cs : List Char) : Option (List Nat) :=
  match splitGap cs with
  | none =>
    match groups? true cs with
    | some gs => if gs.length = 8 then some gs else none
    | none => none
  | some (a, b) =>
    match groups? false a, groups? true b with
    | some xs, some ys =>
      if xs.length + ys.length ≤ 7 then
        some (xs ++ List.replicate (8 - xs.length - ys.length) 0 ++ ys)
      else none
    | _, _ => none

/-- The length of the run of zeros that a list starts with. -/
def zeros (gs : List Nat) : Nat :=
  (gs.takeWhile (· == 0)).length

/-- The first longest run of at least two zeros: where it starts and how long it is. -/
def longestGap (gs : List Nat) : Option (Nat × Nat) :=
  (List.range gs.length).foldl (fun best i =>
    let n := zeros (gs.drop i)
    match best with
    | none => if 2 ≤ n then some (i, n) else none
    | some (_, m) => if m < n then some (i, n) else best) none

/-- Groups between colons. -/
def writeGroups (gs : List Nat) : String :=
  ":".intercalate (gs.map fun g => String.ofList (Nat.toDigits 16 g))

/-- The shortest spelling. -/
def write (gs : List Nat) : String :=
  match longestGap gs with
  | none => writeGroups gs
  | some (i, n) => writeGroups (gs.take i) ++ "::" ++ writeGroups (gs.drop (i + n))

end Ipv6

namespace Host

/-- The spelling of a host. -/
def write : Host → String
  | domain name => name
  | ipv4 a => Ipv4.write a
  | ipv6 gs => "[" ++ Ipv6.write gs ++ "]"

/-- Reads what stands in brackets. -/
def readBracketed (cs : List Char) : Except UrlError Host :=
  if cs.getLast? = some ']' then
    match Ipv6.read? (cs.drop 1).dropLast with
    | some gs => .ok (.ipv6 gs)
    | none => .error .badIpv6
  else .error .badIpv6

/-- Reads a host under a special scheme. -/
def readSpecial (cs : List Char) : Except UrlError Host :=
  if cs.head? = some '[' then readBracketed cs
  else
    match Text.decodeStrict? (percentDecode cs) with
    | none => .error .badDomain
    | some decoded =>
      match Domain.toAscii? decoded with
      | none => .error .badDomain
      | some [] => .error .emptyHost
      | some name =>
        if Ipv4.endsInNumber name then Ipv4.read name
        else .ok (.domain (String.ofList name))

/-- Characters that may not stand in a host that is kept as it is written. -/
def isBadCharacter (c : Char) : Bool :=
  c ∈ ['\x00', '\t', '\n', '\r', ' ', '#', '/', ':', '<', '>', '?', '@', '[', '\\', ']', '^', '|']

/-- Reads a host under another scheme. -/
def readPlain (cs : List Char) : Except UrlError Host :=
  if cs.head? = some '[' then readBracketed cs
  else if cs.any isBadCharacter then .error .badHostCharacter
  else .ok (.domain (String.ofList (percentEncode .controls cs)))

end Host

end LiveFeed.Url
