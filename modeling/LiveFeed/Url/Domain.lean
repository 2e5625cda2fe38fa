import LiveFeed.Text.Blank
import LiveFeed.Url.Percent
import LiveFeed.Url.Punycode

/-!
# Domain names

A domain name is brought to its ASCII form: letters become small, wide and ideographic forms become
the plain ones, and a label beyond ASCII is spelled in Punycode behind `xn--`.  Some characters may
not occur in a domain at all.

This is a part of IDNA: domains are not normalised, joiners and text that runs from right to left are
not checked, and the tables of characters cover some scripts only.
-/

namespace LiveFeed.Url.Domain

/-- ASCII characters that no domain may hold. -/
def isForbidden (c : Char) : Bool :=
  c.toNat ≤ 0x20 || c.toNat == 0x7F ||
    c ∈ ['#', '%', '/', ':', '<', '>', '?', '@', '[', '\\', ']', '^', '|']

/-- Characters beyond ASCII that are dropped: soft hyphen, joiners without width, variation
selectors, the byte order mark. -/
def isIgnored (c : Char) : Bool :=
  let n := c.toNat
  n == 0xAD || n == 0x34F || n == 0x180B || n == 0x180C || n == 0x180D || n == 0x200B ||
    n == 0x2060 || n == 0x2064 || (0xFE00 ≤ n && n ≤ 0xFE0F) || n == 0xFEFF

/-- Characters beyond ASCII that no domain may hold: controls, unassigned and private code points,
marks of direction, replacement characters. -/
def isUnusable (c : Char) : Bool :=
  let n := c.toNat
  (0x80 ≤ n && n ≤ 0x9F) || n == 0x200E || n == 0x200F || (0x2028 ≤ n && n ≤ 0x202E) ||
    (0x2066 ≤ n && n ≤ 0x206F) || (0xE000 ≤ n && n ≤ 0xF8FF) || (0xFDD0 ≤ n && n ≤ 0xFDEF) ||
    (0xFFF9 ≤ n && n ≤ 0xFFFF) || (0xE0000 ≤ n && n ≤ 0xE0FFF) || 0xF0000 ≤ n

/-- The small form of a letter beyond ASCII, for the scripts whose capitals stand in even steps. -/
def lowerBeyond (n : Nat) : Nat :=
  if (0xC0 ≤ n && n ≤ 0xDE) && n != 0xD7 then n + 32
  else if 0x100 ≤ n && n ≤ 0x137 && n != 0x130 && n != 0x131 then n + (1 - n % 2)
  else if 0x139 ≤ n && n ≤ 0x148 then n + n % 2
  else if 0x14A ≤ n && n ≤ 0x177 then n + (1 - n % 2)
  else if n == 0x178 then 0xFF
  else if 0x179 ≤ n && n ≤ 0x17E then n + n % 2
  else if n == 0x386 then 0x3AC
  else if 0x388 ≤ n && n ≤ 0x38A then n + 37
  else if n == 0x38C then 0x3CC
  else if n == 0x38E || n == 0x38F then n + 63
  else if 0x391 ≤ n && n ≤ 0x3AB && n != 0x3A2 then n + 32
  else if 0x400 ≤ n && n ≤ 0x40F then n + 80
  else if 0x410 ≤ n && n ≤ 0x42F then n + 32
  else if 0x460 ≤ n && n ≤ 0x481 then n + (1 - n % 2)
  else if 0x48A ≤ n && n ≤ 0x4BF then n + (1 - n % 2)
  else if 0x4D0 ≤ n && n ≤ 0x52F then n + (1 - n % 2)
  else if 0x531 ≤ n && n ≤ 0x556 then n + 48
  else if 0x1E00 ≤ n && n ≤ 0x1E95 then n + (1 - n % 2)
  else if 0x1EA0 ≤ n && n ≤ 0x1EFF then n + (1 - n % 2)
  else n

/-- What a character of a domain becomes. -/
def mapChar (c : Char) : List Char :=
  let n := c.toNat
  if n < 0x80 then [c.toLower]
  else if isIgnored c then []
  else if n == 0x3002 || n == 0xFF0E || n == 0xFF61 then ['.']
  else if 0xFF01 ≤ n && n ≤ 0xFF5E then [(Char.ofNat (n - 0xFEE0)).toLower]
  else if n == 0xDF then [c]
  else if n == 0x130 then ['i', Char.ofNat 0x307]
  else if n == 0xAA then ['a']
  else if n == 0xBA then ['o']
  else if n == 0xB2 || n == 0xB3 then [Char.ofNat (n - 0x80)]
  else if n == 0xB9 then ['1']
  else if n == 0xB5 then [Char.ofNat 0x3BC]
  else if n == 0x1E9E then ['s', 's']
  else [Char.ofNat (lowerBeyond n)]

/-- The mark in front of a label in Punycode. -/
def mark : List Char := ['x', 'n', '-', '-']

/-- The ASCII form of a label; one that is in Punycode already has to be well spelled. -/
def labelToAscii? (label : List Char) : Option (List Char) :=
  if mark.isPrefixOf label then
    match Punycode.decode? (label.drop 4) with
    | some cs =>
      if (cs.any fun c => 0x80 ≤ c.toNat) && (cs.all fun c => mapChar c == [c] && !isUnusable c) &&
          Punycode.encode cs == label.drop 4 then some label
      else none
    | none => none
  else if label.all fun c => c.toNat < 0x80 then some label
  else if label.any isUnusable then none
  else some (mark ++ Punycode.encode label)

/-- The labels with dots between them. -/
def join : List (List Char) → List Char
  | [] => []
  | [l] => l
  | l :: ls => l ++ '.' :: join ls

/-- The ASCII form of a domain, if it has one. -/
def toAscii? (cs : List Char) : Option (List Char) :=
  match (splitOn '.' (cs.flatMap mapChar)).mapM labelToAscii? with
  | none => none
  | some labels =>
    let domain := join labels
    if domain.any isForbidden then none else some domain

end LiveFeed.Url.Domain
