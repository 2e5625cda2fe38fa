import LiveFeed.Json.Basic

/-!
# Numerals as doubles

The double that a numeral stands for.  The digits are gathered in a word of 64 bits; digits that no
longer fit are dropped, and the word is then scaled by a power of ten, so a numeral with many digits
may come out a unit off the nearest double.
-/

namespace LiveFeed.Numeral

/-- A whole number times a power of ten. -/
structure Scaled where
  significand : Nat
  exponent : Int

/-- The largest word. -/
def wordMax : Nat := 18446744073709551615

/-- Adds a digit before the point; once one does not fit, the rest only move the point. -/
def addWhole : Scaled × Bool → Nat → Scaled × Bool
  | (s, full), d =>
    if full || s.significand * 10 + d > wordMax then (⟨s.significand, s.exponent + 1⟩, true)
    else (⟨s.significand * 10 + d, s.exponent⟩, false)

/-- Adds a digit after the point; once one does not fit, the rest are dropped. -/
def addFraction : Scaled × Bool → Nat → Scaled × Bool
  | (s, full), d =>
    if full || s.significand * 10 + d > wordMax then (s, true)
    else (⟨s.significand * 10 + d, s.exponent - 1⟩, false)

/-- The digits of a numeral, gathered. -/
def gather (n : Numeral) : Scaled :=
  let whole := (Nat.toDigits 10 n.whole).map fun c => c.toNat - 48
  let (s, _) := whole.foldl addWhole (⟨0, 0⟩, false)
  let (s, _) := (n.fraction.map (·.val)).foldl addFraction (s, false)
  ⟨s.significand, s.exponent + n.exponent.getD 0⟩

/-- Scales a double by a power of ten; `none` if it leaves the range of doubles.  Below the least
power the double is brought down in steps, after three of which nothing is left of it. -/
def scale? : (steps : Nat) → Float → Int → Option Float
  | 0, _, _ => some 0.0
  | steps + 1, x, e =>
    if e.natAbs ≤ 308 then
      if 0 ≤ e then
        let y := x * Float.ofScientific 1 false e.toNat
        if y.isInf then none else some y
      else some (x / Float.ofScientific 1 false e.natAbs)
    else if x == 0.0 then some x
    else if 0 ≤ e then none
    else scale? steps (x / Float.ofScientific 1 false 308) (e + 308)

/-- The double a numeral stands for, if it is in range. -/
def toFloat? (n : Numeral) : Option Float :=
  let s := gather n
  (scale? 5 (Float.ofNat s.significand) s.exponent).map fun x => if n.negative then -x else x

end LiveFeed.Numeral
