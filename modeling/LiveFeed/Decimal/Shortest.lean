/-!
# Shortest decimals

The fewest decimal digits that read back as a given double.  The double is `m · 2^q`; the numbers
that round to it form an interval whose ends count if and only if `m` is even.  For one, two, …,
seventeen digits the two decimals next to the double on that grid are tested in exact arithmetic; the
first grid with a hit wins, of two hits the nearer, and an exact tie goes to the even digit.
-/

namespace LiveFeed.Decimal

/-- The interval around a positive double, with every number multiplied by `scale`: the double, and
how far it reaches down and up. -/
structure Span where
  scale : Nat
  value : Nat
  below : Nat
  above : Nat
  /-- Whether the ends of the interval count. -/
  closed : Bool

/-- The interval of `m · 2^q`; below a power of two the doubles lie twice as close, unless `m` has
the least exponent. -/
def Span.ofBinary (m : Nat) (q : Int) (least : Bool) : Span :=
  let up := Nat.pow 2 q.toNat
  let closer := m == Nat.pow 2 52 && !least
  { scale := 4 * Nat.pow 2 (-q).toNat
    value := 4 * m * up
    below := if closer then up else 2 * up
    above := 2 * up
    closed := m % 2 == 0 }

/-- Whether `d · 10^e` lies in the interval. -/
def Span.holds (s : Span) (d : Nat) (e : Int) : Bool :=
  let x := d * Nat.pow 10 e.toNat * s.scale
  let v := s.value * Nat.pow 10 (-e).toNat
  let lo := (s.value - s.below) * Nat.pow 10 (-e).toNat
  let hi := (s.value + s.above) * Nat.pow 10 (-e).toNat
  if s.closed then lo ≤ x && x ≤ hi else (lo < x && x < hi) || x == v

/-- How far `d · 10^e` is from the double, in units that depend on `e` only. -/
def Span.distance (s : Span) (d : Nat) (e : Int) : Nat :=
  let x := d * Nat.pow 10 e.toNat * s.scale
  let v := s.value * Nat.pow 10 (-e).toNat
  (x - v) + (v - x)

/-- The power of ten of the first digit of a number that is at least one. -/
def leading (n : Nat) : Nat :=
  if n < 10 then 0 else leading (n / 10) + 1

/-- The power of ten of the first digit of `s.value / s.scale`. -/
def Span.order (s : Span) : Int :=
  if s.scale ≤ s.value then leading (s.value / s.scale)
  else -(leading ((s.scale - 1) / s.value) + 1 : Nat)

/-- The decimal of `n` digits in the interval that is nearest to the double, if one is. -/
def Span.best? (s : Span) (n : Nat) : Option (Nat × Int) :=
  let e := s.order - (n - 1 : Nat)
  let d := s.value * Nat.pow 10 (-e).toNat / (s.scale * Nat.pow 10 e.toNat)
  match s.holds d e, s.holds (d + 1) e with
  | false, false => none
  | true, false => some (d, e)
  | false, true => some (d + 1, e)
  | true, true =>
    let low := s.distance d e
    let high := s.distance (d + 1) e
    if low < high || (low == high && d % 2 == 0) then some (d, e) else some (d + 1, e)

/-- Drops trailing zeros of the digits. -/
def dropZeros : (fuel : Nat) → Nat × Int → Nat × Int
  | 0, p => p
  | fuel + 1, (d, e) => if d % 10 = 0 ∧ d ≠ 0 then dropZeros fuel (d / 10, e + 1) else (d, e)

/-- The shortest decimal `d · 10^e` of a positive double. -/
def Span.shortest (s : Span) : Nat × Int :=
  dropZeros 20 (((List.range 17).findSome? fun n => s.best? (n + 1)).getD (0, 0))

/-- How a double is written: positional notation while the first digit's power of ten lies between
`least` and `most`, with a point always, and beyond that one digit before the point and a signed
exponent. -/
structure Style where
  least : Int
  most : Int

/-- The digits of a decimal in a style. -/
def Style.digits (style : Style) (d : Nat) (e : Int) : String :=
  let ds := (Nat.toDigits 10 d)
  let order := e + (ds.length - 1 : Nat)
  if style.least ≤ order && order ≤ style.most then
    if 0 ≤ e then String.ofList (ds ++ List.replicate e.toNat '0') ++ ".0"
    else if 0 ≤ order then
      String.ofList (ds.take (order.toNat + 1)) ++ "." ++ String.ofList (ds.drop (order.toNat + 1))
    else "0." ++ String.ofList (List.replicate (-order - 1).toNat '0' ++ ds)
  else
    let fraction := String.ofList (ds.drop 1)
    String.ofList (ds.take 1) ++ (if fraction.isEmpty then "" else "." ++ fraction) ++ "e" ++
      (if order < 0 then "-" else "+") ++ toString order.natAbs

/-- The text of a finite double in a style. -/
def Style.write (style : Style) (x : Float) : String :=
  let bits : Nat := x.toBits.toNat
  let sign := if bits / Nat.pow 2 63 = 1 then "-" else ""
  let field : Nat := bits / Nat.pow 2 52 % 2048
  let low : Nat := bits % Nat.pow 2 52
  if field = 0 ∧ low = 0 then sign ++ "0.0"
  else
    let span :=
      if field = 0 then Span.ofBinary low (-1074) true
      else Span.ofBinary (low + Nat.pow 2 52) (Int.ofNat field - 1075) (field == 1)
    let (d, e) := span.shortest
    sign ++ style.digits d e

end LiveFeed.Decimal
