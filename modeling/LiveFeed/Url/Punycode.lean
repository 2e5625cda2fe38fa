/-!
# Punycode

The spelling of a label beyond ASCII in letters, digits and hyphens: the ASCII characters first, then
the others in ascending order as differences, each a number of variable length in base 36 whose
digits have thresholds that adapt to the numbers before.
-/

namespace LiveFeed.Url.Punycode

/-- The character of a digit in base 36. -/
def digitChar (d : Nat) : Char :=
  if d < 26 then Char.ofNat (97 + d) else Char.ofNat (22 + d)

/-- The value of a digit in base 36; capitals count as small letters. -/
def digitValue? (c : Char) : Option Nat :=
  let n := c.toNat
  if 97 ≤ n && n ≤ 122 then some (n - 97)
  else if 65 ≤ n && n ≤ 90 then some (n - 65)
  else if 48 ≤ n && n ≤ 57 then some (n - 22)
  else none

/-- The threshold of the digit at position `k`. -/
def threshold (k bias : Nat) : Nat :=
  if k ≤ bias then 1 else if bias + 26 ≤ k then 26 else k - bias

theorem threshold_pos (k bias : Nat) : 1 ≤ threshold k bias := by
  unfold threshold
  split
  · omega
  · split <;> omega

/-- Brings a difference down to the range of the bias, counting the positions. -/
def settle (delta k : Nat) : Nat × Nat :=
  if 455 < delta then settle (delta / 35) (k + 36) else (delta, k)

/-- The bias after a difference, when `points` characters are placed. -/
def adapt (delta points : Nat) (first : Bool) : Nat :=
  let d := if first then delta / 700 else delta / 2
  let (d, k) := settle (d + d / points) 0
  k + 36 * d / (d + 38)

/-- The digits of a difference. -/
def variableDigits (bias k q : Nat) : List Char :=
  let t := threshold k bias
  if q < t then [digitChar q]
  else digitChar (t + (q - t) % (36 - t)) :: variableDigits bias (k + 36) ((q - t) / (36 - t))
  termination_by q
  decreasing_by
    have h := threshold_pos k bias
    have h' := Nat.div_le_self (q - threshold k bias) (36 - threshold k bias)
    omega

/-- The state of encoding: the digits so far, the open difference, the bias, the characters
placed. -/
structure Encoder where
  out : List Char
  delta : Nat
  bias : Nat
  placed : Nat

/-- Passes one character of the label while the characters equal to `m` are placed. -/
def Encoder.pass (basic m : Nat) (e : Encoder) (c : Char) : Encoder :=
  if c.toNat < m then { e with delta := e.delta + 1 }
  else if c.toNat = m then
    { out := e.out ++ variableDigits e.bias 36 e.delta
      delta := 0
      bias := adapt e.delta (e.placed + 1) (e.placed == basic)
      placed := e.placed + 1 }
  else e

/-- Places the characters of a label in ascending order, from `next` on. -/
def place (label : List Char) (basic : Nat) : List Nat → Nat → Encoder → Encoder
  | [], _, e => e
  | m :: ms, next, e =>
    let e := label.foldl (Encoder.pass basic m)
      { e with delta := e.delta + (m - next) * (e.placed + 1) }
    place label basic ms (m + 1) { e with delta := e.delta + 1 }

/-- Puts a number into an ascending list without repetition. -/
def insertOnce (x : Nat) : List Nat → List Nat
  | [] => [x]
  | y :: ys => if x < y then x :: y :: ys else if x = y then y :: ys else y :: insertOnce x ys

/-- The spelling of a label. -/
def encode (label : List Char) : List Char :=
  let basic := label.filter fun c => c.toNat < 0x80
  let others := (label.filter fun c => 0x80 ≤ c.toNat).foldr (fun c l => insertOnce c.toNat l) []
  basic ++ (if basic.isEmpty then [] else ['-']) ++
    (place label basic.length others 128 ⟨[], 0, 72, basic.length⟩).out

/-- Reads a number: its value with what was before it, and the rest. -/
def readNumber : List Char → (i w k bias : Nat) → Option (Nat × List Char)
  | [], _, _, _, _ => none
  | c :: r, i, w, k, bias =>
    match digitValue? c with
    | none => none
    | some d =>
      let t := threshold k bias
      let i := i + d * w
      if d < t then some (i, r) else readNumber r i (w * (36 - t)) (k + 36) bias

theorem readNumber_length {s r : List Char} {i w k bias j : Nat}
    (h : readNumber s i w k bias = some (j, r)) : r.length < s.length := by
  induction s generalizing i w k with
  | nil => simp [readNumber] at h
  | cons c t ih =>
    simp only [readNumber] at h
    split at h
    · simp at h
    · split at h
      · simp only [Option.some.injEq, Prod.mk.injEq] at h
        rw [← h.2]
        simp
      · have := ih h
        simp only [List.length_cons]
        omega

/-- Places characters from the digits that are left. -/
def expand? (out : List Char) (n i bias : Nat) (s : List Char) : Option (List Char) :=
  if s.isEmpty then some out
  else
    match _read : readNumber s i 1 36 bias with
    | none => none
    | some (j, r) =>
      let size := out.length + 1
      let point := n + j / size
      if 0x10FFFF < point || (0xD800 ≤ point && point ≤ 0xDFFF) then none
      else
        let slot := j % size
        expand? (out.take slot ++ Char.ofNat point :: out.drop slot) point (slot + 1)
          (adapt (j - i) size (i == 0)) r
  termination_by s.length
  decreasing_by exact readNumber_length _read

/-- The label that a spelling stands for. -/
def decode? (s : List Char) : Option (List Char) :=
  let tail := (s.reverse.takeWhile (· != '-')).reverse
  let basic := s.take (s.length - tail.length - 1)
  let digits := if tail.length < s.length then tail else s
  if basic.all fun c => c.toNat < 0x80 then expand? basic 128 0 72 digits else none

end LiveFeed.Url.Punycode
