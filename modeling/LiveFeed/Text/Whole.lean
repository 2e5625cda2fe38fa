/-!
# Whole numbers in text

A whole number up to a limit: digits, with an optional plus sign, and nothing else.  Leading zeros
mean nothing.
-/

namespace LiveFeed.Text

/-- Why a text is no whole number within the limit. -/
inductive WholeError where
  | empty
  | badDigit
  | tooLarge
  deriving DecidableEq, Repr

/-- The wording of such an error. -/
def WholeError.message : WholeError → String
  | .empty => "cannot parse integer from empty string"
  | .badDigit => "invalid digit found in string"
  | .tooLarge => "number too large to fit in target type"

/-- Reads the digits that are left. -/
def wholeFrom (limit : Nat) : Nat → List Char → Except WholeError Nat
  | n, [] => .ok n
  | n, c :: r =>
    if c.isDigit then
      let n := n * 10 + (c.toNat - 48)
      if limit < n then .error .tooLarge else wholeFrom limit n r
    else .error .badDigit

/-- Reads a whole number up to `limit`. -/
def whole (limit : Nat) (s : String) : Except WholeError Nat :=
  match s.toList with
  | [] => .error .empty
  | ['+'] => .error .badDigit
  | '+' :: r => wholeFrom limit 0 r
  | cs => wholeFrom limit 0 cs

end LiveFeed.Text
