/-!
# Blank characters

The characters with the Unicode property `White_Space`, and trimming by it.  Tokens typed by people
and plain-text replies are trimmed by this rule; JSON has a smaller set of its own.
-/

namespace LiveFeed.Text

/-- The Unicode property `White_Space`. -/
def isBlank (c : Char) : Bool :=
  let n := c.toNat
  (9 ≤ n && n ≤ 13) || n == 0x20 || n == 0x85 || n == 0xA0 || n == 0x1680 ||
    (0x2000 ≤ n && n ≤ 0x200A) || n == 0x2028 || n == 0x2029 || n == 0x202F || n == 0x205F ||
    n == 0x3000

theorem isBlank_of_isWhitespace {c : Char} (h : c.isWhitespace = true) : isBlank c = true := by
  simp only [Char.isWhitespace, Bool.or_eq_true, decide_eq_true_eq] at h
  rcases h with ((rfl | rfl) | rfl) | rfl <;> decide

/-- Drops the characters that satisfy `p` from both ends. -/
def trimBy (p : Char → Bool) (cs : List Char) : List Char :=
  ((cs.dropWhile p).reverse.dropWhile p).reverse

/-- Drops blank characters from both ends. -/
def trim (s : String) : String :=
  String.ofList (trimBy isBlank s.toList)

/-- Drops the trailing characters equal to `c`. -/
def trimEnd (c : Char) (cs : List Char) : List Char :=
  (cs.reverse.dropWhile (· == c)).reverse

/-- The parts of a list between the elements that satisfy `p`; there is always one more part than
there are such elements. -/
def splitBy (p : Char → Bool) : List Char → List (List Char)
  | [] => [[]]
  | c :: r =>
    if p c then [] :: splitBy p r
    else
      match splitBy p r with
      | [] => [[c]]
      | part :: parts => (c :: part) :: parts

/-- Whether `part` occurs in `whole` as a block. -/
def occursIn (part : List Char) : List Char → Bool
  | [] => part.isEmpty
  | c :: r => part.isPrefixOf (c :: r) || occursIn part r

end LiveFeed.Text
