import LiveFeed.Json.Double

/-!
# Plain values

A value that is kept whole before anybody asks what it is has to be plain: every string in it has
text and every number is in the range of doubles.  It must not be nested too deep either.
-/

namespace LiveFeed.Json

mutual

/-- Whether all strings in a value have text and all its numbers are in range. -/
def isPlain : Json → Bool
  | .null => true
  | .bool _ => true
  | .num n => n.toFloat?.isSome
  | .str t => t.isSome
  | .arr vs => arePlain vs
  | .obj ms => arePlainMembers ms

/-- Whether all elements are plain. -/
def arePlain : List Json → Bool
  | [] => true
  | v :: vs => isPlain v && arePlain vs

/-- Whether all members are plain. -/
def arePlainMembers : List (Option String × Json) → Bool
  | [] => true
  | m :: ms => isPlainMember m && arePlainMembers ms

/-- Whether a member is plain. -/
def isPlainMember : Option String × Json → Bool
  | (k, v) => k.isSome && isPlain v

end

mutual

/-- How many containers deep a value goes. -/
def depth : Json → Nat
  | .arr vs => depthOfItems vs + 1
  | .obj ms => depthOfMembers ms + 1
  | .null => 0
  | .bool _ => 0
  | .num _ => 0
  | .str _ => 0

/-- How deep the elements go. -/
def depthOfItems : List Json → Nat
  | [] => 0
  | v :: vs => max (depth v) (depthOfItems vs)

/-- How deep the members go. -/
def depthOfMembers : List (Option String × Json) → Nat
  | [] => 0
  | m :: ms => max (depthOfMember m) (depthOfMembers ms)

/-- How deep a member goes. -/
def depthOfMember : Option String × Json → Nat
  | (_, v) => depth v

end

end LiveFeed.Json
