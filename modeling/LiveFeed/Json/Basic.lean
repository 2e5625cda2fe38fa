/-!
# JSON values

A value as its text spells it.  Two things are kept that a looser reading would drop: a number keeps
its sign, digits and exponent, because an integer is accepted only in integer spelling; and a string
literal whose escapes leave half of a surrogate pair alone has no text, yet is still a legal literal
where its text is not asked for.
-/

namespace LiveFeed

/-- A number as it is spelled. -/
structure Numeral where
  /-- Whether a minus sign stands in front. -/
  negative : Bool
  /-- The digits before the point. -/
  whole : Nat
  /-- The digits after the point; none at all without a point. -/
  fraction : List (Fin 10)
  /-- The power of ten, if one is written. -/
  exponent : Option Int
  deriving DecidableEq, Repr

namespace Numeral

/-- The spelling of an integer. -/
def ofInt (i : Int) : Numeral :=
  ⟨decide (i < 0), i.natAbs, [], none⟩

/-- The integer a numeral spells; a point, an exponent or a minus before zero make it none. -/
def toInt? (n : Numeral) : Option Int :=
  if n.fraction ≠ [] ∨ n.exponent ≠ none then none
  else if n.negative then (if n.whole = 0 then none else some (-n.whole))
  else some n.whole

theorem toInt?_ofInt (i : Int) : (ofInt i).toInt? = some i := by
  have hplain : ¬ ((ofInt i).fraction ≠ [] ∨ (ofInt i).exponent ≠ none) :=
    not_or.2 ⟨fun h => h rfl, fun h => h rfl⟩
  have hnegative : (ofInt i).negative = decide (i < 0) := rfl
  have hwhole : (ofInt i).whole = i.natAbs := rfl
  rw [toInt?, if_neg hplain, hnegative, hwhole]
  by_cases h : i < 0
  · have hzero : ¬ i.natAbs = 0 := by omega
    rw [if_pos (decide_eq_true h), if_neg hzero]
    exact congrArg some (by omega)
  · have hsign : ¬ decide (i < 0) = true := fun e => h (of_decide_eq_true e)
    rw [if_neg hsign]
    exact congrArg some (by omega)

end Numeral

/-- A JSON value. -/
inductive Json where
  | null
  | bool (b : Bool)
  | num (n : Numeral)
  /-- A string; `none` for a literal that leaves half of a surrogate pair alone. -/
  | str (text : Option String)
  | arr (items : List Json)
  | obj (members : List (Option String × Json))

namespace Json

/-- A string value. -/
def text (s : String) : Json := .str (some s)

/-- An integer value. -/
def int (i : Int) : Json := .num (.ofInt i)

/-- An object with text for member names. -/
def record (members : List (String × Json)) : Json :=
  .obj (members.map fun m => (some m.1, m.2))

/-- The member names of an object, if all of them are text. -/
def namedMembers? : List (Option String × Json) → Option (List (String × Json))
  | [] => some []
  | (none, _) :: _ => none
  | (some k, v) :: r => (namedMembers? r).map ((k, v) :: ·)

theorem namedMembers?_map (ms : List (String × Json)) :
    namedMembers? (ms.map fun m => (some m.1, m.2)) = some ms := by
  induction ms with
  | nil => rfl
  | cons m r ih => simp [namedMembers?, ih]

end Json

end LiveFeed
