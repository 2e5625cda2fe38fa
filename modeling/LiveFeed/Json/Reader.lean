import LiveFeed.Json.Scan

/-!
# Reading JSON text

A text is read token by token by a machine with a stack of unfinished containers, so nesting has no
limit.  The reading is lenient: a string literal with a lone surrogate is read as a string without
text, and whoever needs the text refuses it.

* `token_shorter`: a token takes at least one character, so the machine reaches the end;
* `Json.read?`: the value that a whole text spells.
-/

namespace LiveFeed.Json

/-- A token; scalars are whole values. -/
inductive Token where
  | scalar (v : Json)
  | openArray
  | closeArray
  | openObject
  | closeObject
  | colon
  | comma

/-- The result of a scanner, its fault forgotten. -/
def orNone {α : Type} : Except Fault α → Option α
  | .ok a => some a
  | .error _ => none

/-- Reads the token that starts with `c`. -/
def token? (c : Char) (r : List Char) : Option (Token × List Char) :=
  if c = '[' then some (.openArray, r)
  else if c = ']' then some (.closeArray, r)
  else if c = '\x7b' then some (.openObject, r)
  else if c = '\x7d' then some (.closeObject, r)
  else if c = ':' then some (.colon, r)
  else if c = ',' then some (.comma, r)
  else if c = '"' then (orNone (literal .lenient r)).map fun (t, s) => (.scalar (.str t), s)
  else if c = 'n' then (orNone (word "ull".toList r)).map fun s => (.scalar .null, s)
  else if c = 't' then (orNone (word "rue".toList r)).map fun s => (.scalar (.bool true), s)
  else if c = 'f' then (orNone (word "alse".toList r)).map fun s => (.scalar (.bool false), s)
  else (orNone (numeral (c :: r))).map fun (n, s) => (.scalar (.num n), s)

/-! ## Tokens take input -/

theorem word_length {ls s r : List Char} (h : word ls s = .ok r) : r.length ≤ s.length := by
  induction ls generalizing s with
  | nil =>
    simp only [word, Except.ok.injEq] at h
    exact Nat.le_of_eq (congrArg List.length h.symm)
  | cons l ls ih =>
    cases s with
    | nil => simp [word] at h
    | cons c t =>
      simp only [word] at h
      split at h
      · have := ih h
        simp only [List.length_cons]
        omega
      · simp at h

theorem digits_length (s : List Char) : (digits s).2.length ≤ s.length := by
  induction s with
  | nil => simp [digits]
  | cons c r ih =>
    simp only [digits]
    split
    · simp only [List.length_cons]
      omega
    · simp

theorem wholePart_length {s r : List Char} {n : Nat} (h : wholePart s = .ok (n, r)) :
    r.length < s.length := by
  unfold wholePart at h
  split at h
  · simp at h
  · next c t =>
    split at h
    · split at h
      · simp only [Except.ok.injEq, Prod.mk.injEq] at h
        rw [← h.2]
        simp
      · split at h
        · simp at h
        · simp only [Except.ok.injEq, Prod.mk.injEq] at h
          rw [← h.2]
          simp
    · split at h
      · next hd =>
        simp only [Except.ok.injEq, Prod.mk.injEq] at h
        rw [← h.2]
        obtain ⟨d, hd⟩ := Option.isSome_iff_exists.1 hd
        have := digits_length t
        simp only [digits, hd, List.length_cons]
        omega
      · simp at h

theorem fractionPart_length {s r : List Char} {ds : List (Fin 10)}
    (h : fractionPart s = .ok (ds, r)) : r.length ≤ s.length := by
  unfold fractionPart at h
  split at h
  · next t =>
    have := digits_length t
    split at h
    · simp at h
    · simp at h
    · next hd =>
      simp only [Except.ok.injEq, Prod.mk.injEq] at h
      simp only [hd] at this
      rw [← h.2]
      simp only [List.length_cons]
      omega
  · simp only [Except.ok.injEq, Prod.mk.injEq] at h
    exact Nat.le_of_eq (congrArg List.length h.2.symm)

theorem exponentSign_length (s : List Char) : (exponentSign s).2.length ≤ s.length := by
  unfold exponentSign
  split <;> simp

theorem exponentPart_length {s r : List Char} {e : Option Int}
    (h : exponentPart s = .ok (e, r)) : r.length ≤ s.length := by
  unfold exponentPart at h
  split at h
  · simp only [Except.ok.injEq, Prod.mk.injEq] at h
    exact Nat.le_of_eq (congrArg List.length h.2.symm)
  · next c t =>
    split at h
    · have h₁ := exponentSign_length t
      have h₂ := digits_length (exponentSign t).2
      split at h
      · simp at h
      · simp at h
      · next hd =>
        simp only [Except.ok.injEq, Prod.mk.injEq] at h
        simp only [hd] at h₂
        rw [← h.2]
        simp only [List.length_cons]
        omega
    · simp only [Except.ok.injEq, Prod.mk.injEq] at h
      exact Nat.le_of_eq (congrArg List.length h.2.symm)

theorem numeral_length {s r : List Char} {n : Numeral} (h : numeral s = .ok (n, r)) :
    r.length < s.length := by
  simp only [numeral, bind, Except.bind, pure, Except.pure] at h
  split at h
  · simp at h
  · next hw =>
    split at h
    · simp at h
    · next hf =>
      split at h
      · simp at h
      · next he =>
        have h₁ := wholePart_length hw
        have h₂ := fractionPart_length hf
        have h₃ := exponentPart_length he
        simp only [Except.ok.injEq, Prod.mk.injEq] at h
        rw [← h.2]
        have h₄ : (if (s.head? == some '-') = true then s.tail else s).length ≤ s.length := by
          split <;> simp
        omega

theorem literalFrom_length {reading : Reading} {acc : Option (List Char)} {s r : List Char}
    {t : Option String} (h : literalFrom reading acc s = .ok (t, r)) : r.length < s.length := by
  fun_induction literalFrom reading acc s with
  | case1 acc s hq =>
    simp only [Except.ok.injEq, Prod.mk.injEq] at h
    rw [← h.2]
    cases s with
    | nil => simp at hq
    | cons c t => simp
  | case2 => simp at h
  | case3 => simp at h
  | case4 acc s hq p r' hp acc' hacc ih =>
    have h₁ := ih h
    have h₂ := piece_shorter hp
    omega

theorem orNone_eq_some {α : Type} {x : Except Fault α} {a : α} (h : orNone x = some a) :
    x = .ok a := by
  cases x with
  | ok b => simpa [orNone] using h
  | error f => simp [orNone] at h

/-- Behind its first character, a token takes what it takes. -/
theorem token_shorter {c : Char} {r s : List Char} {t : Token} (h : token? c r = some (t, s)) :
    s.length ≤ r.length := by
  unfold token? at h
  repeat' split at h
  all_goals
    first
    | (simp only [Option.some.injEq, Prod.mk.injEq] at h
       exact Nat.le_of_eq (congrArg List.length h.2.symm))
    | (simp only [Option.map_eq_some_iff] at h
       obtain ⟨p, hp, hq⟩ := h
       simp only [Prod.mk.injEq] at hq
       have hp := orNone_eq_some hp
       rw [← hq.2]
       first
       | exact Nat.le_of_lt (literalFrom_length hp)
       | exact word_length hp
       | (have hn := numeral_length hp
          simp only [List.length_cons] at hn
          omega))

theorem skipBlanks_length (s : List Char) : (skipBlanks s).length ≤ s.length :=
  (List.dropWhile_suffix isBlank).length_le

/-! ## The machine -/

/-- A container that is not closed yet; what it holds so far is kept in reverse. -/
inductive Unfinished where
  | items (done : List Json)
  | members (done : List (Option String × Json))
  /-- An object whose member of that name has its value still to come. -/
  | member (done : List (Option String × Json)) (name : Option String)

/-- What the machine waits for. -/
inductive Awaiting where
  | value
  | valueOrClose
  | name
  | nameOrClose
  | colon
  /-- A value was just completed. -/
  | afterValue (v : Json)

/-- The state of the machine. -/
structure Machine where
  stack : List Unfinished
  awaiting : Awaiting

namespace Machine

/-- The machine before any input. -/
def start : Machine := ⟨[], .value⟩

/-- Takes a token where a value may start. -/
def takeValue (stack : List Unfinished) : Token → Option Machine
  | .scalar v => some ⟨stack, .afterValue v⟩
  | .openArray => some ⟨.items [] :: stack, .valueOrClose⟩
  | .openObject => some ⟨.members [] :: stack, .nameOrClose⟩
  | _ => none

/-- Takes a token where a member's name may start. -/
def takeName : List Unfinished → Token → Option Machine
  | .members ms :: stack, .scalar (.str k) => some ⟨.member ms k :: stack, .colon⟩
  | _, _ => none

/-- Takes the token after a value. -/
def takeAfter (v : Json) : List Unfinished → Token → Option Machine
  | .items vs :: stack, .comma => some ⟨.items (v :: vs) :: stack, .value⟩
  | .items vs :: stack, .closeArray => some ⟨stack, .afterValue (.arr (v :: vs).reverse)⟩
  | .member ms k :: stack, .comma => some ⟨.members ((k, v) :: ms) :: stack, .name⟩
  | .member ms k :: stack, .closeObject => some ⟨stack, .afterValue (.obj ((k, v) :: ms).reverse)⟩
  | _, _ => none

/-- Takes one token. -/
def step (m : Machine) (t : Token) : Option Machine :=
  match m.awaiting, m.stack, t with
  | .value, stack, t => takeValue stack t
  | .valueOrClose, .items [] :: stack, .closeArray => some ⟨stack, .afterValue (.arr [])⟩
  | .valueOrClose, stack, t => takeValue stack t
  | .name, stack, t => takeName stack t
  | .nameOrClose, .members [] :: stack, .closeObject => some ⟨stack, .afterValue (.obj [])⟩
  | .nameOrClose, stack, t => takeName stack t
  | .colon, stack, .colon => some ⟨stack, .value⟩
  | .colon, _, _ => none
  | .afterValue v, stack, t => takeAfter v stack t

/-- The value read, if the machine may stop. -/
def result? (m : Machine) : Option Json :=
  match m with
  | ⟨[], .afterValue v⟩ => some v
  | _ => none

/-- Runs the machine over the rest of a text. -/
def run (m : Machine) (s : List Char) : Option Json :=
  match _rest : skipBlanks s with
  | [] => m.result?
  | c :: r =>
    match _taken : token? c r with
    | none => none
    | some (t, s') =>
      match m.step t with
      | none => none
      | some m => run m s'
  termination_by s.length
  decreasing_by
    have h₁ := token_shorter _taken
    have h₂ := skipBlanks_length s
    rw [_rest, List.length_cons] at h₂
    omega

end Machine

/-- The value that a text spells, if it is JSON. -/
def read? (s : String) : Option Json :=
  Machine.start.run s.toList

end LiveFeed.Json
