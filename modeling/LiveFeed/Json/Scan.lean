import LiveFeed.Json.Basic
import LiveFeed.Json.Fault

/-!
# Scanning JSON text

The leaves of the grammar: blanks, the three words, numerals and string literals.  Each scanner takes
the input and gives what it read with the input that is left, or a fault.

* `piece_shorter`: one piece of a string literal takes at least one character, so literals end;
* `literal`: the rest of a string literal after its opening quote.  A strict reading refuses a surrogate
  that stands alone; a lenient one goes on and gives no text.
-/

namespace LiveFeed.Json

/-- Blanks between tokens. -/
def isBlank (c : Char) : Bool :=
  c == ' ' || c == '\t' || c == '\n' || c == '\r'

/-- The input after any blanks. -/
def skipBlanks (s : List Char) : List Char :=
  s.dropWhile isBlank

/-! ## Words -/

/-- Reads the rest of a word letter by letter. -/
def word : (letters : List Char) → (s : List Char) → Except Fault (List Char)
  | [], s => .ok s
  | _ :: _, [] => .error ⟨.endInValue, [], 0⟩
  | l :: ls, c :: r => if c = l then word ls r else .error ⟨.expectedWord, c :: r, 1⟩

/-! ## Numerals -/

/-- The value of a decimal digit. -/
def digit? (c : Char) : Option (Fin 10) :=
  if c.isDigit then some (Fin.ofNat 10 (c.toNat - '0'.toNat)) else none

/-- The digits that the input starts with, and what follows them. -/
def digits : List Char → List (Fin 10) × List Char
  | [] => ([], [])
  | c :: r =>
    match digit? c with
    | some d => let (ds, s) := digits r; (d :: ds, s)
    | none => ([], c :: r)

/-- The number that digits spell. -/
def valueOf (ds : List (Fin 10)) : Nat :=
  ds.foldl (fun n d => n * 10 + d.val) 0

/-- Reads the digits before the point; a zero stands alone. -/
def wholePart : List Char → Except Fault (Nat × List Char)
  | [] => .error ⟨.endInValue, [], 0⟩
  | c :: r =>
    if c = '0' then
      match r with
      | [] => .ok (0, [])
      | d :: r' => if (digit? d).isSome then .error ⟨.badNumber, d :: r', 1⟩ else .ok (0, d :: r')
    else if (digit? c).isSome then
      let (ds, s) := digits (c :: r)
      .ok (valueOf ds, s)
    else .error ⟨.badNumber, c :: r, 1⟩

/-- Reads a point with at least one digit, if a point comes next. -/
def fractionPart : List Char → Except Fault (List (Fin 10) × List Char)
  | '.' :: r =>
    match digits r with
    | ([], []) => .error ⟨.endInValue, [], 1⟩
    | ([], c :: s) => .error ⟨.badNumber, c :: s, 1⟩
    | (ds, s) => .ok (ds, s)
  | s => .ok ([], s)

/-- Drops the sign of an exponent and tells whether it is a minus. -/
def exponentSign : List Char → Bool × List Char
  | '+' :: r => (false, r)
  | '-' :: r => (true, r)
  | s => (false, s)

/-- Reads an exponent, if its letter comes next. -/
def exponentPart : List Char → Except Fault (Option Int × List Char)
  | [] => .ok (none, [])
  | c :: r =>
    if c = 'e' ∨ c = 'E' then
      match digits (exponentSign r).2 with
      | ([], []) => .error ⟨.endInValue, [], 0⟩
      | ([], d :: t) => .error ⟨.badNumber, d :: t, 1⟩
      | (ds, t) => .ok (some (if (exponentSign r).1 then -(valueOf ds : Int) else valueOf ds), t)
    else .ok (none, c :: r)

/-- Reads a numeral. -/
def numeral (s : List Char) : Except Fault (Numeral × List Char) := do
  let negative := s.head? == some '-'
  let (whole, s) ← wholePart (if negative then s.tail else s)
  let (fraction, s) ← fractionPart s
  let (exponent, s) ← exponentPart s
  pure (⟨negative, whole, fraction, exponent⟩, s)

/-! ## String literals -/

/-- The value of a hexadecimal digit. -/
def hexDigit? (c : Char) : Option Nat :=
  let n := c.toNat
  if 48 ≤ n && n ≤ 57 then some (n - 48)
  else if 97 ≤ n && n ≤ 102 then some (n - 87)
  else if 65 ≤ n && n ≤ 70 then some (n - 55)
  else none

/-- Four hexadecimal digits. -/
def hexFour? : List Char → Option (Nat × List Char)
  | a :: b :: c :: d :: r =>
    match hexDigit? a, hexDigit? b, hexDigit? c, hexDigit? d with
    | some a, some b, some c, some d => some (((a * 16 + b) * 16 + c) * 16 + d, r)
    | _, _, _, _ => none
  | _ => none

/-- Reads the code unit of a `\u` escape, behind its letter.  With fewer than four octets left the
text has ended too early. -/
def codeUnit (s : List Char) : Except Fault (Nat × List Char) :=
  match hexFour? s with
  | some r => .ok r
  | none =>
    if (Text.utf8 (s.take 4)).length < 4 then .error ⟨.endInString, [], 0⟩
    else .error ⟨.badEscape, s, 4⟩

/-- Whether a code unit opens a surrogate pair. -/
def opensPair (u : Nat) : Bool := 0xD800 ≤ u && u ≤ 0xDBFF

/-- Whether a code unit closes a surrogate pair. -/
def closesPair (u : Nat) : Bool := 0xDC00 ≤ u && u ≤ 0xDFFF

/-- The character of a surrogate pair. -/
def pairChar (high low : Nat) : Char :=
  Char.ofNat (0x10000 + (high - 0xD800) * 0x400 + (low - 0xDC00))

/-- Reads the second half of a surrogate pair. -/
def closePair (high : Nat) : List Char → Except Fault (Char × List Char)
  | [] => .error ⟨.endInString, [], 0⟩
  | c :: r =>
    if c = '\\' then
      match r with
      | [] => .error ⟨.endInString, [], 0⟩
      | d :: r' =>
        if d = 'u' then do
          let (low, s) ← codeUnit r'
          if closesPair low then .ok (pairChar high low, s) else .error ⟨.loneSurrogate, s, 0⟩
        else .error ⟨.brokenSurrogate, d :: r', 1⟩
    else .error ⟨.brokenSurrogate, c :: r, 1⟩

/-- The character that a one-letter escape stands for. -/
def shortEscape? (c : Char) : Option Char :=
  if c = '"' then some '"'
  else if c = '\\' then some '\\'
  else if c = '/' then some '/'
  else if c = 'b' then some '\x08'
  else if c = 'f' then some '\x0c'
  else if c = 'n' then some '\n'
  else if c = 'r' then some '\r'
  else if c = 't' then some '\t'
  else none

/-- One piece of a string literal. -/
inductive Piece where
  | char (c : Char)
  /-- A surrogate without its partner, with the fault that a strict reading reports. -/
  | unpaired (fault : Fault)

/-- Reads one piece of a string literal, which is not its closing quote. -/
def piece : List Char → Except Fault (Piece × List Char)
  | [] => .error ⟨.endInString, [], 0⟩
  | c :: r =>
    if c = '\\' then
      match r with
      | [] => .error ⟨.endInString, [], 0⟩
      | d :: r' =>
        match shortEscape? d with
        | some e => .ok (.char e, r')
        | none =>
          if d = 'u' then
            match codeUnit r' with
            | .error f => .error f
            | .ok (u, s) =>
              if closesPair u then .ok (.unpaired ⟨.loneSurrogate, s, 0⟩, s)
              else if opensPair u then
                match closePair u s with
                | .ok (e, s') => .ok (.char e, s')
                | .error f => .ok (.unpaired f, s)
              else .ok (.char (Char.ofNat u), s)
          else .error ⟨.badEscape, d :: r', 1⟩
    else if c.toNat < 0x20 then .error ⟨.controlCharacter, c :: r, 1⟩
    else .ok (.char c, r)

theorem hexFour?_length {s r : List Char} {u : Nat} (h : hexFour? s = some (u, r)) :
    r.length < s.length := by
  unfold hexFour? at h
  split at h
  · split at h
    · simp only [Option.some.injEq, Prod.mk.injEq] at h
      rw [← h.2]
      simp only [List.length_cons]
      omega
    · simp at h
  · simp at h

theorem codeUnit_length {s r : List Char} {u : Nat} (h : codeUnit s = .ok (u, r)) :
    r.length < s.length := by
  unfold codeUnit at h
  split at h
  · next p hp =>
    obtain ⟨u', r'⟩ := p
    simp only [Except.ok.injEq, Prod.mk.injEq] at h
    rw [← h.2]
    exact hexFour?_length hp
  · split at h <;> simp at h

theorem closePair_length {high : Nat} {s r : List Char} {c : Char}
    (h : closePair high s = .ok (c, r)) : r.length < s.length := by
  unfold closePair at h
  split at h
  · simp at h
  · split at h
    · split at h
      · simp at h
      · split at h
        · simp only [bind, Except.bind] at h
          split at h
          · simp at h
          · next p hp =>
            obtain ⟨low, t⟩ := p
            have := codeUnit_length hp
            split at h
            · simp only [Except.ok.injEq, Prod.mk.injEq] at h
              rw [← h.2]
              simp only [List.length_cons]
              omega
            · simp at h
        · simp at h
    · simp at h

/-- A piece takes at least one character of the input. -/
theorem piece_shorter {s r : List Char} {p : Piece} (h : piece s = .ok (p, r)) :
    r.length < s.length := by
  unfold piece at h
  split at h
  · simp at h
  · split at h
    · split at h
      · simp at h
      · split at h
        · simp only [Except.ok.injEq, Prod.mk.injEq] at h
          rw [← h.2]
          simp only [List.length_cons]
          omega
        · split at h
          · split at h
            · simp at h
            · next hu =>
              have h₁ := codeUnit_length hu
              split at h
              · simp only [Except.ok.injEq, Prod.mk.injEq] at h
                rw [← h.2]
                simp only [List.length_cons]
                omega
              · split at h
                · split at h
                  · next hc =>
                    have h₂ := closePair_length hc
                    simp only [Except.ok.injEq, Prod.mk.injEq] at h
                    rw [← h.2]
                    simp only [List.length_cons]
                    omega
                  · simp only [Except.ok.injEq, Prod.mk.injEq] at h
                    rw [← h.2]
                    simp only [List.length_cons]
                    omega
                · simp only [Except.ok.injEq, Prod.mk.injEq] at h
                  rw [← h.2]
                  simp only [List.length_cons]
                  omega
          · simp at h
    · split at h
      · simp at h
      · simp only [Except.ok.injEq, Prod.mk.injEq] at h
        rw [← h.2]
        simp only [List.length_cons]
        omega

/-- How a surrogate that stands alone is taken. -/
inductive Reading where
  | strict
  | lenient
  deriving DecidableEq

/-- What a piece adds to the text read so far, kept in reverse. -/
def Piece.addTo (reading : Reading) (acc : Option (List Char)) :
    Piece → Except Fault (Option (List Char))
  | .char c => .ok (acc.map (c :: ·))
  | .unpaired f =>
    match reading with
    | .strict => .error f
    | .lenient => .ok none

/-- Reads the rest of a string literal up to its closing quote. -/
def literalFrom (reading : Reading) (acc : Option (List Char)) (s : List Char) :
    Except Fault (Option String × List Char) :=
  if s.head? = some '"' then .ok (acc.map fun cs => String.ofList cs.reverse, s.tail)
  else
    match _taken : piece s with
    | .error f => .error f
    | .ok (p, r) =>
      match p.addTo reading acc with
      | .error f => .error f
      | .ok acc => literalFrom reading acc r
  termination_by s.length
  decreasing_by exact piece_shorter _taken

/-- Reads a string literal behind its opening quote. -/
def literal (reading : Reading) (s : List Char) : Except Fault (Option String × List Char) :=
  literalFrom reading (some []) s

/-- Whether a character stands for itself in a string literal. -/
def standsForItself (c : Char) : Bool :=
  c ≠ '"' ∧ c ≠ '\\' ∧ 0x20 ≤ c.toNat

theorem piece_of_standsForItself {c : Char} (h : standsForItself c = true) (s : List Char) :
    piece (c :: s) = .ok (.char c, s) := by
  simp only [standsForItself, decide_eq_true_eq] at h
  simp [piece, h.2.1, Nat.not_lt_of_le h.2.2]

/-- A literal without escapes is read as it stands. -/
theorem literalFrom_plain (reading : Reading) (acc cs rest : List Char)
    (h : cs.all standsForItself = true) :
    literalFrom reading (some acc) (cs ++ '"' :: rest) =
      .ok (some (String.ofList (acc.reverse ++ cs)), rest) := by
  induction cs generalizing acc with
  | nil =>
    rw [literalFrom]
    simp
  | cons c cs ih =>
    rw [List.all_cons, Bool.and_eq_true] at h
    have hquote : ¬ (c :: (cs ++ '"' :: rest)).head? = some '"' := by
      have hc := h.1
      simp only [standsForItself, decide_eq_true_eq] at hc
      simpa using hc.1
    rw [List.cons_append, literalFrom, if_neg hquote]
    split
    · next f hf =>
      rw [piece_of_standsForItself h.1] at hf
      cases hf
    · next p r hp =>
      rw [piece_of_standsForItself h.1] at hp
      cases hp
      simp [Piece.addTo, ih (c :: acc) h.2]

end LiveFeed.Json
