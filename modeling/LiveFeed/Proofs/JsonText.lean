import LiveFeed.Json.Printer
import LiveFeed.Json.Reader

/-!
# JSON text read back

Whatever value is written in compact form is read back as it was: every string, whatever characters
it holds, every numeral in its spelling, and containers nested to any depth.

* `Json.literal_quote`: string literals;
* `Json.numeral_numeralChars`: numerals, in front of what may follow a value;
* `Json.Machine.run_compactChars`: a value anywhere in a text;
* `Json.read?_compact`: a whole text.
-/

namespace LiveFeed.Json

/-! ## String literals -/

theorem hexDigit?_hexChar : ∀ n < 16, hexDigit? (hexChar n) = some n := by
  decide

/-- The escape of a control character is the code unit of that character. -/
theorem codeUnit_control {c : Char} (h : c.toNat < 0x20) (rest : List Char) :
    codeUnit ('0' :: '0' :: hexChar (c.toNat / 16) :: hexChar (c.toNat % 16) :: rest) =
      .ok (c.toNat, rest) := by
  have hzero : hexDigit? '0' = some 0 := by decide
  have hhigh := hexDigit?_hexChar (c.toNat / 16) (by omega)
  have hlow := hexDigit?_hexChar (c.toNat % 16) (by omega)
  have hvalue : ((0 * 16 + 0) * 16 + c.toNat / 16) * 16 + c.toNat % 16 = c.toNat := by omega
  simp only [codeUnit, hexFour?, hzero, hhigh, hlow, hvalue]

/-- A control character without an escape letter of its own. -/
theorem piece_control {c : Char} (h : c.toNat < 0x20) (rest : List Char) :
    piece ('\\' :: 'u' :: '0' :: '0' :: hexChar (c.toNat / 16) :: hexChar (c.toNat % 16) :: rest) =
      .ok (.char c, rest) := by
  have hletter : shortEscape? 'u' = none := by decide
  have hcloses : closesPair c.toNat = false := by
    simp only [closesPair, Bool.and_eq_false_imp, decide_eq_true_eq, decide_eq_false_iff_not]
    omega
  have hopens : opensPair c.toNat = false := by
    simp only [opensPair, Bool.and_eq_false_imp, decide_eq_true_eq, decide_eq_false_iff_not]
    omega
  simp [piece, hletter, codeUnit_control h, hcloses, hopens, Char.ofNat_toNat]

/-- What stands in a literal for a character is read as one piece, which is that character. -/
theorem piece_escapeChar (c : Char) (rest : List Char) :
    piece (escapeChar c ++ rest) = .ok (.char c, rest) := by
  have hshort : ∀ d e, shortEscape? d = some e → piece ('\\' :: d :: rest) = .ok (.char e, rest) := by
    intro d e h
    simp [piece, h]
  unfold escapeChar
  split
  · next h => exact hshort '"' c (by rw [h]; decide)
  split
  · next h => exact hshort '\\' c (by rw [h]; decide)
  split
  · next h => exact hshort 'b' c (by rw [h]; decide)
  split
  · next h => exact hshort 'f' c (by rw [h]; decide)
  split
  · next h => exact hshort 'n' c (by rw [h]; decide)
  split
  · next h => exact hshort 'r' c (by rw [h]; decide)
  split
  · next h => exact hshort 't' c (by rw [h]; decide)
  split
  · next h => exact piece_control h rest
  · next hquote hslash _ _ _ _ _ hplain =>
      refine piece_of_standsForItself ?_ rest
      simpa [standsForItself, hquote, hslash] using hplain

/-- No character ends the literal that it stands in. -/
theorem exists_escapeChar (c : Char) : ∃ d ds, escapeChar c = d :: ds ∧ d ≠ '"' := by
  unfold escapeChar
  split
  · exact ⟨'\\', _, rfl, by decide⟩
  · next hquote =>
      repeat'
        split
        · exact ⟨'\\', _, rfl, by decide⟩
      exact ⟨c, [], rfl, hquote⟩

theorem head?_escapeChar (c : Char) (rest : List Char) :
    (escapeChar c ++ rest).head? ≠ some '"' := by
  rcases exists_escapeChar c with ⟨d, ds, heq, hd⟩
  rw [heq]
  simpa using hd

/-- Reading a literal takes a piece off it. -/
theorem literalFrom_of_piece {s r : List Char} {p : Piece} (hs : s.head? ≠ some '"')
    (hp : piece s = .ok (p, r)) (reading : Reading) (acc : Option (List Char)) :
    literalFrom reading acc s =
      match p.addTo reading acc with
      | .error f => .error f
      | .ok acc => literalFrom reading acc r := by
  rw [literalFrom, if_neg hs]
  split
  · next f hf =>
      rw [hp] at hf
      cases hf
  · next p' r' hp' =>
      rw [hp] at hp'
      cases hp'
      rfl

theorem literalFrom_escaped (reading : Reading) (acc cs rest : List Char) :
    literalFrom reading (some acc) (cs.flatMap escapeChar ++ '"' :: rest) =
      .ok (some (String.ofList (acc.reverse ++ cs)), rest) := by
  induction cs generalizing acc with
  | nil =>
      rw [literalFrom]
      simp
  | cons c cs ih =>
      rw [List.flatMap_cons, List.append_assoc,
        literalFrom_of_piece (head?_escapeChar c _) (piece_escapeChar c _)]
      simp [Piece.addTo, ih]

/-- A literal is read as the string it stands for. -/
theorem literal_quote (reading : Reading) (s : String) (rest : List Char) :
    literal reading (s.toList.flatMap escapeChar ++ '"' :: rest) = .ok (some s, rest) := by
  rw [literal, literalFrom_escaped]
  simp

/-- Half of a surrogate pair is read as a string without text. -/
theorem literal_unpaired (rest : List Char) :
    literal .lenient ('\\' :: 'u' :: 'd' :: '8' :: '0' :: '0' :: '"' :: rest) = .ok (none, rest) := by
  have hunit : codeUnit ('d' :: '8' :: '0' :: '0' :: '"' :: rest) = .ok (0xD800, '"' :: rest) := by
    have hd : hexDigit? 'd' = some 13 := by decide
    have h8 : hexDigit? '8' = some 8 := by decide
    have h0 : hexDigit? '0' = some 0 := by decide
    simp [codeUnit, hexFour?, hd, h8, h0]
  have hpiece : piece ('\\' :: 'u' :: 'd' :: '8' :: '0' :: '0' :: '"' :: rest) =
      .ok (.unpaired ⟨.brokenSurrogate, '"' :: rest, 1⟩, '"' :: rest) := by
    have hletter : shortEscape? 'u' = none := by decide
    have hcloses : closesPair 0xD800 = false := by decide
    have hopens : opensPair 0xD800 = true := by decide
    simp [piece, hletter, hunit, hcloses, hopens, closePair]
  rw [literal, literalFrom_of_piece (by simp) hpiece]
  simp only [Piece.addTo]
  rw [literalFrom]
  simp

/-! ## Numerals -/

theorem digit?_digitChar : ∀ d : Fin 10, digit? (digitChar d) = some d := by
  decide

theorem digitChar_ne_zero : ∀ d : Fin 10, d ≠ 0 → digitChar d ≠ '0' := by
  decide

/-- What follows the digits of a number and is none. -/
def NoDigit (rest : List Char) : Prop :=
  ∀ c r, rest = c :: r → digit? c = none

theorem digits_append (ds : List (Fin 10)) {rest : List Char} (h : NoDigit rest) :
    digits (ds.map digitChar ++ rest) = (ds, rest) := by
  induction ds with
  | nil =>
      cases rest with
      | nil => rfl
      | cons c r => simp [digits, h c r rfl]
  | cons d ds ih => simp [digits, digit?_digitChar, ih]

theorem valueOf_append (ds : List (Fin 10)) (d : Fin 10) :
    valueOf (ds ++ [d]) = valueOf ds * 10 + d.val := by
  simp [valueOf]

theorem valueOf_decimal (n : Nat) : valueOf (decimal n) = n := by
  induction n using Nat.strongRecOn with
  | _ n ih =>
      rw [decimal]
      split
      · next h => simp [valueOf, Nat.mod_eq_of_lt h]
      · next h =>
          rw [valueOf_append, ih (n / 10) (by omega)]
          simp only [Fin.ofNat]
          omega

/-- The decimal digits of a number start with a zero only if it is zero. -/
theorem decimal_cases (n : Nat) :
    n = 0 ∧ decimal n = [0] ∨ ∃ d ds, decimal n = d :: ds ∧ d ≠ 0 := by
  induction n using Nat.strongRecOn with
  | _ n ih =>
      rw [decimal]
      split
      · next h =>
          by_cases h0 : n = 0
          · exact .inl ⟨h0, by rw [h0]; rfl⟩
          · refine .inr ⟨_, [], rfl, ?_⟩
            intro heq
            have := congrArg Fin.val heq
            simp [Nat.mod_eq_of_lt h] at this
            exact h0 this
      · next h =>
          rcases ih (n / 10) (by omega) with ⟨h0, -⟩ | ⟨d, ds, heq, hd⟩
          · omega
          · exact .inr ⟨d, ds ++ [Fin.ofNat 10 n], by rw [heq]; rfl, hd⟩

theorem wholePart_natChars (n : Nat) {rest : List Char} (h : NoDigit rest) :
    wholePart (natChars n ++ rest) = .ok (n, rest) := by
  rcases decimal_cases n with ⟨rfl, hzero⟩ | ⟨d, ds, heq, hd⟩
  · have hchar : natChars 0 = ['0'] := by
      rw [natChars, hzero]
      rfl
    rw [hchar]
    cases rest with
    | nil => rfl
    | cons c r => simp [wholePart, h c r rfl]
  · have hne : digitChar d ≠ '0' := digitChar_ne_zero d hd
    have hread : digits (natChars n ++ rest) = (decimal n, rest) := digits_append _ h
    rw [natChars, heq, List.map_cons, List.cons_append] at hread ⊢
    simp [wholePart, hne, digit?_digitChar, hread, ← heq, valueOf_decimal]

/-- What may follow a numeral: nothing that would go on with it. -/
def EndsNumeral (rest : List Char) : Prop :=
  ∀ c r, rest = c :: r → digit? c = none ∧ c ≠ '.' ∧ c ≠ 'e' ∧ c ≠ 'E'

theorem EndsNumeral.noDigit {rest : List Char} (h : EndsNumeral rest) : NoDigit rest :=
  fun c r heq => (h c r heq).1

/-- The characters of an exponent. -/
def exponentChars : Option Int → List Char
  | none => []
  | some e => 'e' :: intChars e

/-- The characters of the digits behind a point. -/
def fractionChars (ds : List (Fin 10)) : List Char :=
  if ds.isEmpty then [] else '.' :: ds.map digitChar

theorem noDigit_exponentChars (e : Option Int) {rest : List Char} (h : EndsNumeral rest) :
    NoDigit (exponentChars e ++ rest) := by
  cases e with
  | none => exact h.noDigit
  | some e =>
      intro c r heq
      obtain rfl : c = 'e' := (List.cons.inj heq).1.symm
      decide

theorem fractionPart_fractionChars (ds : List (Fin 10)) (e : Option Int) {rest : List Char}
    (h : EndsNumeral rest) :
    fractionPart (fractionChars ds ++ (exponentChars e ++ rest)) =
      .ok (ds, exponentChars e ++ rest) := by
  cases ds with
  | nil =>
      have hpoint : ∀ r, exponentChars e ++ rest ≠ '.' :: r := by
        intro r heq
        cases e with
        | none => exact (h '.' r heq).2.1 rfl
        | some e => exact absurd (List.cons.inj heq).1 (by decide)
      have hnone : fractionChars [] = [] := rfl
      rw [hnone, List.nil_append, fractionPart]
      exact hpoint
  | cons d ds =>
      have hread := digits_append (d :: ds) (noDigit_exponentChars e h)
      simp only [fractionChars, List.isEmpty_cons, Bool.false_eq_true, if_false, List.cons_append,
        fractionPart, hread]

theorem exists_natChars (n : Nat) : ∃ d ds, natChars n = digitChar d :: ds := by
  rcases decimal_cases n with ⟨-, heq⟩ | ⟨d, ds, heq, -⟩
  · exact ⟨0, [], by rw [natChars, heq]; rfl⟩
  · exact ⟨d, ds.map digitChar, by rw [natChars, heq]; rfl⟩

theorem digitChar_ne_sign : ∀ d : Fin 10, digitChar d ≠ '+' ∧ digitChar d ≠ '-' := by
  decide

theorem exponentSign_natChars (n : Nat) (rest : List Char) :
    exponentSign (natChars n ++ rest) = (false, natChars n ++ rest) := by
  rcases exists_natChars n with ⟨d, ds, heq⟩
  rw [heq, List.cons_append]
  unfold exponentSign
  split
  · next hc => exact absurd (List.cons.inj hc).1 (digitChar_ne_sign d).1
  · next hc => exact absurd (List.cons.inj hc).1 (digitChar_ne_sign d).2
  · rfl

theorem decimal_ne_nil (n : Nat) : decimal n ≠ [] := by
  rcases decimal_cases n with ⟨-, heq⟩ | ⟨d, ds, heq, -⟩ <;> simp [heq]

theorem exponentPart_of_digits {r t : List Char} {ds : List (Fin 10)}
    (hread : digits (exponentSign r).2 = (ds, t)) (hne : ds ≠ []) :
    exponentPart ('e' :: r) =
      .ok (some (if (exponentSign r).1 then -(valueOf ds : Int) else valueOf ds), t) := by
  cases ds with
  | nil => exact absurd rfl hne
  | cons d ds => simp [exponentPart, hread]

theorem exponentPart_exponentChars (e : Option Int) {rest : List Char} (h : EndsNumeral rest) :
    exponentPart (exponentChars e ++ rest) = .ok (e, rest) := by
  cases e with
  | none =>
      cases rest with
      | nil => rfl
      | cons c r =>
          have hc := h c r rfl
          simp [exponentChars, exponentPart, hc.2.2.1, hc.2.2.2]
  | some e =>
      have hread : ∀ n, digits (natChars n ++ rest) = (decimal n, rest) := fun n =>
        digits_append _ h.noDigit
      rw [exponentChars, List.cons_append, intChars]
      split
      · next hneg =>
          have hsign : exponentSign ('-' :: natChars e.natAbs ++ rest) =
              (true, natChars e.natAbs ++ rest) := rfl
          rw [exponentPart_of_digits (by rw [hsign]; exact hread _) (decimal_ne_nil _), hsign,
            valueOf_decimal]
          simp only [if_true]
          congr 3
          omega
      · next hpos =>
          have hsign := exponentSign_natChars e.natAbs rest
          rw [exponentPart_of_digits (by rw [hsign]; exact hread _) (decimal_ne_nil _), hsign,
            valueOf_decimal]
          simp only [Bool.false_eq_true, if_false]
          congr 3
          omega

theorem numeralChars_eq (n : Numeral) :
    numeralChars n = (if n.negative then ['-'] else []) ++
      (natChars n.whole ++ (fractionChars n.fraction ++ exponentChars n.exponent)) := by
  cases he : n.exponent <;> simp [numeralChars, fractionChars, exponentChars, he]

theorem numeral_of_parts {s t u v : List Char} {n : Numeral}
    (hsign : (s.head? == some '-') = n.negative)
    (hwhole : wholePart (if n.negative then s.tail else s) = .ok (n.whole, t))
    (hfraction : fractionPart t = .ok (n.fraction, u))
    (hexponent : exponentPart u = .ok (n.exponent, v)) : numeral s = .ok (n, v) := by
  simp [numeral, hsign, bind, Except.bind, hwhole, hfraction, hexponent, pure, Except.pure]

/-- A numeral is read in the spelling in which it was written. -/
theorem numeral_numeralChars (n : Numeral) {rest : List Char} (h : EndsNumeral rest) :
    numeral (numeralChars n ++ rest) = .ok (n, rest) := by
  have hdigit : NoDigit (fractionChars n.fraction ++ (exponentChars n.exponent ++ rest)) := by
    cases n.fraction with
    | nil => exact noDigit_exponentChars n.exponent h
    | cons d ds =>
        intro c r heq
        obtain rfl : c = '.' := (List.cons.inj heq).1.symm
        decide
  have hwhole := wholePart_natChars n.whole hdigit
  refine numeral_of_parts (t := fractionChars n.fraction ++ (exponentChars n.exponent ++ rest)) ?_ ?_
    (fractionPart_fractionChars n.fraction n.exponent h)
    (exponentPart_exponentChars n.exponent h)
  · rw [numeralChars_eq]
    cases n.negative with
    | true => rfl
    | false =>
        rcases exists_natChars n.whole with ⟨d, ds, heq⟩
        rw [heq]
        simpa using (digitChar_ne_sign d).2
  · rw [numeralChars_eq]
    simp only [List.append_assoc]
    cases n.negative with
    | true => exact hwhole
    | false => exact hwhole

/-! ## Tokens -/

theorem token?_quote (s : String) (rest : List Char) :
    token? '"' (s.toList.flatMap escapeChar ++ '"' :: rest) =
      some (.scalar (.str (some s)), rest) := by
  simp [token?, literal_quote, orNone]

theorem token?_unpaired (rest : List Char) :
    token? '"' ('\\' :: 'u' :: 'd' :: '8' :: '0' :: '0' :: '"' :: rest) =
      some (.scalar (.str none), rest) := by
  simp [token?, literal_unpaired, orNone]

theorem token?_null (rest : List Char) :
    token? 'n' ('u' :: 'l' :: 'l' :: rest) = some (.scalar .null, rest) := by
  simp [token?, word, orNone]

theorem token?_true (rest : List Char) :
    token? 't' ('r' :: 'u' :: 'e' :: rest) = some (.scalar (.bool true), rest) := by
  simp [token?, word, orNone]

theorem token?_false (rest : List Char) :
    token? 'f' ('a' :: 'l' :: 's' :: 'e' :: rest) = some (.scalar (.bool false), rest) := by
  simp [token?, word, orNone]

/-- The first character of a numeral is that of no other token. -/
theorem token?_numeralChars (n : Numeral) {rest : List Char} (h : EndsNumeral rest) :
    ∃ c r, numeralChars n ++ rest = c :: r ∧ isBlank c = false ∧
      token? c r = some (.scalar (.num n), rest) := by
  have hread := numeral_numeralChars n h
  have hother : ∀ c r, numeralChars n ++ rest = c :: r →
      (isBlank c = false ∧ c ≠ '[' ∧ c ≠ ']' ∧ c ≠ '\x7b' ∧ c ≠ '\x7d' ∧ c ≠ ':' ∧ c ≠ ',' ∧ c ≠ '"' ∧
        c ≠ 'n' ∧ c ≠ 't' ∧ c ≠ 'f') →
      isBlank c = false ∧ token? c r = some (.scalar (.num n), rest) := by
    rintro c r heq ⟨hblank, h1, h2, h3, h4, h5, h6, h7, h8, h9, h10⟩
    rw [heq] at hread
    refine ⟨hblank, ?_⟩
    simp [token?, h1, h2, h3, h4, h5, h6, h7, h8, h9, h10, hread, orNone]
  have hdigit : ∀ d : Fin 10, isBlank (digitChar d) = false ∧ digitChar d ≠ '[' ∧
      digitChar d ≠ ']' ∧ digitChar d ≠ '\x7b' ∧ digitChar d ≠ '\x7d' ∧ digitChar d ≠ ':' ∧
      digitChar d ≠ ',' ∧ digitChar d ≠ '"' ∧ digitChar d ≠ 'n' ∧ digitChar d ≠ 't' ∧
      digitChar d ≠ 'f' := by
    decide
  rcases exists_natChars n.whole with ⟨d, ds, hwhole⟩
  have heq := numeralChars_eq n
  rw [hwhole] at heq
  cases hn : n.negative with
  | true =>
      rw [hn] at heq
      refine ⟨'-', _, by rw [heq]; rfl, hother '-' _ (by rw [heq]; rfl) (by decide)⟩
  | false =>
      rw [hn] at heq
      refine ⟨digitChar d, _, by rw [heq]; rfl, hother _ _ (by rw [heq]; rfl) (hdigit d)⟩

/-! ## Values -/

namespace Machine

/-- What may follow a value: the end of the text, a comma or the end of a container. -/
def Stops (rest : List Char) : Prop :=
  rest = [] ∨ ∃ c r, rest = c :: r ∧ (c = ',' ∨ c = ']' ∨ c = '\x7d')

theorem Stops.endsNumeral {rest : List Char} (h : Stops rest) : EndsNumeral rest := by
  rintro c r heq
  rcases h with rfl | ⟨d, s, rfl, hd⟩
  · cases heq
  · obtain rfl : d = c := (List.cons.inj heq).1
    rcases hd with rfl | rfl | rfl <;> decide

/-- The machine takes the token that comes next. -/
theorem run_token {m m' : Machine} {c : Char} {r s : List Char} {t : Token}
    (hblank : isBlank c = false) (ht : token? c r = some (t, s)) (hm : m.step t = some m') :
    m.run (c :: r) = m'.run s := by
  have hskip : skipBlanks (c :: r) = c :: r := by simp [skipBlanks, hblank]
  rw [run]
  split
  · next hnil =>
      rw [hskip] at hnil
      cases hnil
  · next c' r' hcons =>
      rw [hskip] at hcons
      cases hcons
      split
      · next hnone =>
          rw [ht] at hnone
          cases hnone
      · next t' s' hsome =>
          rw [ht] at hsome
          cases hsome
          rw [hm]

/-- A machine that takes the next token for the start of a value. -/
def Expects (m : Machine) (stack : List Unfinished) : Prop :=
  ∀ t, t ≠ .closeArray → m.step t = takeValue stack t

theorem expects_value (stack : List Unfinished) : Expects ⟨stack, .value⟩ stack :=
  fun _ _ => rfl

theorem expects_firstItem (stack : List Unfinished) :
    Expects ⟨.items [] :: stack, .valueOrClose⟩ (.items [] :: stack) := by
  intro t ht
  cases t with
  | closeArray => exact absurd rfl ht
  | scalar _ | openArray | openObject | closeObject | colon | comma => rfl

theorem run_scalar {m : Machine} {stack : List Unfinished} (hm : m.Expects stack) {c : Char}
    {r rest : List Char} {v : Json} (hblank : isBlank c = false)
    (ht : token? c r = some (.scalar v, rest)) :
    m.run (c :: r) = run ⟨stack, .afterValue v⟩ rest :=
  run_token hblank ht (hm _ (fun h => by cases h))

theorem run_quoteOption {m m' : Machine} {k : Option String} {rest : List Char}
    (hm : m.step (.scalar (.str k)) = some m') : m.run (quoteOption k ++ rest) = m'.run rest := by
  cases k with
  | none =>
      have hquote : quoteOption none = ['"', '\\', 'u', 'd', '8', '0', '0', '"'] := by decide
      rw [hquote]
      exact run_token (by decide) (token?_unpaired rest) hm
  | some s =>
      have hquote : quoteOption (some s) ++ rest =
          '"' :: (s.toList.flatMap escapeChar ++ '"' :: rest) := by
        have hsome : quoteOption (some s) = quote s := rfl
        simp [hsome, quote]
      rw [hquote]
      exact run_token (by decide) (token?_quote s rest) hm

theorem stops_moreItemChars (vs : List Json) (rest : List Char) :
    Stops (moreItemChars vs ++ ']' :: rest) := by
  cases vs with
  | nil => exact .inr ⟨']', rest, rfl, .inr (.inl rfl)⟩
  | cons v vs => exact .inr ⟨',', _, rfl, .inl rfl⟩

theorem stops_moreMemberChars (ms : List (Option String × Json)) (rest : List Char) :
    Stops (moreMemberChars ms ++ '\x7d' :: rest) := by
  cases ms with
  | nil => exact .inr ⟨'\x7d', rest, rfl, .inr (.inr rfl)⟩
  | cons p ms => exact .inr ⟨',', _, rfl, .inl rfl⟩

mutual

/-- Where a value is expected, the characters of a value are read as that value. -/
theorem run_compactChars : (v : Json) → {m : Machine} → {stack : List Unfinished} →
    {rest : List Char} → m.Expects stack → Stops rest →
    m.run (compactChars v ++ rest) = run ⟨stack, .afterValue v⟩ rest
  | .null, m, stack, rest, hm, _ => by
      have hchars : compactChars .null ++ rest = 'n' :: 'u' :: 'l' :: 'l' :: rest := by
        simp [compactChars]
      rw [hchars, run_scalar hm (by decide) (token?_null rest)]
  | .bool true, m, stack, rest, hm, _ => by
      have hchars : compactChars (.bool true) ++ rest = 't' :: 'r' :: 'u' :: 'e' :: rest := by
        simp [compactChars]
      rw [hchars, run_scalar hm (by decide) (token?_true rest)]
  | .bool false, m, stack, rest, hm, _ => by
      have hchars : compactChars (.bool false) ++ rest =
          'f' :: 'a' :: 'l' :: 's' :: 'e' :: rest := by
        simp [compactChars]
      rw [hchars, run_scalar hm (by decide) (token?_false rest)]
  | .num n, m, stack, rest, hm, hrest => by
      rcases token?_numeralChars n hrest.endsNumeral with ⟨c, r, heq, hblank, ht⟩
      rw [compactChars, heq]
      exact run_scalar hm hblank ht
  | .str t, m, stack, rest, hm, _ => by
      rw [compactChars]
      exact run_quoteOption (hm _ (fun h => by cases h))
  | .arr [], m, stack, rest, hm, _ => by
      have hopen : m.step .openArray = some ⟨.items [] :: stack, .valueOrClose⟩ :=
        hm _ (fun h => by cases h)
      have hchars : compactChars (.arr []) ++ rest = '[' :: ']' :: rest := rfl
      rw [hchars, run_token (by decide) rfl hopen]
      exact run_token (by decide) rfl rfl
  | .arr (v :: vs), m, stack, rest, hm, _ => by
      have hopen : m.step .openArray = some ⟨.items [] :: stack, .valueOrClose⟩ :=
        hm _ (fun h => by cases h)
      have hchars : compactChars (.arr (v :: vs)) ++ rest =
          '[' :: (compactChars v ++ (moreItemChars vs ++ ']' :: rest)) := by
        simp [compactChars, itemChars]
      rw [hchars, run_token (by decide) rfl hopen,
        run_compactChars v (expects_firstItem stack) (stops_moreItemChars vs rest)]
      exact run_moreItemChars vs stack [] v rest
  | .obj [], m, stack, rest, hm, _ => by
      have hopen : m.step .openObject = some ⟨.members [] :: stack, .nameOrClose⟩ :=
        hm _ (fun h => by cases h)
      have hchars : compactChars (.obj []) ++ rest = '\x7b' :: '\x7d' :: rest := rfl
      rw [hchars, run_token (by decide) rfl hopen]
      exact run_token (by decide) rfl rfl
  | .obj (p :: ms), m, stack, rest, hm, _ => by
      have hopen : m.step .openObject = some ⟨.members [] :: stack, .nameOrClose⟩ :=
        hm _ (fun h => by cases h)
      have hchars : compactChars (.obj (p :: ms)) ++ rest =
          '\x7b' :: (memberChar p ++ (moreMemberChars ms ++ '\x7d' :: rest)) := by
        simp [compactChars, memberChars]
      rw [hchars, run_token (by decide) rfl hopen,
        run_memberChar p (fun k => rfl) (stops_moreMemberChars ms rest)]
      exact run_moreMemberChars ms stack [] p.1 p.2 rest

/-- Behind an element, the rest of an array is read. -/
theorem run_moreItemChars : (vs : List Json) → (stack : List Unfinished) → (done : List Json) →
    (v : Json) → (rest : List Char) →
    run ⟨.items done :: stack, .afterValue v⟩ (moreItemChars vs ++ ']' :: rest) =
      run ⟨stack, .afterValue (.arr (done.reverse ++ v :: vs))⟩ rest
  | [], stack, done, v, rest => by
      have harr : done.reverse ++ [v] = (v :: done).reverse := by simp
      rw [harr]
      exact run_token (by decide) rfl rfl
  | w :: vs, stack, done, v, rest => by
      have hchars : moreItemChars (w :: vs) ++ ']' :: rest =
          ',' :: (compactChars w ++ (moreItemChars vs ++ ']' :: rest)) := by
        simp [moreItemChars]
      have hcomma : step ⟨.items done :: stack, .afterValue v⟩ .comma =
          some ⟨.items (v :: done) :: stack, .value⟩ := rfl
      rw [hchars, run_token (by decide) rfl hcomma,
        run_compactChars w (expects_value _) (stops_moreItemChars vs rest),
        run_moreItemChars vs stack (v :: done) w rest]
      simp

/-- Where a name is expected, a member is read up to its value. -/
theorem run_memberChar : (p : Option String × Json) → {m : Machine} →
    {done : List (Option String × Json)} → {stack : List Unfinished} → {rest : List Char} →
    (∀ k, m.step (.scalar (.str k)) = some ⟨.member done k :: stack, .colon⟩) → Stops rest →
    m.run (memberChar p ++ rest) = run ⟨.member done p.1 :: stack, .afterValue p.2⟩ rest
  | (k, v), m, done, stack, rest, hm, hrest => by
      have hchars : memberChar (k, v) ++ rest = quoteOption k ++ (':' :: (compactChars v ++ rest)) := by
        simp [memberChar]
      have hcolon : step ⟨.member done k :: stack, .colon⟩ .colon =
          some ⟨.member done k :: stack, .value⟩ := rfl
      rw [hchars, run_quoteOption (hm k), run_token (by decide) rfl hcolon,
        run_compactChars v (expects_value _) hrest]

/-- Behind a member, the rest of an object is read. -/
theorem run_moreMemberChars : (ms : List (Option String × Json)) → (stack : List Unfinished) →
    (done : List (Option String × Json)) → (k : Option String) → (v : Json) → (rest : List Char) →
    run ⟨.member done k :: stack, .afterValue v⟩ (moreMemberChars ms ++ '\x7d' :: rest) =
      run ⟨stack, .afterValue (.obj (done.reverse ++ (k, v) :: ms))⟩ rest
  | [], stack, done, k, v, rest => by
      have hobj : done.reverse ++ [(k, v)] = ((k, v) :: done).reverse := by simp
      rw [hobj]
      exact run_token (by decide) rfl rfl
  | p :: ms, stack, done, k, v, rest => by
      have hchars : moreMemberChars (p :: ms) ++ '\x7d' :: rest =
          ',' :: (memberChar p ++ (moreMemberChars ms ++ '\x7d' :: rest)) := by
        simp [moreMemberChars]
      have hcomma : step ⟨.member done k :: stack, .afterValue v⟩ .comma =
          some ⟨.members ((k, v) :: done) :: stack, .name⟩ := rfl
      rw [hchars, run_token (by decide) rfl hcomma,
        run_memberChar p (fun k => rfl) (stops_moreMemberChars ms rest),
        run_moreMemberChars ms stack ((k, v) :: done) p.1 p.2 rest]
      simp

end

end Machine

/-- A value is read from its compact form as it was. -/
theorem read?_compact (v : Json) : read? v.compact = some v := by
  have hrun := Machine.run_compactChars v (Machine.expects_value []) (.inl rfl)
  rw [read?, compact, String.toList_ofList, Machine.start, ← List.append_nil (compactChars v), hrun,
    Machine.run]
  rfl

end LiveFeed.Json
