import LiveFeed.Proofs.JsonText

/-!
# What a string literal denotes

The grammar of string literals, apart from the scanner that reads them: which spellings one character
has, and which text a literal denotes.  A strict reading accepts exactly the literals of the grammar.

* `Letter`, `Denotes`: the spellings of a character and of a text;
* `piece_letter`, `exists_letter_of_piece`: one piece of a literal;
* `literal_strict_iff`: a whole literal;
* `skipBlanks_eq_cons_iff`: what stands behind blanks.
-/

namespace LiveFeed.Json

/-! ## The grammar -/

/-- The letters behind a backslash and what they stand for. -/
def shortEscapes : List (Char × Char) :=
  [('"', '"'), ('\\', '\\'), ('/', '/'), ('b', '\x08'), ('f', '\x0c'), ('n', '\n'), ('r', '\r'),
    ('t', '\t')]

/-- A hexadecimal digit in either case and its value. -/
def IsHexDigit (c : Char) (n : Nat) : Prop :=
  "0123456789abcdef".toList[n]? = some c ∨ "0123456789ABCDEF".toList[n]? = some c

/-- Four hexadecimal digits and the code unit that they spell. -/
inductive CodeUnit : List Char → Nat → Prop where
  | digits {c₃ c₂ c₁ c₀ : Char} {n₃ n₂ n₁ n₀ : Nat} (h₃ : IsHexDigit c₃ n₃) (h₂ : IsHexDigit c₂ n₂)
      (h₁ : IsHexDigit c₁ n₁) (h₀ : IsHexDigit c₀ n₀) :
      CodeUnit [c₃, c₂, c₁, c₀] (n₃ * 4096 + n₂ * 256 + n₁ * 16 + n₀)

/-- The spellings of one character inside a string literal. -/
inductive Letter : List Char → Char → Prop where
  /-- Itself, unless it would end the literal or start an escape or is a control character. -/
  | plain {c : Char} (quote : c ≠ '"') (backslash : c ≠ '\\') (control : 0x20 ≤ c.toNat) :
      Letter [c] c
  | short {d c : Char} (h : (d, c) ∈ shortEscapes) : Letter ['\\', d] c
  /-- The code unit of a character that has one of its own. -/
  | unit {digits : List Char} {u : Nat} (h : CodeUnit digits u) (hu : u < 0xD800 ∨ 0xE000 ≤ u) :
      Letter ('\\' :: 'u' :: digits) (Char.ofNat u)
  /-- The surrogate pair of any other character. -/
  | pair {digits digits' : List Char} {u v : Nat} (high : CodeUnit digits (0xD800 + u))
      (hu : u < 0x400) (low : CodeUnit digits' (0xDC00 + v)) (hv : v < 0x400) :
      Letter ('\\' :: 'u' :: (digits ++ '\\' :: 'u' :: digits'))
        (Char.ofNat (0x10000 + u * 0x400 + v))

/-- The source of a string literal, between its quotes, and the text that it denotes. -/
inductive Denotes : List Char → List Char → Prop where
  | nil : Denotes [] []
  | cons {letter source text : List Char} {c : Char} (head : Letter letter c)
      (tail : Denotes source text) : Denotes (letter ++ source) (c :: text)

/-! ## Code units -/

instance (c : Char) (n : Nat) : Decidable (IsHexDigit c n) :=
  inferInstanceAs (Decidable (_ ∨ _))

theorem toNat_lt_of_hexDigit? {c : Char} {n : Nat} (h : hexDigit? c = some n) :
    c.toNat < 128 ∧ n < 16 := by
  simp only [hexDigit?, Bool.and_eq_true, decide_eq_true_eq] at h
  split at h
  · cases h
    omega
  split at h
  · cases h
    omega
  split at h
  · cases h
    omega
  · cases h

theorem isHexDigit_ascii :
    ∀ m < 128, ∀ n < 16, hexDigit? (Char.ofNat m) = some n → IsHexDigit (Char.ofNat m) n := by
  decide +kernel

theorem hexDigit?_of_isHexDigit {c : Char} {n : Nat} (h : IsHexDigit c n) :
    hexDigit? c = some n := by
  have hlower : ∀ n < 16, "0123456789abcdef".toList[n]?.bind hexDigit? = some n := by
    decide
  have hupper : ∀ n < 16, "0123456789ABCDEF".toList[n]?.bind hexDigit? = some n := by
    decide
  rcases h with h | h
  · simpa only [h, Option.bind_some] using hlower n (List.getElem?_eq_some_iff.1 h).1
  · simpa only [h, Option.bind_some] using hupper n (List.getElem?_eq_some_iff.1 h).1

theorem hexDigit?_eq_some_iff {c : Char} {n : Nat} : hexDigit? c = some n ↔ IsHexDigit c n := by
  constructor
  · intro h
    -- A digit is an ASCII character, and among these all are tried.
    rcases toNat_lt_of_hexDigit? h with ⟨hc, hn⟩
    have hread : hexDigit? (Char.ofNat c.toNat) = some n := by rwa [Char.ofNat_toNat]
    have hdigit := isHexDigit_ascii c.toNat hc n hn hread
    rwa [Char.ofNat_toNat] at hdigit
  · exact hexDigit?_of_isHexDigit

theorem codeUnit_append {digits : List Char} {u : Nat} (h : CodeUnit digits u) (rest : List Char) :
    codeUnit (digits ++ rest) = .ok (u, rest) := by
  cases h with
  | @digits c₃ c₂ c₁ c₀ n₃ n₂ n₁ n₀ h₃ h₂ h₁ h₀ =>
      have hvalue : ((n₃ * 16 + n₂) * 16 + n₁) * 16 + n₀ =
          n₃ * 4096 + n₂ * 256 + n₁ * 16 + n₀ := by omega
      simp [codeUnit, hexFour?, hexDigit?_eq_some_iff.2 h₃, hexDigit?_eq_some_iff.2 h₂,
        hexDigit?_eq_some_iff.2 h₁, hexDigit?_eq_some_iff.2 h₀, hvalue]

theorem hexFour?_eq_some {s r : List Char} {u : Nat} (h : hexFour? s = some (u, r)) :
    ∃ digits, s = digits ++ r ∧ CodeUnit digits u := by
  unfold hexFour? at h
  split at h
  · next c₃ c₂ c₁ c₀ rest =>
      split at h
      · next n₃ n₂ n₁ n₀ h₃ h₂ h₁ h₀ =>
          cases h
          have hvalue : ((n₃ * 16 + n₂) * 16 + n₁) * 16 + n₀ =
              n₃ * 4096 + n₂ * 256 + n₁ * 16 + n₀ := by omega
          refine ⟨[c₃, c₂, c₁, c₀], rfl, ?_⟩
          rw [hvalue]
          exact .digits (hexDigit?_eq_some_iff.1 h₃) (hexDigit?_eq_some_iff.1 h₂)
            (hexDigit?_eq_some_iff.1 h₁) (hexDigit?_eq_some_iff.1 h₀)
      · cases h
  · cases h

theorem codeUnit_eq_ok {s r : List Char} {u : Nat} (h : codeUnit s = .ok (u, r)) :
    ∃ digits, s = digits ++ r ∧ CodeUnit digits u := by
  rw [codeUnit] at h
  split at h
  · next p hp =>
      cases h
      exact hexFour?_eq_some hp
  · split at h <;> cases h

theorem CodeUnit.lt {digits : List Char} {u : Nat} (h : CodeUnit digits u) : u < 0x10000 := by
  cases h with
  | digits h₃ h₂ h₁ h₀ =>
      have b₃ := (toNat_lt_of_hexDigit? (hexDigit?_eq_some_iff.2 h₃)).2
      have b₂ := (toNat_lt_of_hexDigit? (hexDigit?_eq_some_iff.2 h₂)).2
      have b₁ := (toNat_lt_of_hexDigit? (hexDigit?_eq_some_iff.2 h₁)).2
      have b₀ := (toNat_lt_of_hexDigit? (hexDigit?_eq_some_iff.2 h₀)).2
      omega

theorem closesPair_iff {u : Nat} : closesPair u = true ↔ 0xDC00 ≤ u ∧ u ≤ 0xDFFF := by
  simp [closesPair]

theorem opensPair_iff {u : Nat} : opensPair u = true ↔ 0xD800 ≤ u ∧ u ≤ 0xDBFF := by
  simp [opensPair]

/-! ## Pieces -/

theorem shortEscape?_eq_some_iff {d c : Char} :
    shortEscape? d = some c ↔ (d, c) ∈ shortEscapes := by
  constructor
  · intro h
    unfold shortEscape? at h
    repeat'
      split at h
      · next hd =>
          cases h
          rw [hd]
          decide
    cases h
  · have hall : ∀ p ∈ shortEscapes, shortEscape? p.1 = some p.2 := by decide
    exact hall (d, c)

theorem closePair_append {high : Nat} {digits : List Char} {v : Nat} (h : CodeUnit digits (0xDC00 + v))
    (hv : v < 0x400) (rest : List Char) :
    closePair high ('\\' :: 'u' :: (digits ++ rest)) = .ok (pairChar high (0xDC00 + v), rest) := by
  have hcloses : closesPair (0xDC00 + v) = true := closesPair_iff.2 ⟨by omega, by omega⟩
  simp [closePair, codeUnit_append h, hcloses, bind, Except.bind]

theorem closePair_eq_ok {high : Nat} {s r : List Char} {c : Char}
    (h : closePair high s = .ok (c, r)) : ∃ digits v, s = '\\' :: 'u' :: (digits ++ r) ∧
      CodeUnit digits (0xDC00 + v) ∧ v < 0x400 ∧ c = pairChar high (0xDC00 + v) := by
  unfold closePair at h
  split at h
  · cases h
  · next d t =>
      split at h
      · next hd =>
          split at h
          · cases h
          · next e t' =>
              split at h
              · next he =>
                  -- Behind a backslash and `u` the digits have to spell the second half of a pair.
                  cases hu : codeUnit t' with
                  | error f => simp [hu, bind, Except.bind] at h
                  | ok p =>
                      rcases p with ⟨low, rest⟩
                      rcases codeUnit_eq_ok hu with ⟨digits, rfl, hdigits⟩
                      simp only [hu, bind, Except.bind] at h
                      split at h
                      · next hlow =>
                          simp only [Except.ok.injEq, Prod.mk.injEq] at h
                          rcases h with ⟨rfl, rfl⟩
                          rcases closesPair_iff.1 hlow with ⟨hmin, hmax⟩
                          have hv : 0xDC00 + (low - 0xDC00) = low := by omega
                          refine ⟨digits, low - 0xDC00, by rw [hd, he], ?_, by omega, ?_⟩
                          · rwa [hv]
                          · rw [hv]
                      · cases h
              · cases h
      · cases h

/-- Each spelling of a character is read as one piece, which is that character. -/
theorem piece_letter {letter : List Char} {c : Char} (h : Letter letter c) (rest : List Char) :
    piece (letter ++ rest) = .ok (.char c, rest) := by
  cases h with
  | plain quote backslash control =>
      exact piece_of_standsForItself (by simp [standsForItself, quote, backslash, control]) rest
  | short hd => simp [piece, shortEscape?_eq_some_iff.2 hd]
  | @unit digits u hdigits hu =>
      -- The code unit is neither half of a pair.
      have hletter : shortEscape? 'u' = none := by decide
      have hcloses : closesPair u = false := by
        rw [Bool.eq_false_iff, Ne, closesPair_iff]
        omega
      have hopens : opensPair u = false := by
        rw [Bool.eq_false_iff, Ne, opensPair_iff]
        omega
      simp [piece, hletter, codeUnit_append hdigits, hcloses, hopens]
  | @pair digits digits' u v high hu low hv =>
      -- The first half opens a pair, and the second closes it.
      have hletter : shortEscape? 'u' = none := by decide
      have hcloses : closesPair (0xD800 + u) = false := by
        rw [Bool.eq_false_iff, Ne, closesPair_iff]
        omega
      have hopens : opensPair (0xD800 + u) = true := opensPair_iff.2 ⟨by omega, by omega⟩
      have hchar : pairChar (0xD800 + u) (0xDC00 + v) = Char.ofNat (0x10000 + u * 0x400 + v) := by
        simp [pairChar]
      simp [piece, hletter, codeUnit_append high, hcloses, hopens, closePair_append low hv, hchar]

/-- What follows a code unit and belongs to the same character: nothing, or the other half of its
pair. -/
theorem exists_letter_of_unit {digits s r : List Char} {u : Nat} {c : Char}
    (hdigits : CodeUnit digits u) (h : (if closesPair u then .ok (.unpaired ⟨.loneSurrogate, s, 0⟩, s)
      else if opensPair u then
        match closePair u s with
        | .ok (e, s') => .ok (.char e, s')
        | .error f => .ok (.unpaired f, s)
      else .ok (.char (Char.ofNat u), s)) = (.ok (.char c, r) : Except Fault (Piece × List Char))) :
    ∃ more, s = more ++ r ∧ Letter ('\\' :: 'u' :: (digits ++ more)) c := by
  split at h
  · cases h
  · next hcloses =>
      rw [closesPair_iff] at hcloses
      split at h
      · next hopens =>
          -- The first half of a pair, so the second has to follow.
          rw [opensPair_iff] at hopens
          split at h
          · next e rest hpair =>
              simp only [Except.ok.injEq, Prod.mk.injEq, Piece.char.injEq] at h
              rcases h with ⟨rfl, rfl⟩
              rcases closePair_eq_ok hpair with ⟨digits', v, rfl, hlow, hv, hchar⟩
              have hu : 0xD800 + (u - 0xD800) = u := by omega
              have hletter := Letter.pair (u := u - 0xD800) (v := v) (by rwa [hu]) (by omega) hlow hv
              have heq : e = Char.ofNat (0x10000 + (u - 0xD800) * 0x400 + v) := by
                simpa [pairChar] using hchar
              exact ⟨'\\' :: 'u' :: digits', by simp, heq ▸ hletter⟩
          · cases h
      · next hopens =>
          -- A code unit outside the range of pairs is a character by itself.
          rw [opensPair_iff] at hopens
          simp only [Except.ok.injEq, Prod.mk.injEq, Piece.char.injEq] at h
          rcases h with ⟨rfl, rfl⟩
          exact ⟨[], rfl, by simpa using Letter.unit hdigits (by omega)⟩

/-- A piece that is a character is one of its spellings. -/
theorem exists_letter_of_piece {s r : List Char} {c : Char} (hquote : s.head? ≠ some '"')
    (h : piece s = .ok (.char c, r)) : ∃ letter, s = letter ++ r ∧ Letter letter c := by
  unfold piece at h
  split at h
  · cases h
  · next d t =>
      split at h
      · next hd =>
          subst hd
          split at h
          · cases h
          · next e t' =>
              split at h
              · next c' hshort =>
                  -- An escape of one letter.
                  cases h
                  exact ⟨['\\', e], rfl, .short (shortEscape?_eq_some_iff.1 hshort)⟩
              · split at h
                · next he =>
                    subst he
                    split at h
                    · cases h
                    · next u rest hu =>
                        -- A code unit in digits, perhaps with another behind it.
                        rcases codeUnit_eq_ok hu with ⟨digits, rfl, hdigits⟩
                        rcases exists_letter_of_unit hdigits h with ⟨more, rfl, hletter⟩
                        exact ⟨_, by simp, hletter⟩
                · cases h
      · next hbackslash =>
          split at h
          · cases h
          · next hcontrol =>
              -- Anything else stands for itself.
              cases h
              exact ⟨[c], rfl, .plain (by simpa using hquote) hbackslash (by omega)⟩

/-! ## Literals -/

theorem head?_letter {letter : List Char} {c : Char} (h : Letter letter c) (rest : List Char) :
    (letter ++ rest).head? ≠ some '"' := by
  cases h with
  | plain quote => simpa using quote
  | short | unit | pair => simp

theorem literalFrom_of_denotes {source text : List Char} (h : Denotes source text)
    (reading : Reading) (acc rest : List Char) :
    literalFrom reading (some acc) (source ++ '"' :: rest) =
      .ok (some (String.ofList (acc.reverse ++ text)), rest) := by
  induction h generalizing acc with
  | nil =>
      rw [literalFrom]
      simp
  | cons head tail ih =>
      rw [List.append_assoc, literalFrom_of_piece (head?_letter head _) (piece_letter head _)]
      simp [Piece.addTo, ih]

/-- Whatever a strict reading accepts is a literal of the grammar. -/
theorem exists_denotes_of_literalFrom {acc s r : List Char} {t : Option String}
    (h : literalFrom .strict (some acc) s = .ok (t, r)) :
    ∃ source text, s = source ++ '"' :: r ∧ Denotes source text ∧
      t = some (String.ofList (acc.reverse ++ text)) := by
  -- The induction is on what is left to read; each round takes one character off it.
  induction hn : s.length using Nat.strongRecOn generalizing acc s with
  | _ n ih =>
      rw [literalFrom] at h
      split at h
      · next hquote =>
          cases h
          cases s with
          | nil => cases hquote
          | cons d s =>
              obtain rfl : d = '"' := by simpa using hquote
              exact ⟨[], [], rfl, .nil, by simp⟩
      · next hquote =>
          split at h
          · cases h
          · next p rest hp =>
              cases p with
              | unpaired f => cases h
              | char c =>
                  rcases exists_letter_of_piece hquote hp with ⟨letter, rfl, hletter⟩
                  have hshorter : rest.length < n := hn ▸ piece_shorter hp
                  rcases ih rest.length hshorter h rfl with ⟨source, text, rfl, hdenotes, rfl⟩
                  exact ⟨letter ++ source, c :: text, by simp, .cons hletter hdenotes, by simp⟩

/-- A strict reading accepts the literals of the grammar, each as the text that it denotes. -/
theorem literal_strict_iff {s r : List Char} {t : Option String} :
    literal .strict s = .ok (t, r) ↔
      ∃ source text, s = source ++ '"' :: r ∧ Denotes source text ∧ t = some (String.ofList text) := by
  constructor
  · intro h
    exact exists_denotes_of_literalFrom h
  · rintro ⟨source, text, rfl, hdenotes, rfl⟩
    exact literalFrom_of_denotes hdenotes .strict [] r

/-! ## Blanks -/

/-- A stretch of blanks. -/
def Blanks (w : List Char) : Prop :=
  ∀ c ∈ w, c = ' ' ∨ c = '\t' ∨ c = '\n' ∨ c = '\r'

theorem isBlank_iff {c : Char} : isBlank c = true ↔ c = ' ' ∨ c = '\t' ∨ c = '\n' ∨ c = '\r' := by
  simp [isBlank, or_assoc]

theorem skipBlanks_append {w : List Char} (h : Blanks w) (s : List Char) :
    skipBlanks (w ++ s) = skipBlanks s := by
  induction w with
  | nil => rfl
  | cons c w ih =>
      have hc : isBlank c = true := isBlank_iff.2 (h c List.mem_cons_self)
      have hw : Blanks w := fun d hd => h d (List.mem_cons_of_mem c hd)
      simpa [skipBlanks, hc] using ih hw

theorem exists_blanks (s : List Char) : ∃ w, Blanks w ∧ s = w ++ skipBlanks s := by
  refine ⟨s.takeWhile isBlank, ?_, ?_⟩
  · intro c hc
    exact isBlank_iff.1 (List.all_eq_true.1 List.all_takeWhile c hc)
  · exact List.takeWhile_append_dropWhile.symm

/-- What is left behind blanks starts with a character that is none. -/
theorem skipBlanks_eq_cons_iff {s r : List Char} {c : Char} (hc : isBlank c = false) :
    skipBlanks s = c :: r ↔ ∃ w, Blanks w ∧ s = w ++ c :: r := by
  constructor
  · intro h
    rcases exists_blanks s with ⟨w, hw, hs⟩
    rw [h] at hs
    exact ⟨w, hw, hs⟩
  · rintro ⟨w, hw, rfl⟩
    rw [skipBlanks_append hw]
    simp [skipBlanks, hc]

theorem skipBlanks_eq_nil_iff {s : List Char} : skipBlanks s = [] ↔ Blanks s := by
  constructor
  · intro h
    rcases exists_blanks s with ⟨w, hw, hs⟩
    rw [h, List.append_nil] at hs
    exact hs ▸ hw
  · intro h
    have hskip := skipBlanks_append h []
    simpa [skipBlanks] using hskip

end LiveFeed.Json
