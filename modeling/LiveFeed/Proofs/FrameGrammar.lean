import LiveFeed.Proofs.StoredSettings
import LiveFeed.Proofs.StringLiterals
import LiveFeed.SocketError

/-!
# The grammar of topic frames

Which texts announce a topic, said without the reader, and that the reader accepts exactly these.

* `Topic.Names`, `Topic.Announces`: the spellings of a topic's name, and the frames of a topic;
* `Frame.topicName_eq_ok_iff`, `Frame.nullValue_eq_ok_iff`, `Frame.tagged_eq_ok_iff`,
  `Frame.onlyTopic_eq_ok_iff`: what each part of the reader accepts;
* `Topic.frame_grammar`: frames of any text, with what is reported of the others.
-/

namespace LiveFeed

open Json (Blanks Denotes skipBlanks skipBlanks_eq_cons_iff skipBlanks_eq_nil_iff)

/-! ## Frames -/

namespace Topic

/-- A string literal whose text is the name of a topic, whatever escapes spell it. -/
def Names (t : Topic) (literal : List Char) : Prop :=
  ∃ source, literal = '"' :: (source ++ ['"']) ∧ Denotes source t.name.toList

/-- The texts that announce a topic. -/
inductive Announces (t : Topic) : List Char → Prop where
  /-- The topic's name alone. -/
  | name {before literal after : List Char} (blanks : Blanks before ∧ Blanks after)
      (names : t.Names literal) : Announces t (before ++ literal ++ after)
  /-- An object with one member, which has the topic's name and holds `null`. -/
  | member {before opening literal colon value closing after : List Char}
      (outside : Blanks before ∧ Blanks after)
      (inside : Blanks opening ∧ Blanks colon ∧ Blanks value ∧ Blanks closing)
      (names : t.Names literal) :
      Announces t (before ++ '\x7b' :: (opening ++ literal ++ colon ++ ':' ::
        (value ++ "null".toList ++ closing ++ '\x7d' :: after)))

end Topic

/-! ## What the reader accepts -/

namespace Frame

theorem literal_eq_ok_iff {s r : List Char} {name : String} :
    literal s = .ok (name, r) ↔ ∃ source, s = source ++ '"' :: r ∧ Denotes source name.toList := by
  rw [literal]
  constructor
  · intro h
    cases hread : Json.literal .strict s with
    | error f => simp [hread] at h
    | ok p =>
        rcases p with ⟨t, rest⟩
        rcases Json.literal_strict_iff.1 hread with ⟨source, text, hs, hdenotes, rfl⟩
        have hp : String.ofList text = name ∧ rest = r := by simpa [hread] using h
        rcases hp with ⟨rfl, rfl⟩
        exact ⟨source, hs, by simpa using hdenotes⟩
  · rintro ⟨source, hs, hdenotes⟩
    have hread := Json.literal_strict_iff.2 ⟨source, name.toList, hs, hdenotes, rfl⟩
    simp [hread]

theorem topicName_eq_ok_iff {s r : List Char} {t : Topic} :
    topicName s = .ok (t, r) ↔ ∃ source, s = source ++ '"' :: r ∧ Denotes source t.name.toList := by
  rw [← literal_eq_ok_iff, topicName]
  cases hread : literal s with
  | error f => simp [bind, Except.bind]
  | ok p =>
      rcases p with ⟨name, rest⟩
      -- The name decides the topic, so reading one is reading the other.
      have hname : Topic.ofName? name = some t ↔ name = t.name := Topic.ofName?_eq_some_iff
      cases ht : Topic.ofName? name with
      | none =>
          have hne : name ≠ t.name := fun heq => by simp [hname.2 heq] at ht
          simp [bind, Except.bind, ht, hne]
      | some u =>
          rw [ht, Option.some.injEq] at hname
          simp [bind, Except.bind, ht, pure, Except.pure, hname]

theorem word_eq_ok_iff {letters s r : List Char} :
    Json.word letters s = .ok r ↔ s = letters ++ r := by
  induction letters generalizing s with
  | nil => simp [Json.word]
  | cons l letters ih =>
      cases s with
      | nil => simp [Json.word]
      | cons c s =>
          by_cases hc : c = l
          · simp [Json.word, hc, ih]
          · simp [Json.word, hc]

theorem scanned_eq_ok_iff {α : Type} {x : Except Json.Fault α} {a : α} :
    scanned x = .ok a ↔ x = .ok a := by
  cases x with
  | ok b => simp [scanned]
  | error f => simp [scanned]

/-- Whatever stands in place of `null` is reported. -/
theorem foundValue_ne_ok (c : Char) (r s : List Char) : foundValue c r ≠ .ok s := by
  have hreport : ∀ {α : Type} (x : Except Failure α) (f : α → Failure),
      (x >>= fun a => (.error (f a) : Except Failure (List Char))) ≠ .ok s := by
    intro α x f
    cases x with
    | ok a => exact fun h => by cases h
    | error e => exact fun h => by cases h
  -- Whether the other value can be read or not, some report is made.
  unfold foundValue
  repeat'
    first
      | exact hreport _ _
      | split
  all_goals exact fun h => by cases h

theorem nullValue_eq_ok_iff {s r : List Char} :
    nullValue s = .ok r ↔ ∃ w, Blanks w ∧ s = w ++ ("null".toList ++ r) := by
  have hnull : ∀ w, w ++ ("null".toList ++ r) = w ++ 'n' :: ("ull".toList ++ r) := fun w => rfl
  simp only [hnull]
  rw [← skipBlanks_eq_cons_iff (by decide), nullValue]
  split
  · next h => simp [h, fault]
  · next c rest h =>
      rw [h]
      by_cases hc : c = 'n'
      · simp [hc, scanned_eq_ok_iff, word_eq_ok_iff]
      · simp [hc, foundValue_ne_ok]

theorem colon_eq_ok_iff {s r : List Char} :
    colon s = .ok r ↔ ∃ w, Blanks w ∧ s = w ++ ':' :: r := by
  rw [← skipBlanks_eq_cons_iff (by decide), colon]
  split
  · next h => simp [h, fault]
  · next c rest h =>
      rw [h]
      by_cases hc : c = ':'
      · simp [hc]
      · simp [hc, fault]

theorem closingBrace_eq_ok_iff {s r : List Char} :
    closingBrace s = .ok r ↔ ∃ w, Blanks w ∧ s = w ++ '\x7d' :: r := by
  rw [← skipBlanks_eq_cons_iff (by decide), closingBrace]
  split
  · next h => simp [h, fault]
  · next c rest h =>
      rw [h]
      by_cases hc : c = '\x7d'
      · simp [hc]
      · simp [hc, fault]

/-- Behind the brace: the name, a colon, `null` and the closing brace, with blanks before each. -/
theorem tagged_eq_ok_iff {s r : List Char} {t : Topic} :
    tagged s = .ok (t, r) ↔ ∃ opening literal colon value closing, t.Names literal ∧
      (Blanks opening ∧ Blanks colon ∧ Blanks value ∧ Blanks closing) ∧
      s = opening ++ literal ++ colon ++ ':' :: (value ++ "null".toList ++ closing ++ '\x7d' :: r) := by
  constructor
  · intro h
    rw [tagged] at h
    split at h
    · cases h
    · next c s₁ hskip =>
        split at h
        · next hc =>
            subst hc
            -- Each part of the reader takes its own stretch of the text.
            simp only [bind_eq_ok_iff, pure, Except.pure, Except.ok.injEq, Prod.mk.injEq] at h
            rcases h with ⟨⟨t', s₂⟩, hname, s₃, hcolon, s₄, hnull, s₅, hbrace, rfl, rfl⟩
            rcases (skipBlanks_eq_cons_iff (by decide)).1 hskip with ⟨opening, hopening, rfl⟩
            rcases topicName_eq_ok_iff.1 hname with ⟨source, rfl, hdenotes⟩
            rcases colon_eq_ok_iff.1 hcolon with ⟨colon, hbeforeColon, rfl⟩
            rcases nullValue_eq_ok_iff.1 hnull with ⟨value, hvalue, rfl⟩
            rcases closingBrace_eq_ok_iff.1 hbrace with ⟨closing, hclosing, rfl⟩
            exact ⟨opening, _, colon, value, closing, ⟨source, rfl, hdenotes⟩,
              ⟨hopening, hbeforeColon, hvalue, hclosing⟩, by simp⟩
        · split at h <;> cases h
  · rintro ⟨opening, _, colon, value, closing, ⟨source, rfl, hdenotes⟩,
      ⟨hopening, hcolon, hvalue, hclosing⟩, rfl⟩
    have hskip : skipBlanks (opening ++ '"' :: (source ++ ['"']) ++ colon ++ ':' ::
        (value ++ "null".toList ++ closing ++ '\x7d' :: r)) =
        '"' :: (source ++ '"' :: (colon ++ ':' ::
          (value ++ ("null".toList ++ (closing ++ '\x7d' :: r))))) :=
      (skipBlanks_eq_cons_iff (by decide)).2 ⟨opening, hopening, by simp⟩
    rw [tagged, hskip]
    simp only [if_true, bind_eq_ok_iff, pure, Except.pure, Except.ok.injEq, Prod.mk.injEq]
    exact ⟨(t, _), topicName_eq_ok_iff.2 ⟨source, rfl, hdenotes⟩, _,
      colon_eq_ok_iff.2 ⟨colon, hcolon, rfl⟩, _, nullValue_eq_ok_iff.2 ⟨value, hvalue, rfl⟩, _,
      closingBrace_eq_ok_iff.2 ⟨closing, hclosing, rfl⟩, rfl, rfl⟩

theorem topic_eq_ok_iff {s r : List Char} {t : Topic} :
    topic s = .ok (t, r) ↔ ∃ before, Blanks before ∧
      ((∃ source, Denotes source t.name.toList ∧ s = before ++ '"' :: (source ++ '"' :: r)) ∨
        ∃ inner, tagged inner = .ok (t, r) ∧ s = before ++ '\x7b' :: inner) := by
  constructor
  · intro h
    rw [topic] at h
    split at h
    · cases h
    · next c inner hskip =>
        -- A quote starts a name, a brace an object; nothing else starts a topic.
        split at h
        · next hc =>
            subst hc
            rcases (skipBlanks_eq_cons_iff (by decide)).1 hskip with ⟨before, hbefore, rfl⟩
            rcases topicName_eq_ok_iff.1 h with ⟨source, rfl, hdenotes⟩
            exact ⟨before, hbefore, .inl ⟨source, hdenotes, rfl⟩⟩
        · split at h
          · next hc =>
              subst hc
              rcases (skipBlanks_eq_cons_iff (by decide)).1 hskip with ⟨before, hbefore, rfl⟩
              exact ⟨before, hbefore, .inr ⟨inner, h, rfl⟩⟩
          · cases h
  · rintro ⟨before, hbefore, ⟨source, hdenotes, hs⟩ | ⟨inner, htagged, hs⟩⟩
    · rw [topic, (skipBlanks_eq_cons_iff (by decide)).2 ⟨before, hbefore, hs⟩]
      exact topicName_eq_ok_iff.2 ⟨source, rfl, hdenotes⟩
    · rw [topic, (skipBlanks_eq_cons_iff (by decide)).2 ⟨before, hbefore, hs⟩]
      exact htagged

theorem onlyTopic_eq_ok_iff {s : List Char} {t : Topic} :
    onlyTopic s = .ok t ↔ ∃ after, Blanks after ∧ topic s = .ok (t, after) := by
  rw [onlyTopic, bind_eq_ok_iff]
  constructor
  · rintro ⟨⟨t', after⟩, htopic, hend⟩
    -- Behind the topic only blanks are allowed.
    cases hskip : skipBlanks after with
    | nil =>
        simp only [hskip, pure, Except.pure, Except.ok.injEq] at hend
        exact ⟨after, skipBlanks_eq_nil_iff.1 hskip, hend ▸ htopic⟩
    | cons c r => simp [hskip, fault] at hend
  · rintro ⟨after, hafter, htopic⟩
    refine ⟨(t, after), htopic, ?_⟩
    simp [skipBlanks_eq_nil_iff.2 hafter, pure, Except.pure]

/-- The reader accepts the announcements of the grammar. -/
theorem onlyTopic_iff_announces {s : List Char} {t : Topic} :
    onlyTopic s = .ok t ↔ t.Announces s := by
  rw [onlyTopic_eq_ok_iff]
  constructor
  · rintro ⟨after, hafter, htopic⟩
    rcases topic_eq_ok_iff.1 htopic with
      ⟨before, hbefore, ⟨source, hdenotes, rfl⟩ | ⟨inner, htagged, rfl⟩⟩
    · have hannounces := Topic.Announces.name ⟨hbefore, hafter⟩ ⟨source, rfl, hdenotes⟩
      simpa using hannounces
    · rcases tagged_eq_ok_iff.1 htagged with
        ⟨opening, literal, colon, value, closing, hnames, hinside, rfl⟩
      exact .member ⟨hbefore, hafter⟩ hinside hnames
  · intro h
    cases h with
    | @name before _ after blanks names =>
        rcases names with ⟨source, rfl, hdenotes⟩
        refine ⟨after, blanks.2, topic_eq_ok_iff.2 ⟨before, blanks.1, .inl ⟨source, hdenotes, ?_⟩⟩⟩
        simp
    | @member before opening literal colon value closing after outside inside names =>
        refine ⟨after, outside.2, topic_eq_ok_iff.2 ⟨before, outside.1, .inr ⟨_, ?_, rfl⟩⟩⟩
        exact tagged_eq_ok_iff.2 ⟨opening, literal, colon, value, closing, names, inside, rfl⟩

end Frame

/-! ## Whole frames -/

namespace Topic

theorem ofFrame_eq_ok_iff {frame : String} {t : Topic} :
    ofFrame frame = .ok t ↔ t.Announces frame.toList := by
  rw [← Frame.onlyTopic_iff_announces, ofFrame]
  cases Frame.onlyTopic frame.toList with
  | ok u => simp
  | error f => simp

/-- A frame is read as a topic if and only if it announces this topic by the grammar: the topic's name
as a string literal, or an object whose only member has such a literal for its name and holds `null`,
with blanks anywhere between and around.  Every other text is reported as malformed.  So whatever escapes
spell the name and whatever blanks stand around it, it is read, and what is written for a topic is read
as this topic. -/
theorem frame_grammar :
    (∀ (frame : String) (t : Topic), ofFrame frame = .ok t ↔ t.Announces frame.toList) ∧
    (∀ frame : String, (∃ report : FrameError, ofFrame frame = .error report) ↔
      ∀ t : Topic, ¬ t.Announces frame.toList) ∧
    ∀ t : Topic, ofFrame t.frame = .ok t ∧
      ∀ before source after, Blanks before → Denotes source t.name.toList → Blanks after →
        ofFrame (String.ofList (before ++ '"' :: (source ++ '"' :: after))) = .ok t := by
  refine ⟨fun frame t => ofFrame_eq_ok_iff, fun frame => ?_, fun t => ⟨t.ofFrame_frame, ?_⟩⟩
  · simp only [← ofFrame_eq_ok_iff]
    cases ofFrame frame with
    | ok t => simp
    | error report => simp
  · intro before source after hbefore hdenotes hafter
    have hannounces := Announces.name ⟨hbefore, hafter⟩ ⟨source, rfl, hdenotes⟩
    exact ofFrame_eq_ok_iff.2 (by simpa using hannounces)

/-- The name of the topic of accounts with two of its letters spelled as code units, between blanks. -/
theorem frame_grammar_escaped :
    Blanks [' ', '\n'] ∧ Denotes "\\u0055s\\u0065r".toList user.name.toList ∧ Blanks ['\t'] ∧
      ofFrame (String.ofList ([' ', '\n'] ++ '"' :: ("\\u0055s\\u0065r".toList ++ ['"', '\t']))) =
        .ok user := by
  have hbefore : Blanks [' ', '\n'] := by
    intro c hc
    rcases List.mem_cons.1 hc with rfl | hc
    · exact .inl rfl
    · exact .inr (.inr (.inl (List.mem_singleton.1 hc)))
  have hafter : Blanks ['\t'] := fun c hc => .inr (.inl (List.mem_singleton.1 hc))
  have hcapital : Json.Letter ['\\', 'u', '0', '0', '5', '5'] 'U' :=
    .unit (@Json.CodeUnit.digits '0' '0' '5' '5' 0 0 5 5 (.inl rfl) (.inl rfl) (.inl rfl) (.inl rfl))
      (by decide)
  have hsmall : Json.Letter ['\\', 'u', '0', '0', '6', '5'] 'e' :=
    .unit (@Json.CodeUnit.digits '0' '0' '6' '5' 0 0 6 5 (.inl rfl) (.inl rfl) (.inl rfl) (.inl rfl))
      (by decide)
  have hdenotes : Denotes "\\u0055s\\u0065r".toList user.name.toList :=
    .cons hcapital (.cons (.plain (by decide) (by decide) (by decide))
      (.cons hsmall (.cons (.plain (by decide) (by decide) (by decide)) .nil)))
  exact ⟨hbefore, hdenotes, hafter,
    (frame_grammar.2.2 user).2 _ _ _ hbefore hdenotes hafter⟩

end Topic

end LiveFeed
