import LiveFeed.Proofs.FormText
import LiveFeed.Proofs.ScriptedReplies

/-!
# What a request comes to

The final answer to a request decides what becomes of it, and nothing else does: its status first,
then, if that is one of success, whether the body is what was asked for.  How the answer is come by,
redirections included, is a matter of the network.

* `Response.Carries`, `Response.Tells`: what the body of an answer is;
* `Decides`: which outcome follows from an answer, or from the lack of one;
* `Asks`: a call that makes one request and comes to what the answer decides;
* `Client.request_outcomes`: every request of a client, and the two calls that do more than ask.
-/

namespace LiveFeed

/-! ## Statuses -/

namespace RequestError

/-- The one status that an error stands for, if it does not stand for all the others. -/
def status? : RequestError → Option Nat
  | unauthorized => some 401
  | conflict => some 409
  | gone => some 410
  | other => none

theorem classify_eq_ok_iff {status : Nat} : classify status = .ok () ↔ 200 ≤ status ∧ status < 300 := by
  rw [classify]
  repeat' split
  all_goals simp_all

theorem classify_eq_error_iff {status s : Nat} {e : RequestError} (he : e.status? = some s) :
    classify status = .error e ↔ status = s := by
  rw [classify]
  cases e with
  | other => cases he
  | _ =>
      cases he
      repeat' split
      all_goals
        simp
        try omega

theorem classify_eq_other_iff {status : Nat} :
    classify status = .error other ↔
      ¬ (200 ≤ status ∧ status < 300) ∧ status ∉ [401, 409, 410] := by
  rw [classify]
  repeat' split
  all_goals simp_all

end RequestError

/-! ## Answers -/

namespace Response

/-- The status lies in the two hundreds. -/
def Succeeds (r : Response) : Prop :=
  200 ≤ r.status ∧ r.status < 300

/-- All of the body arrived, and it is the JSON text of a value. -/
def Carries {α : Type} (codec : Wire.Codec α) (r : Response) (a : α) : Prop :=
  ∃ cs, r.body = some (Text.utf8 cs) ∧ (Json.read? (String.ofList cs)).bind codec.decode = some a

/-- All of the body arrived, and a text is what it says without the blanks around it. -/
def Tells (decode : List Nat → String) (r : Response) (s : String) : Prop :=
  ∃ octets, r.body = some octets ∧ s = Text.trim (decode octets)

end Response

/-- An outcome is what a final answer decides, or the lack of one, if `gives` says which values an
answer of success can give. -/
structure Decides {α : Type} (answer : Option Response) (gives : Response → α → Prop)
    (outcome : Outcome α) : Prop where
  ok_iff : ∀ a, outcome = .ok a ↔ ∃ r ∈ answer, r.Succeeds ∧ gives r a
  unauthorized_iff : outcome = .error .unauthorized ↔ ∃ r ∈ answer, r.status = 401
  conflict_iff : outcome = .error .conflict ↔ ∃ r ∈ answer, r.status = 409
  gone_iff : outcome = .error .gone ↔ ∃ r ∈ answer, r.status = 410
  /-- There was no answer, or one of another status, or one of success that gives no value. -/
  other_iff : outcome = .error .other ↔
    ∀ r ∈ answer, r.status ∉ [401, 409, 410] ∧ (r.Succeeds → ∀ a, ¬ gives r a)

/-- A call makes one request, and comes to what the final answer to it decides. -/
structure Asks {α : Type} (n : Network) (request : Request) (gives : Response → α → Prop)
    (result : Outcome α × Network) : Prop where
  outcome : Decides (n.ask request).1 gives result.1
  network : result.2 = (n.ask request).2

namespace Client

theorem accept_eq_ok_iff {answer : Option Response} {r : Response} :
    accept answer = .ok r ↔ r ∈ answer ∧ r.Succeeds := by
  cases answer with
  | none => simp [accept]
  | some r' =>
      rw [accept, Option.mem_some, Response.Succeeds]
      cases hclass : RequestError.classify r'.status with
      | ok _ =>
          have hstatus := RequestError.classify_eq_ok_iff.1 hclass
          constructor
          · rintro heq
            cases heq
            exact ⟨rfl, hstatus⟩
          · rintro ⟨rfl, -⟩
            rfl
      | error e =>
          constructor
          · intro h
            cases h
          · rintro ⟨rfl, hstatus⟩
            rw [RequestError.classify_eq_ok_iff.2 hstatus] at hclass
            cases hclass

/-- A status of success is not one of those that are told apart. -/
theorem not_told_of_succeeds {r : Response} (h : r.Succeeds) : r.status ∉ [401, 409, 410] := by
  obtain ⟨hlow, hhigh⟩ := h
  simp only [List.mem_cons, List.not_mem_nil, or_false]
  omega

theorem accept_some_eq_error_iff {r : Response} {e : RequestError} :
    accept (some r) = .error e ↔ RequestError.classify r.status = .error e := by
  rw [accept]
  cases RequestError.classify r.status <;> simp [Except.map]

/-- A status that is told apart is an error, whatever the body, and no other answer comes to it. -/
theorem accept_eq_error_iff {answer : Option Response} {e : RequestError} {s : Nat}
    (he : e.status? = some s) : accept answer = .error e ↔ ∃ r ∈ answer, r.status = s := by
  cases answer with
  | none =>
      have hne : e ≠ .other := by
        rintro rfl
        cases he
      simp [accept, hne.symm]
  | some r => simp [accept_some_eq_error_iff, RequestError.classify_eq_error_iff he]

theorem accept_eq_other_iff {answer : Option Response} :
    accept answer = .error .other ↔ ∀ r ∈ answer, ¬ r.Succeeds ∧ r.status ∉ [401, 409, 410] := by
  cases answer with
  | none => simp [accept]
  | some r =>
      simp only [accept_some_eq_error_iff, RequestError.classify_eq_other_iff, Option.mem_some,
        forall_eq']
      rfl

theorem bind_eq_iff {α β : Type} {x : Outcome α} {f : α → Outcome β} {y : Outcome β} :
    x.bind f = y ↔ (∃ a, x = .ok a ∧ f a = y) ∨ ∃ e, x = .error e ∧ y = .error e := by
  cases x <;> simp [Except.bind, eq_comm]

/-- What is read of an answer is decided by it, if reading fails in no way that a status stands
for. -/
theorem decides_of_read {α : Type} {gives : Response → α → Prop} {read : Response → Outcome α}
    (hok : ∀ r a, read r = .ok a ↔ gives r a) (herror : ∀ r e, read r = .error e → e = .other)
    (answer : Option Response) : Decides answer gives ((accept answer).bind read) := by
  have htold : ∀ {e : RequestError} {s : Nat}, e.status? = some s →
      ((accept answer).bind read = .error e ↔ ∃ r ∈ answer, r.status = s) := by
    intro e s he
    rw [bind_eq_iff, ← accept_eq_error_iff he]
    constructor
    · rintro (⟨r, -, hread⟩ | ⟨e', haccept, heq⟩)
      · -- Reading fails only in the way that no status stands for.
        rw [herror r e hread] at he
        cases he
      · cases heq
        exact haccept
    · exact fun haccept => .inr ⟨e, haccept, rfl⟩
  have hfails : ∀ r, read r = .error .other ↔ ∀ a, ¬ gives r a := by
    intro r
    cases hread : read r with
    | ok a => simpa using ⟨a, (hok r a).1 hread⟩
    | error e => simp [herror r e hread, ← hok, hread]
  refine ⟨?_, htold rfl, htold rfl, htold rfl, ?_⟩
  · intro a
    rw [bind_eq_iff]
    simp [accept_eq_ok_iff, hok, and_assoc]
  · rw [bind_eq_iff]
    constructor
    · rintro (⟨r, haccept, hread⟩ | ⟨e, haccept, heq⟩) r' hr'
      · obtain ⟨hr, hstatus⟩ := accept_eq_ok_iff.1 haccept
        obtain rfl : r = r' := Option.some.inj (hr.symm.trans hr')
        exact ⟨not_told_of_succeeds hstatus, fun _ => (hfails r).1 hread⟩
      · cases heq
        obtain ⟨hnot, htold⟩ := accept_eq_other_iff.1 haccept r' hr'
        exact ⟨htold, fun hstatus => absurd hstatus hnot⟩
    · intro h
      by_cases hstatus : ∃ r ∈ answer, r.Succeeds
      · obtain ⟨r, hr, hstatus⟩ := hstatus
        exact .inl ⟨r, accept_eq_ok_iff.2 ⟨hr, hstatus⟩, (hfails r).2 ((h r hr).2 hstatus)⟩
      · exact .inr ⟨.other, accept_eq_other_iff.2 fun r hr =>
          ⟨fun hsucceeds => hstatus ⟨r, hr, hsucceeds⟩, (h r hr).1⟩, rfl⟩

/-! ## Bodies -/

theorem decodeStrict?_eq_some_iff {octets : List Nat} {cs : List Char} :
    Text.decodeStrict? octets = some cs ↔ octets = Text.utf8 cs := by
  rw [Text.decodeStrict?]
  constructor
  · intro h
    obtain ⟨hutf8, hcs⟩ := Option.ite_none_right_eq_some.1 h
    rw [← Option.some.inj hcs, hutf8]
  · rintro rfl
    simp [Text.decodeLossy_utf8]

theorem readBody_eq_ok_iff_carries {α : Type} (codec : Wire.Codec α) (r : Response) (a : α) :
    readBody codec r = .ok a ↔ r.Carries codec a := by
  rw [readBody_eq_ok_iff, Response.Carries]
  simp [Option.bind_eq_some_iff, decodeStrict?_eq_some_iff]

theorem readBody_error {α : Type} (codec : Wire.Codec α) (r : Response) (e : RequestError)
    (h : readBody codec r = .error e) : e = .other := by
  rw [readBody] at h
  repeat' split at h
  all_goals cases h
  all_goals rfl

theorem readTextBy_eq_ok_iff (decode : List Nat → String) (r : Response) (s : String) :
    readTextBy decode r = .ok s ↔ r.Tells decode s := by
  rw [readTextBy, Response.Tells]
  cases r.body <;> simp [eq_comm]

theorem readTextBy_error (decode : List Nat → String) (r : Response) (e : RequestError)
    (h : readTextBy decode r = .error e) : e = .other := by
  rw [readTextBy] at h
  split at h
  all_goals cases h
  rfl

/-! ## Calls -/

theorem fetch_asks {α : Type} (c : Client) (method : Method) (path : String) (body : Option Json)
    (codec : Wire.Codec α) (n : Network) :
    Asks n (c.request method path body) (Response.Carries codec) (c.fetch method path body codec n) :=
  ⟨decides_of_read (readBody_eq_ok_iff_carries codec) (readBody_error codec) _, rfl⟩

theorem fetchTextBy_asks (c : Client) (decode : List Nat → String) (path : String) (n : Network) :
    Asks n (c.request .get path none) (Response.Tells decode) (c.fetchTextBy decode path n) :=
  ⟨decides_of_read (readTextBy_eq_ok_iff decode) (readTextBy_error decode) _, rfl⟩

/-- What is sent without asking for anything back succeeds whatever the body of the answer. -/
theorem send_asks (c : Client) (path : String) (body : Json) (n : Network) :
    Asks n (c.request .post path (some body)) (fun _ _ => True) (c.send path body n) := by
  have hmap : ∀ x : Outcome Response, x.map (fun _ => ()) = x.bind fun _ => .ok () := by
    rintro (e | r) <;> rfl
  have hdecides : ∀ answer, Decides answer (fun _ (_ : Unit) => True)
      ((accept answer).bind fun _ => .ok ()) := decides_of_read (by simp) (by simp)
  refine ⟨?_, rfl⟩
  have houtcome := hdecides (n.ask (c.request .post path (some body))).1
  rwa [← hmap] at houtcome

/-- The second request is made on the network that the first one left behind. -/
theorem currentAccountBy_eq (c : Client) (decode : List Nat → String) (n : Network) :
    c.currentAccountBy decode n =
      match (c.fetchTextBy decode uuidPath n).1 with
      | .ok uuid => c.accountInfo uuid (n.ask (c.request .get uuidPath none)).2
      | .error e => (.error e, (n.ask (c.request .get uuidPath none)).2) := by
  rw [currentAccountBy, ← (c.fetchTextBy_asks decode uuidPath n).network]
  obtain ⟨outcome, n'⟩ := c.fetchTextBy decode uuidPath n
  cases outcome <;> rfl

/-- What comes of the requests of a client on a network. -/
structure RequestOutcomes (c : Client) (n : Network) : Prop where
  /-- A value is fetched if all of its text arrives with a status of success. -/
  fetch : ∀ {α : Type} (method : Method) (path : String) (body : Option Json) (codec : Wire.Codec α),
    Asks n (c.request method path body) (Response.Carries codec) (c.fetch method path body codec n)
  /-- Whatever the encoding that the headers name, the text is the one of the body. -/
  text : ∀ (decode : List Nat → String) (path : String),
    Asks n (c.request .get path none) (Response.Tells decode) (c.fetchTextBy decode path n)
  /-- For what is sent without asking for anything back, the status is all that counts. -/
  send : ∀ (path : String) (body : Json),
    Asks n (c.request .post path (some body)) (fun _ _ => True) (c.send path body n)
  /-- Where anything else would be gone, there is no picture, and all else is the same. -/
  picture : ∀ date : String,
    let result := c.fetch .post pictureInfoPath (some (dateBody date)) Wire.ApodData.codec n
    (c.apodInfo date n).2 = result.2 ∧
      (result.1 = .error .gone → (c.apodInfo date n).1 = .ok none) ∧
      (result.1 ≠ .error .gone → (c.apodInfo date n).1 = result.1.map some)
  /-- When the account is not told, nothing more is asked, and the error is the one of this request. -/
  untold : ∀ (decode : List Nat → String) (e : RequestError),
    (c.fetchTextBy decode uuidPath n).1 = .error e →
      c.currentAccountBy decode n = (.error e, (n.ask (c.request .get uuidPath none)).2)
  /-- When it is told, the outcome is the one of the second request. -/
  told : ∀ (decode : List Nat → String) (uuid : String),
    (c.fetchTextBy decode uuidPath n).1 = .ok uuid →
      Asks (n.ask (c.request .get uuidPath none)).2 (c.request .get (accountPath uuid) none)
        (Response.Carries Wire.UserInfo.codec) (c.currentAccountBy decode n)

/-- Whatever the service answers, and if it does not answer at all, every request of a client comes to
the outcome that the status decides, and under a status of success the body. -/
theorem request_outcomes (c : Client) (n : Network) : RequestOutcomes c n := by
  refine ⟨fun method path body codec => c.fetch_asks method path body codec n,
    fun decode path => c.fetchTextBy_asks decode path n, fun path body => c.send_asks path body n,
    fun date => ?_, fun decode e h => ?_, fun decode uuid h => ?_⟩
  · dsimp only
    rw [apodInfo]
    obtain ⟨outcome, n'⟩ := c.fetch .post pictureInfoPath (some (dateBody date)) Wire.ApodData.codec n
    rcases outcome with e | data
    · cases e <;> simp [Except.map]
    · simp [Except.map]
  · rw [currentAccountBy_eq, h]
  · rw [currentAccountBy_eq, h]
    exact c.fetch_asks .get (accountPath uuid) none Wire.UserInfo.codec _

end Client

end LiveFeed
