import LiveFeed.Client
import LiveFeed.Proofs.Endpoints

/-!
# Replies of a script

A backend answers the requests to each path from its script, one reply after the other, and the last
one stays.  Without redirections a request comes to this one reply, and for a cell the reply is a value
or it is nothing.

* `Backend.replyAt`, `Backend.nextReply_leftAt`: which reply a request gets;
* `Network.follow_of_stays`: a request that is not sent elsewhere;
* `Client.decoded`, `Client.load_serving`: what the reply is to the cell of a resource;
* `Client.Serves`, `Client.Serves.load`: a whole script, one request after the other.
-/

namespace LiveFeed

namespace Backend

/-! ## Scripts -/

/-- What a script has for a path. -/
def script (routes : List (String × List Reply)) (path : String) : List Reply :=
  (routes.lookup path).getD []

theorem takeReply_fst (path : String) (routes : List (String × List Reply)) :
    (takeReply path routes).1 = (nextReply (script routes path)).1 := by
  induction routes with
  | nil => rfl
  | cons p routes ih =>
      obtain ⟨q, rs⟩ := p
      rw [takeReply, script, List.lookup_cons]
      by_cases hq : q = path
      · subst hq
        simp
      · have hb : (path == q) = false := by simpa using Ne.symm hq
        rw [if_neg hq, hb]
        exact ih

/-- To take a reply off the script of one path leaves the others alone. -/
theorem script_takeReply (path path' : String) (routes : List (String × List Reply)) :
    script (takeReply path routes).2 path' =
      if path' = path then (nextReply (script routes path)).2 else script routes path' := by
  induction routes with
  | nil => simp [takeReply, script, nextReply]
  | cons p routes ih =>
      obtain ⟨q, rs⟩ := p
      rw [takeReply]
      by_cases hq : q = path
      · subst hq
        rw [if_pos rfl]
        by_cases hpath : path' = q
        · simp [script, hpath]
        · have hb : (path' == q) = false := by simpa using hpath
          simp [script, List.lookup_cons, hb, hpath]
      · have hb : (path == q) = false := by simpa using Ne.symm hq
        rw [if_neg hq]
        by_cases hpath : path' = q
        · subst hpath
          simp [script, hq]
        · have hb' : (path' == q) = false := by simpa using hpath
          simp only [script, List.lookup_cons, hb, hb'] at ih ⊢
          exact ih

/-- The reply to a request when so many went before it; the last one stays. -/
def replyAt (rs : List Reply) (n : Nat) : Reply :=
  (rs[min n (rs.length - 1)]?).getD .unknown

/-- What is left of a script after so many requests. -/
def leftAt (rs : List Reply) (n : Nat) : List Reply :=
  rs.drop (min n (rs.length - 1))

theorem nextReply_cons (r : Reply) (rs : List Reply) :
    nextReply (r :: rs) = (r, if rs = [] then [r] else rs) := by
  cases rs with
  | nil => rfl
  | cons s rs => rfl

theorem nextReply_leftAt (rs : List Reply) (n : Nat) :
    nextReply (leftAt rs n) = (replyAt rs n, leftAt rs (n + 1)) := by
  rcases Nat.eq_zero_or_pos rs.length with h0 | hpos
  · rw [List.length_eq_zero_iff.1 h0, leftAt, List.drop_nil, leftAt, List.drop_nil]
    rfl
  · have hlt : min n (rs.length - 1) < rs.length := by omega
    rw [leftAt, List.drop_eq_getElem_cons hlt, nextReply_cons]
    refine Prod.ext ?_ ?_
    · simp [replyAt, List.getElem?_eq_getElem hlt]
    · dsimp only
      rw [leftAt]
      by_cases hlast : rs.length - 1 ≤ n
      · -- The last reply stays.
        have hn' : min (n + 1) (rs.length - 1) = min n (rs.length - 1) := by omega
        have hnone : rs.drop (min n (rs.length - 1) + 1) = [] := List.drop_eq_nil_of_le (by omega)
        rw [if_pos hnone, hn', List.drop_eq_getElem_cons hlt, hnone]
      · have hn' : min (n + 1) (rs.length - 1) = min n (rs.length - 1) + 1 := by omega
        rw [if_neg, hn']
        rw [List.drop_eq_nil_iff]
        omega

/-! ## Redirections -/

/-- A reply that sends nobody elsewhere. -/
def Stays (reply : Reply) : Prop :=
  Network.isRedirect reply.status = false ∨ reply.location = none

theorem stays_replyAt {routes : List (String × List Reply)}
    (h : ∀ p ∈ routes, ∀ reply ∈ p.2, Stays reply) (path : String) (n : Nat) :
    Stays (replyAt (script routes path) n) := by
  rw [replyAt]
  cases hreply : (script routes path)[min n ((script routes path).length - 1)]? with
  | none => exact .inr rfl
  | some reply =>
      have hmem := List.mem_of_getElem? hreply
      rw [script] at hmem
      cases hrs : routes.lookup path with
      | none =>
          rw [hrs] at hmem
          cases hmem
      | some rs =>
          rw [hrs] at hmem
          obtain ⟨front, rear, rfl, -⟩ := List.lookup_eq_some_iff.1 hrs
          exact h (path, rs) (by simp) reply hmem

end Backend

/-! ## What a reply is -/

namespace Network

/-- What comes back of a reply that sends nobody elsewhere. -/
def received (reply : Reply) : Option Response :=
  if reply.dropped then none
  else some ⟨reply.status, if reply.cutShort then none else some reply.body⟩

/-- Without redirections a request takes one reply. -/
theorem follow_of_stays (hops : Nat) {b : Backend} {r : Request}
    (horigin : r.url.origin = b.origin.origin) (hstays : Backend.Stays (b.answer r).1) :
    follow hops b r = (received (b.answer r).1, (b.answer r).2) := by
  have hno : ¬ r.url.origin ≠ b.origin.origin := not_not_intro horigin
  unfold follow
  rw [if_neg hno]
  revert hstays
  obtain ⟨reply, b'⟩ := b.answer r
  intro hstays
  rw [received]
  by_cases hdropped : reply.dropped = true
  · simp only [hdropped, if_true]
  · simp only [hdropped, Bool.false_eq_true, if_false]
    rcases hstays with hstatus | hlocation
    · have hstatus : isRedirect reply.status = false := hstatus
      rw [hstatus]
    · have hlocation : reply.location = none := hlocation
      rw [hlocation]
      cases isRedirect reply.status with
      | false => rfl
      | true => rfl

end Network

namespace Client

/-- The value that a reply is, if its status says that all went well, all of it arrived, and it can be
read. -/
def decoded {α : Type} (codec : Wire.Codec α) (reply : Reply) : Option α :=
  if reply.dropped = false ∧ reply.cutShort = false ∧ 200 ≤ reply.status ∧ reply.status < 300 then
    (Text.decodeStrict? reply.body).bind fun cs => (Json.read? (String.ofList cs)).bind codec.decode
  else none

theorem readBody_eq_ok_iff {α : Type} {codec : Wire.Codec α} {r : Response} {a : α} :
    readBody codec r = .ok a ↔
      ((r.body.bind Text.decodeStrict?).bind fun cs =>
        (Json.read? (String.ofList cs)).bind codec.decode) = some a := by
  rw [readBody]
  cases r.body.bind Text.decodeStrict? with
  | none => simp
  | some cs =>
      cases hread : (Json.read? (String.ofList cs)).bind codec.decode with
      | none => simp [hread]
      | some b => simp [hread]

theorem classify_eq_error {status : Nat} (h : ¬ (200 ≤ status ∧ status < 300)) :
    ∃ e, RequestError.classify status = .error e := by
  rw [RequestError.classify, if_neg h]
  split
  · exact ⟨_, rfl⟩
  · split
    · exact ⟨_, rfl⟩
    · split
      · exact ⟨_, rfl⟩
      · exact ⟨_, rfl⟩

/-- What a request comes to is what its reply is. -/
theorem accept_received {α : Type} (codec : Wire.Codec α) (reply : Reply) (a : α) :
    (accept (Network.received reply)).bind (readBody codec) = .ok a ↔
      decoded codec reply = some a := by
  rw [Network.received, decoded]
  by_cases hdropped : reply.dropped = true
  · simp [hdropped, accept, Except.bind]
  · rw [if_neg hdropped]
    by_cases hstatus : 200 ≤ reply.status ∧ reply.status < 300
    · have haccept : accept (some ⟨reply.status, if reply.cutShort then none else some reply.body⟩) =
          .ok ⟨reply.status, if reply.cutShort then none else some reply.body⟩ := by
        simp [accept, RequestError.classify, hstatus, Except.map]
      rw [haccept]
      refine readBody_eq_ok_iff.trans ?_
      by_cases hcut : reply.cutShort = true
      · simp [hcut]
      · simp [hcut, hdropped, hstatus]
    · obtain ⟨e, he⟩ := classify_eq_error hstatus
      have hnot : ¬ (reply.dropped = false ∧ reply.cutShort = false ∧ 200 ≤ reply.status ∧
          reply.status < 300) := fun h => hstatus h.2.2
      rw [if_neg hnot]
      simp [accept, he, Except.map, Except.bind]

/-- The request for a resource. -/
def requestFor (c : Client) (r : Resource) (date : Option String) : Request :=
  if r = .apodImage then c.request .post r.path (date.map dateBody) else c.request .get r.path none

theorem url_requestFor (c : Client) (r : Resource) (date : Option String) :
    (c.requestFor r date).url = endpoint c.base r.path := by
  rw [requestFor]
  split <;> rfl

theorem load_of_asks (c : Client) {r : Resource} {date : Option String} (h : asks r date = true)
    (n : Network) : c.load r date n =
      (some ((accept (n.ask (c.requestFor r date)).1).bind (readBody r.codec)),
        (n.ask (c.requestFor r date)).2) := by
  simp only [load, h, requestFor]
  by_cases hr : r = .apodImage
  · simp only [hr, if_true]
    rfl
  · simp only [hr, if_false]
    rfl

/-- A request for a resource takes one reply, and comes to what this reply is. -/
theorem load_serving {c : Client} (hbase : c.base.IsBase) {b : Backend} (hb : b.origin = c.base)
    {r : Resource} {date : Option String} (hasks : asks r date = true)
    (hstays : Backend.Stays (b.answer (c.requestFor r date)).1) :
    ∃ outcome, c.load r date (.serving b) =
        (some outcome, .serving (b.answer (c.requestFor r date)).2) ∧
      ∀ v, outcome = .ok v ↔ decoded r.codec (b.answer (c.requestFor r date)).1 = some v := by
  have horigin : (c.requestFor r date).url.origin = b.origin.origin := by
    rw [url_requestFor, Url.origin_endpoint hbase, hb]
  have hask : (Network.serving b).ask (c.requestFor r date) =
      (Network.received (b.answer (c.requestFor r date)).1,
        .serving (b.answer (c.requestFor r date)).2) := by
    rw [Network.ask, Network.follow_of_stays _ horigin hstays]
  rw [load_of_asks c hasks, hask]
  exact ⟨_, rfl, accept_received r.codec _⟩

/-! ## A whole script -/

/-- How a request for a resource looks to the backend, whatever the date. -/
def target (c : Client) (r : Resource) : String :=
  (Backend.see (c.requestFor r none)).target

theorem target_requestFor (c : Client) (r : Resource) (date : Option String) :
    (Backend.see (c.requestFor r date)).target = c.target r := by
  rw [target, Backend.see, url_requestFor, Backend.see, url_requestFor]

theorem target_injective {c : Client} (hbase : c.base.IsBase) {r r' : Resource}
    (h : c.target r = c.target r') : r = r' := by
  simp only [target, Backend.see, url_requestFor] at h
  have hquery : (endpoint c.base r.path).query = (endpoint c.base r'.path).query := rfl
  rw [hquery] at h
  refine Url.pathText_endpoint_injective hbase (String.toList_inj.1 ?_)
  have hlist := congrArg String.toList h
  rw [String.toList_append, String.toList_append] at hlist
  exact List.append_cancel_right hlist

/-- The requests for a resource among those that the backend saw. -/
def requestsTo (c : Client) (n : Network) (r : Resource) : List SeenRequest :=
  n.seen.filter fun q => q.target = c.target r

/-- The replies that a script has for a resource. -/
def repliesTo (c : Client) (routes : List (String × List Reply)) (r : Resource) : List Reply :=
  Backend.script routes (endpoint c.base r.path).pathText

/-- A network serves a script: so many requests for a resource were seen, so many replies to it are
gone, and nothing else was ever asked for. -/
def Serves (c : Client) (routes : List (String × List Reply)) (n : Network) : Prop :=
  ∃ b, n = .serving b ∧ b.origin = c.base ∧
    (∀ r, c.repliesTo b.routes r =
      Backend.leftAt (c.repliesTo routes r) (c.requestsTo n r).length) ∧
    ∀ q ∈ n.seen, ∃ r, q.target = c.target r

theorem serves_start (c : Client) (routes : List (String × List Reply)) :
    c.Serves routes (.serving ⟨c.base, routes, []⟩) := by
  refine ⟨_, rfl, rfl, fun r => ?_, fun q hq => by cases hq⟩
  simp [requestsTo, Network.seen, Backend.leftAt]

/-- What a fetch of a resource sends. -/
def sends (c : Client) (r : Resource) (date : Option String) : List SeenRequest :=
  if asks r date then [Backend.see (c.requestFor r date)] else []

/-- What a fetch of a resource brings, if its turn is next. -/
def brings (c : Client) (routes : List (String × List Reply)) (n : Network) (r : Resource)
    (date : Option String) : Option r.Carrier :=
  if asks r date then
    decoded r.codec (Backend.replyAt (c.repliesTo routes r) (c.requestsTo n r).length)
  else none

variable {c : Client} {routes : List (String × List Reply)} {n : Network}

/-- A request for a resource counts for this resource and for no other. -/
theorem requestsTo_append (hbase : c.base.IsBase) {n' : Network} {r : Resource}
    {date : Option String} (hseen : n'.seen = n.seen ++ [Backend.see (c.requestFor r date)])
    (r' : Resource) : c.requestsTo n' r' =
      c.requestsTo n r' ++ if r' = r then [Backend.see (c.requestFor r date)] else [] := by
  rw [requestsTo, hseen, List.filter_append, requestsTo]
  refine congrArg _ ?_
  rw [List.filter_cons, List.filter_nil, target_requestFor]
  by_cases hr : r' = r
  · simp [hr]
  · have hne : c.target r ≠ c.target r' := fun h => hr (target_injective hbase h).symm
    simp [hr, hne]

theorem Serves.load_of_asks (hbase : c.base.IsBase)
    (hroutes : ∀ p ∈ routes, ∀ reply ∈ p.2, Backend.Stays reply) (hserves : c.Serves routes n)
    {r : Resource} {date : Option String} (hasks : asks r date = true) :
    ∃ outcome n', c.load r date n = (some outcome, n') ∧ c.Serves routes n' ∧
      n'.seen = n.seen ++ [Backend.see (c.requestFor r date)] ∧
      ∀ v, outcome = .ok v ↔
        decoded r.codec (Backend.replyAt (c.repliesTo routes r) (c.requestsTo n r).length) = some v := by
  obtain ⟨b, rfl, horigin, hscript, hseen⟩ := hserves
  have hreply : (b.answer (c.requestFor r date)).1 =
      Backend.replyAt (c.repliesTo routes r) (c.requestsTo (.serving b) r).length := by
    have hanswer : (b.answer (c.requestFor r date)).1 =
        (Backend.takeReply (endpoint c.base r.path).pathText b.routes).1 := by
      rw [Backend.answer, url_requestFor]
    rw [hanswer, Backend.takeReply_fst, ← repliesTo, hscript, Backend.nextReply_leftAt]
  have hstays : Backend.Stays (b.answer (c.requestFor r date)).1 := by
    rw [hreply]
    exact Backend.stays_replyAt hroutes _ _
  obtain ⟨outcome, hload, houtcome⟩ := load_serving hbase horigin hasks hstays
  rw [hreply] at houtcome
  refine ⟨outcome, _, hload, ⟨_, rfl, horigin, ?_, ?_⟩, rfl, houtcome⟩
  · intro r'
    have htake := Backend.script_takeReply (endpoint c.base r.path).pathText
      (endpoint c.base r'.path).pathText b.routes
    have hanswer : c.repliesTo (b.answer (c.requestFor r date)).2.routes r' =
        Backend.script (Backend.takeReply (endpoint c.base r.path).pathText b.routes).2
          (endpoint c.base r'.path).pathText := by
      rw [repliesTo, Backend.answer, url_requestFor]
    rw [hanswer, htake, requestsTo_append hbase (n := .serving b) rfl]
    by_cases hr : r' = r
    · subst hr
      rw [if_pos rfl, if_pos rfl, ← repliesTo, hscript, Backend.nextReply_leftAt, List.length_append]
      rfl
    · have hne : (endpoint c.base r'.path).pathText ≠ (endpoint c.base r.path).pathText :=
        fun h => hr (Url.pathText_endpoint_injective hbase h)
      rw [if_neg hne, if_neg hr, List.append_nil]
      exact hscript r'
  · intro q hq
    rcases List.mem_append.1 hq with hq | hq
    · exact hseen q hq
    · rw [List.mem_singleton.1 hq]
      exact ⟨r, c.target_requestFor r date⟩

/-- A fetch of a resource sends what it has to ask for, and brings what the next reply is. -/
theorem Serves.load (hbase : c.base.IsBase)
    (hroutes : ∀ p ∈ routes, ∀ reply ∈ p.2, Backend.Stays reply) (hserves : c.Serves routes n)
    (r : Resource) (date : Option String) :
    c.Serves routes (c.load r date n).2 ∧
      (∀ r', c.requestsTo (c.load r date n).2 r' =
        c.requestsTo n r' ++ if r' = r then c.sends r date else []) ∧
      ∀ v, (c.load r date n).1 = some (.ok v) ↔ c.brings routes n r date = some v := by
  cases hasks : asks r date with
  | true =>
      obtain ⟨outcome, n', hload, hserves', hseen, houtcome⟩ :=
        hserves.load_of_asks hbase hroutes hasks
      rw [hload, sends, brings, if_pos hasks, if_pos hasks]
      exact ⟨hserves', requestsTo_append hbase hseen, fun v =>
        Iff.trans ⟨Option.some.inj, congrArg some⟩ (houtcome v)⟩
  | false =>
      have hload : c.load r date n = (none, n) := by simp [Client.load, hasks]
      rw [hload, sends, brings, hasks]
      exact ⟨hserves, by simp, by simp⟩

end Client

end LiveFeed
