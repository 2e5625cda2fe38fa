import LiveFeed.Proofs.NetworkAddresses
import LiveFeed.Proofs.TokenMap
import LiveFeed.Watch

/-!
# What a watch needs of the stored data

Settings and tokens are checked when they are stored and used when a watch is set up.  What is stored
can always be loaded and resolved.  Whether it can be used is checked only then: an address is stored
whatever its scheme is, and a token whatever characters it holds.

* `Database.Operation.IsOwn`: what the client itself changes;
* `Database.filed_run`: where a stored token comes from;
* `Watch.Sendable`, `Watch.HasSocket`: what a token and an address have to be like;
* `Watch.setUp_iff`: when a watch is set up;
* `Database.own_changes_set_up`: after any changes of the client's own;
* `Database.accepted_not_usable`: what is accepted and cannot be used.
-/

namespace LiveFeed

/-! ## What is used -/

namespace Watch

/-- A token without control characters but the tab. -/
def Sendable (token : String) : Prop :=
  ∀ c ∈ token.toList, c.toNat < 0x20 ∨ c.toNat = 0x7F → c = '\t'

/-- An address with the scheme of requests or of sockets. -/
def HasSocket (u : Url) : Prop :=
  u.scheme = "http" ∨ u.scheme = "https" ∨ u.scheme = "ws" ∨ u.scheme = "wss"

theorem fitsHeader_iff {token : String} : Client.fitsHeader token = true ↔ Sendable token := by
  simp only [Client.fitsHeader, Sendable, List.all_eq_true, Bool.or_eq_true, Bool.and_eq_true,
    beq_iff_eq, bne_iff_ne, decide_eq_true_eq]
  refine forall₂_congr fun c _ => ?_
  constructor
  · rintro (htab | ⟨hlow, hdel⟩) hcontrol
    · exact htab
    · omega
  · intro h
    by_cases hcontrol : c.toNat < 0x20 ∨ c.toNat = 0x7F
    · exact .inl (h hcontrol)
    · exact .inr ⟨by omega, by omega⟩

theorem create_eq_ok_iff {base : Url} {token : Option String} :
    (∃ client, Client.create base token = .ok client) ↔ ∀ t, token = some t → Sendable t := by
  rw [Client.create]
  cases token with
  | none => simp
  | some t =>
      by_cases hfits : Client.fitsHeader t = true
      · simp [hfits, fitsHeader_iff.1 hfits]
      · simp [hfits, ← fitsHeader_iff]

theorem socketScheme?_isSome_iff {u : Url} :
    (∃ scheme, socketScheme? u.scheme = some scheme) ↔ HasSocket u := by
  unfold socketScheme? HasSocket
  constructor
  · rintro ⟨scheme, h⟩
    split at h
    · next hplain => exact hplain.elim .inl fun hws => .inr (.inr (.inl hws))
    split at h
    · next hsecure => exact hsecure.elim (fun hs => .inr (.inl hs)) fun hwss => .inr (.inr (.inr hwss))
    · cases h
  · rintro (h | h | h | h) <;> simp [h]

/-- A socket's scheme implies the port that the base's scheme implies. -/
theorem impliedPort_socketScheme {base scheme : String} (h : socketScheme? base = some scheme) :
    Url.impliedPort scheme = Url.impliedPort base ∧ (Url.impliedPort base).isSome = true := by
  unfold socketScheme? at h
  split at h
  · next hplain =>
      cases h
      rcases hplain with rfl | rfl <;> decide
  split at h
  · next hsecure =>
      cases h
      rcases hsecure with rfl | rfl <;> decide
  · cases h

/-- A socket's scheme may take the place of the base's. -/
theorem exists_socketBase? {base : Url} (hread : base.WasRead) {scheme : String}
    (hscheme : socketScheme? base.scheme = some scheme) : ∃ u, socketBase? base scheme = some u := by
  obtain ⟨s, hs⟩ := hread
  obtain ⟨hsame, hnet⟩ := impliedPort_socketScheme hscheme
  rw [socketBase?, (Url.networkForm_of_read hs hnet).withScheme?_eq hsame]
  exact ⟨_, rfl⟩

theorem updateAddress_eq_ok_iff {base : Url} (hread : base.WasRead) {token : Option String} :
    (∃ address, updateAddress base token = .ok address) ↔ HasSocket base := by
  rw [← socketScheme?_isSome_iff, updateAddress]
  cases hscheme : socketScheme? base.scheme with
  | none => simp
  | some scheme =>
      obtain ⟨u, hu⟩ := exists_socketBase? hread hscheme
      simp [hu]

/-- With resources chosen and a token resolved, a watch is set up if the token can be sent and the
address has a socket. -/
theorem setUp_iff {settings : ClientSettings} {place : Vault.Location} {env : Option String}
    {named : List Resource} {date : Option String} {resources : List Resource} {token : Option String}
    (hread : settings.backend.WasRead) (hchosen : choose named date.isSome = .ok resources)
    (htoken : Vault.resolve place settings.backend env = .ok token) :
    (∃ setup, setUp settings place env named date = .ok setup) ↔
      (∀ t, token = some t → Sendable t) ∧ HasSocket settings.backend := by
  have hclient := @create_eq_ok_iff settings.backend token
  have haddress := @updateAddress_eq_ok_iff settings.backend hread token
  rw [← hclient, ← haddress]
  simp only [setUp, hchosen, htoken, bind, Except.bind]
  cases Client.create settings.backend token with
  | error f => simp
  | ok client =>
      cases updateAddress settings.backend token with
      | error e => simp
      | ok address => simp

end Watch

/-! ## Where stored tokens come from -/

namespace Database

/-- What the client itself changes: a setting is set or forgotten, somebody signs in or out. -/
def Operation.IsOwn : Operation → Prop
  | .config (.set _ _) => True
  | .config (.unset _) => True
  | .vault (.login _ _) => True
  | .vault (.logout _) => True
  | _ => False

/-- Whatever is filed under a name is a token that somebody signed in with, blanks around it dropped. -/
def Filed (ops : List Operation) (db : Database) : Prop :=
  ∀ name, db.tokenMap name = .nothing ∨
    ∃ u given, Operation.vault (.login u given) ∈ ops ∧ originKey u = name ∧
      db.tokenMap name = .token (Text.trim given)

theorem Filed.vault {ops : List Operation} {db : Database} (h : db.Filed ops) {op : Vault.Operation}
    (hop : Operation.vault op ∈ ops) (hown : (Operation.vault op).IsOwn) :
    (Vault.perform db op).2.Filed ops := by
  intro name
  by_cases hname : name = op.name
  · subst hname
    have hbinding := congrArg Prod.snd (perform_vault_same db op)
    cases op with
    | login u given =>
        by_cases hblank : Text.trim given = ""
        · -- A blank token is refused, so what was filed before is filed still.
          have hsame : (Vault.perform db (.login u given)).2.tokenMap (originKey u) =
              db.tokenMap (originKey u) := by
            simpa [Binding.step, Vault.Operation.name, hblank] using hbinding.symm
          have hbefore := h (originKey u)
          rwa [← hsame] at hbefore
        · refine .inr ⟨u, given, hop, rfl, ?_⟩
          simpa [Binding.step, Vault.Operation.name, hblank] using hbinding.symm
    | logout u =>
        refine .inl ?_
        simpa [Binding.step, Vault.Operation.name] using hbinding.symm
    | get | set | remove | token | resolve | write => exact hown.elim
  · rw [perform_vault_other db hname]
    exact h name

theorem Filed.perform {ops : List Operation} {db : Database} (h : db.Filed ops) {op : Operation}
    (hop : op ∈ ops) (hown : op.IsOwn) : (db.perform op).2.Filed ops := by
  cases op with
  | config => exact h
  | vault op => exact h.vault hop hown
  | reopen => exact hown.elim

theorem filed_run {ops : List Operation} {db : Database} (h : db.Filed ops) {part : List Operation}
    (hsome : ∀ op ∈ part, op ∈ ops ∧ op.IsOwn) : (db.run part).2.Filed ops := by
  induction part generalizing db with
  | nil => exact h
  | cons op rest ih =>
      rcases List.forall_mem_cons.1 hsome with ⟨⟨hop, hown⟩, hrest⟩
      exact ih (h.perform hop hown) hrest

/-- A token that is resolved without the environment is one that somebody signed in with. -/
theorem Filed.resolve {ops : List Operation} {db : Database} (h : db.Filed ops) (u : Url) :
    ∃ token, Vault.resolve (.present db) u none = .ok token ∧
      ∀ t, token = some t → ∃ v given, Operation.vault (.login v given) ∈ ops ∧
        originKey v = originKey u ∧ t = Text.trim given := by
  have hresolve := db.resolve_eq u none
  -- Nothing is filed there, or what somebody signed in with at an address of the same name.
  rcases h (originKey u) with hnothing | ⟨v, given, hlogin, hkey, htoken⟩
  · rw [hnothing] at hresolve
    exact ⟨none, hresolve, fun t ht => by cases ht⟩
  · rw [htoken] at hresolve
    refine ⟨some (Text.trim given), hresolve, fun t ht => ?_⟩
    exact ⟨v, given, hlogin, hkey, (Option.some.inj ht).symm⟩

/-! ## Changes of the client's own -/

theorem loads_of_own {ops : List Operation} (hops : ∀ op ∈ ops, op.IsOwn) :
    ∃ settings, ClientSettings.load (empty.run ops).2.config = .ok settings := by
  rcases loads_run_empty ops with hloads | ⟨name, value, hwrite⟩
  · exact hloads
  · exact (hops _ hwrite).elim

/-- The base address is the one that was set last, or the default. -/
theorem backend_of_own {ops : List Operation} {settings : ClientSettings}
    (hload : ClientSettings.load (empty.run ops).2.config = .ok settings) :
    settings.backend = ClientSettings.default.backend ∨
      ∃ text, LastStored ops Config.Key.backendUrl.name text ∧
        Url.read text = .ok settings.backend := by
  have hstands := (ClientSettings.load_eq_ok_iff.1 hload).backend
  cases hrow : (empty.run ops).2.config.get? Config.Key.backendUrl.name with
  | none =>
      rw [hrow] at hstands
      exact .inl hstands
  | some text =>
      rw [hrow] at hstands
      exact .inr ⟨text, get?_run_empty.1 hrow, hstands⟩

/-- So it is one that was read. -/
theorem wasRead_of_own {ops : List Operation} {settings : ClientSettings}
    (hload : ClientSettings.load (empty.run ops).2.config = .ok settings) :
    settings.backend.WasRead := by
  rcases backend_of_own hload with hdefault | ⟨text, -, hread⟩
  · rw [hdefault]
    exact ⟨"http://localhost:8000", rfl⟩
  · exact ⟨text, hread⟩

/-- After any changes of the client's own the settings load and the token for the base address is
resolved.  The address is the one set last or the default, the token one that somebody signed in with
at the same origin.  The client can be made if and only if the token holds no control character but the
tab, the address of the socket if and only if the base address has one of the four schemes, and a watch
is set up if and only if both can be. -/
theorem own_changes_set_up (ops : List Operation) (hops : ∀ op ∈ ops, op.IsOwn) :
    ∃ settings token,
      ClientSettings.load (empty.run ops).2.config = .ok settings ∧
      Vault.resolve (.present (empty.run ops).2) settings.backend none = .ok token ∧
      (settings.backend = ClientSettings.default.backend ∨
        ∃ text, LastStored ops Config.Key.backendUrl.name text ∧
          Url.read text = .ok settings.backend) ∧
      (∀ t, token = some t → ∃ u given, Operation.vault (.login u given) ∈ ops ∧
        originKey u = originKey settings.backend ∧ t = Text.trim given) ∧
      ((∃ client, Client.create settings.backend token = .ok client) ↔
        ∀ t, token = some t → Watch.Sendable t) ∧
      ((∃ address, updateAddress settings.backend token = .ok address) ↔
        Watch.HasSocket settings.backend) ∧
      ∀ named date resources, Watch.choose named (Option.isSome date) = .ok resources →
        ((∃ setup, Watch.setUp settings (.present (empty.run ops).2) none named date = .ok setup) ↔
          (∀ t, token = some t → Watch.Sendable t) ∧ Watch.HasSocket settings.backend) := by
  rcases loads_of_own hops with ⟨settings, hload⟩
  have hempty : empty.Filed ops := fun name => .inl rfl
  have hfiled : (empty.run ops).2.Filed ops := filed_run hempty fun op hop => ⟨hop, hops op hop⟩
  -- A stored token always resolves, since nobody but the client has written one.
  rcases hfiled.resolve settings.backend with ⟨token, hresolve, hlogin⟩
  have hread := wasRead_of_own hload
  exact ⟨settings, token, hload, hresolve, backend_of_own hload, hlogin, Watch.create_eq_ok_iff,
    Watch.updateAddress_eq_ok_iff hread, fun named date resources hchosen =>
      Watch.setUp_iff hread hchosen hresolve⟩

/-- A user sets an address with a path, signs in at its origin and out again elsewhere. -/
def signedIn : List Operation :=
  [.config (.set "backend_url" "http://localhost:8000/api"),
    .vault (.login ClientSettings.defaultBackendUrl " secret "),
    .config (.unset "heartbeat_secs"),
    .vault (.logout ⟨"https", some ⟨"", none, some (.domain "auth.example.com"), none⟩,
      .segments [[]], none, none⟩)]

theorem signedIn_isOwn : ∀ op ∈ signedIn, op.IsOwn := by
  simp [signedIn, Operation.IsOwn]

theorem own_changes_set_up_signedIn :
    (∀ op ∈ signedIn, op.IsOwn) ∧ ∃ settings token,
      ClientSettings.load (empty.run signedIn).2.config = .ok settings ∧
      Vault.resolve (.present (empty.run signedIn).2) settings.backend none = .ok token ∧
      ((∃ client, Client.create settings.backend token = .ok client) ↔
        ∀ t, token = some t → Watch.Sendable t) ∧
      ((∃ address, updateAddress settings.backend token = .ok address) ↔
        Watch.HasSocket settings.backend) := by
  obtain ⟨settings, token, hload, hresolve, -, -, hclient, haddress, -⟩ :=
    own_changes_set_up signedIn signedIn_isOwn
  exact ⟨signedIn_isOwn, settings, token, hload, hresolve, hclient, haddress⟩

/-- An address whose scheme was forgotten, so that its host is taken for one. -/
def schemeForgotten : List Operation :=
  [.config (.set "backend_url" "localhost:8000")]

/-- A token with a control character inside. -/
def controlPasted : List Operation :=
  [.vault (.login ClientSettings.defaultBackendUrl "a\x01b")]

/-- Both are accepted and load, but there is no socket below the one and no header for the other. -/
theorem accepted_not_usable :
    ((empty.run schemeForgotten).1 = [.done] ∧ ∃ settings,
      ClientSettings.load (empty.run schemeForgotten).2.config = .ok settings ∧
      ∀ token, updateAddress settings.backend token = .error (.unsupportedScheme "localhost")) ∧
    (empty.run controlPasted).1 = [.done] ∧ ∃ settings token,
      ClientSettings.load (empty.run controlPasted).2.config = .ok settings ∧
      Vault.resolve (.present (empty.run controlPasted).2) settings.backend none = .ok token ∧
      Client.create settings.backend token = .error .badHeader := by
  let kept := Vault.set empty (originKey ClientSettings.defaultBackendUrl) (.bearer "a\x01b")
  have hbinding : kept.tokenMap (originKey ClientSettings.defaultBackendUrl) = .token "a\x01b" := by
    simp only [kept, tokenMap_set, TokenMap.bind, if_true]
    rfl
  have hresolve : Vault.resolve (.present kept) ClientSettings.defaultBackendUrl none =
      .ok (some "a\x01b") := by
    rw [resolve_eq, hbinding]
    rfl
  exact ⟨⟨rfl, _, rfl, fun token => rfl⟩, rfl, .default, some "a\x01b", rfl, hresolve, rfl⟩

end Database

end LiveFeed
