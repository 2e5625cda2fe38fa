import LiveFeed.Proofs.StoredData

/-!
# Stored tokens as a map

Whatever is done with the stored tokens comes to what a map from names to tokens would come to, in
which each name goes its own way.  Settings in the same database, closing and opening do not show.

* `Binding`, `Binding.step`: what is filed under one name, and what an operation does to it;
* `TokenMap.step`: the map;
* `Answer.run_selected`: some operations of a run, seen through a view of its state;
* `Database.tokens_refine_map`: runs of any length over both tables.
-/

namespace LiveFeed

/-- What is filed under a name. -/
inductive Binding where
  | nothing
  | token (token : String)
  /-- A row that is no credential. -/
  | unreadable

namespace Binding

/-- What a row's text is a binding to. -/
def ofData (data : String) : Binding :=
  match Wire.Kind.credential.read? data with
  | some c => .token c.token
  | none => .unreadable

/-- The credential of a binding. -/
def credential : Binding → Except Failure (Option Credential)
  | .nothing => .ok none
  | .token t => .ok (some (.bearer t))
  | .unreadable => .error .undecodable

/-- The token to use: the bound one wins over the environment, and an empty one there is none.  A row
that is no credential is not passed over. -/
def resolved (env : Option String) : Binding → Except Failure (Option String)
  | .token t => .ok (some t)
  | .unreadable => .error .undecodable
  | .nothing =>
    match env with
    | some t => .ok (if t = "" then none else some t)
    | none => .ok none

/-- What an operation under a name comes to, and what is filed there after it. -/
def step (b : Binding) : Vault.Operation → Answer × Binding
  | .get _ => (.ofQuestion .credential b.credential, b)
  | .set _ c => (.done, .token c.token)
  | .remove _ => (.done, .nothing)
  | .token _ env => (.ofQuestion .text (b.resolved env), b)
  | .login _ t => if Text.trim t = "" then (.failed .noToken, b) else (.done, .token (Text.trim t))
  | .logout _ => (.done, .nothing)
  | .resolve _ env => (.ofQuestion .text (b.resolved env), b)
  | .write _ data => (.done, .ofData data)

end Binding

/-- The name that an operation is about. -/
def Vault.Operation.name : Vault.Operation → String
  | .get name => name
  | .set name _ => name
  | .remove name => name
  | .token name _ => name
  | .login u _ => originKey u
  | .logout u => originKey u
  | .resolve u _ => originKey u
  | .write name _ => name

/-- What is filed under each name. -/
def TokenMap := String → Binding

namespace TokenMap

/-- The map with something else under one name. -/
def bind (m : TokenMap) (name : String) (b : Binding) : TokenMap :=
  fun k => if k = name then b else m k

theorem bind_self (m : TokenMap) (name : String) : m.bind name (m name) = m := by
  funext k
  rw [bind]
  split
  · next hk => rw [hk]
  · rfl

/-- What an operation comes to: it works on the binding of its name and leaves the others. -/
def step (m : TokenMap) (op : Vault.Operation) : Answer × TokenMap :=
  (((m op.name).step op).1, m.bind op.name ((m op.name).step op).2)

end TokenMap

/-! ## Some operations of a run -/

namespace Answer

variable {σ τ ο π : Type}

/-- The answers to those operations that `p` selects. -/
def selected (p : ο → Bool) (ops : List ο) (answers : List Answer) : List Answer :=
  ((ops.zip answers).filter fun e => p e.1).map (·.2)

theorem run_cons (step : σ → ο → Answer × σ) (s : σ) (op : ο) (ops : List ο) :
    run step s (op :: ops) =
      ((step s op).1 :: (run step (step s op).2 ops).1, (run step (step s op).2 ops).2) := rfl

theorem selected_cons (p : ο → Bool) (op : ο) (ops : List ο) (answer : Answer)
    (answers : List Answer) : selected p (op :: ops) (answer :: answers) =
      if p op then answer :: selected p ops answers else selected p ops answers := by
  simp only [selected, List.zip_cons_cons, List.filter_cons]
  split <;> rfl

/-- If the selected operations step as `step'` does in a view of the state, and the others do not show
in it, then the selected answers are those of `step'` alone. -/
theorem run_selected {step : σ → ο → Answer × σ} {step' : τ → π → Answer × τ} (view : σ → τ)
    (select : ο → Option π)
    (some_step : ∀ s op op', select op = some op' →
      step' (view s) op' = ((step s op).1, view (step s op).2))
    (none_step : ∀ s op, select op = none → view (step s op).2 = view s) (s : σ) (ops : List ο) :
    (selected (fun op => (select op).isSome) ops (run step s ops).1, view (run step s ops).2) =
      run step' (view s) (ops.filterMap select) := by
  induction ops generalizing s with
  | nil => rfl
  | cons op ops ih =>
      have ih := ih (step s op).2
      rw [run_cons, selected_cons]
      cases hop : select op with
      | none =>
          rw [List.filterMap_cons_none hop, ← none_step s op hop]
          exact ih
      | some op' =>
          rw [List.filterMap_cons_some hop, run_cons, some_step s op op' hop, ← ih]
          rfl

end Answer

/-! ## What is stored, as a map -/

namespace Database

/-- The map that the stored tokens are. -/
def tokenMap (db : Database) : TokenMap := fun name =>
  match db.credentials.get? name with
  | none => .nothing
  | some data => .ofData data

theorem get_eq (db : Database) (name : String) :
    Vault.get db name = (db.tokenMap name).credential := by
  rw [Vault.get, tokenMap]
  rcases db.credentials.get? name with _ | data
  · rfl
  · rcases h : Wire.Kind.credential.read? data with _ | c
    · simp only [Binding.ofData, h]
      rfl
    · simp only [Binding.ofData, h]
      rfl

theorem environmentToken_some (t : String) :
    Vault.environmentToken (some t) = if t = "" then none else some t := by
  simp only [Vault.environmentToken, Option.filter, Bool.not_eq_true']
  by_cases ht : t = ""
  · simp [ht]
  · simp [ht]

theorem token_eq (db : Database) (name : String) (env : Option String) :
    Vault.token db name env = (db.tokenMap name).resolved env := by
  rw [Vault.token, get_eq]
  cases db.tokenMap name with
  | nothing =>
      cases env with
      | none => rfl
      | some t => exact congrArg Except.ok (environmentToken_some t)
  | token t => rfl
  | unreadable => rfl

theorem resolve_eq (db : Database) (u : Url) (env : Option String) :
    Vault.resolve (.present db) u env = (db.tokenMap (originKey u)).resolved env :=
  db.token_eq (originKey u) env

/-- A row that is put binds its name to what its text reads as. -/
theorem tokenMap_put (db : Database) (name data : String) :
    ({ db with credentials := db.credentials.put name data } : Database).tokenMap =
      db.tokenMap.bind name (.ofData data) := by
  funext k
  simp only [tokenMap, Table.get?_put, TokenMap.bind]
  by_cases hk : k = name
  · simp only [if_pos hk]
  · simp only [if_neg hk]

theorem tokenMap_erase (db : Database) (name : String) :
    ({ db with credentials := db.credentials.erase name } : Database).tokenMap =
      db.tokenMap.bind name .nothing := by
  funext k
  simp only [tokenMap, Table.get?_erase, TokenMap.bind]
  by_cases hk : k = name
  · simp only [if_pos hk]
  · simp only [if_neg hk]

/-- A credential that is filed binds its name to its token. -/
theorem tokenMap_set (db : Database) (name : String) (c : Credential) :
    (Vault.set db name c).tokenMap = db.tokenMap.bind name (.token c.token) := by
  rw [Vault.set, tokenMap_put, Binding.ofData, Credential.read?_write]

/-- An operation on the stored tokens comes to what it comes to on the map. -/
theorem perform_vault (db : Database) (op : Vault.Operation) :
    db.tokenMap.step op = ((Vault.perform db op).1, (Vault.perform db op).2.tokenMap) := by
  cases op with
  | get name =>
      refine Prod.ext ?_ (TokenMap.bind_self _ _)
      exact congrArg (Answer.ofQuestion .credential) (db.get_eq name).symm
  | token name env =>
      refine Prod.ext ?_ (TokenMap.bind_self _ _)
      exact congrArg (Answer.ofQuestion .text) (db.token_eq name env).symm
  | resolve u env =>
      refine Prod.ext ?_ (TokenMap.bind_self _ _)
      exact congrArg (Answer.ofQuestion .text) (db.token_eq (originKey u) env).symm
  | set name c => exact Prod.ext rfl (db.tokenMap_set name c).symm
  | remove name => exact Prod.ext rfl (db.tokenMap_erase name).symm
  | logout u => exact Prod.ext rfl (db.tokenMap_erase (originKey u)).symm
  | write name data => exact Prod.ext rfl (db.tokenMap_put name data).symm
  | login u t =>
      rw [Vault.perform, login_present]
      by_cases ht : Text.trim t = ""
      · simp only [TokenMap.step, Binding.step, if_pos ht]
        exact Prod.ext rfl (TokenMap.bind_self _ _)
      · simp only [TokenMap.step, Binding.step, if_neg ht]
        exact Prod.ext rfl (db.tokenMap_set _ _).symm

theorem perform_vault_same (db : Database) (op : Vault.Operation) :
    (db.tokenMap op.name).step op =
      ((Vault.perform db op).1, (Vault.perform db op).2.tokenMap op.name) := by
  have hanswer := congrArg Prod.fst (perform_vault db op)
  have hname := congrArg (fun m : TokenMap => m op.name) (congrArg Prod.snd (perform_vault db op))
  simp only [TokenMap.step, TokenMap.bind, if_true] at hname
  exact Prod.ext hanswer hname

theorem perform_vault_other (db : Database) {op : Vault.Operation} {name : String}
    (h : name ≠ op.name) : (Vault.perform db op).2.tokenMap name = db.tokenMap name := by
  have hname := congrArg (fun m : TokenMap => m name) (congrArg Prod.snd (perform_vault db op))
  simp only [TokenMap.step, TokenMap.bind, if_neg h] at hname
  exact hname.symm

/-! ## Runs -/

/-- The operation on the stored tokens that an operation is. -/
def Operation.vault? : Operation → Option Vault.Operation
  | .vault op => some op
  | _ => none

/-- The operation on the tokens under one name that an operation is. -/
def Operation.under? (name : String) : Operation → Option Vault.Operation
  | .vault op => if op.name = name then some op else none
  | _ => none

/-- The operation on the settings that an operation is. -/
def Operation.config? : Operation → Option Config.Operation
  | .config op => some op
  | _ => none

theorem run_vault (db : Database) (ops : List Operation) :
    (Answer.selected (fun op => op.vault?.isSome) ops (db.run ops).1, (db.run ops).2.tokenMap) =
      Answer.run TokenMap.step db.tokenMap (ops.filterMap Operation.vault?) := by
  refine Answer.run_selected tokenMap Operation.vault? ?_ ?_ db ops
  · rintro db (_ | op | _) op' hop
    · cases hop
    · cases hop
      exact perform_vault db op
    · cases hop
  · rintro db (_ | _ | path) hop
    · rfl
    · cases hop
    · rw [perform_reopen]

theorem run_config (db : Database) (ops : List Operation) :
    (Answer.selected (fun op => op.config?.isSome) ops (db.run ops).1, (db.run ops).2.config) =
      Answer.run Config.perform db.config (ops.filterMap Operation.config?) := by
  refine Answer.run_selected Database.config Operation.config? ?_ ?_ db ops
  · rintro db (op | _ | _) op' hop
    · cases hop
      rfl
    · cases hop
    · cases hop
  · rintro db (_ | op | path) hop
    · cases hop
    · exact perform_vault_config db op
    · rw [perform_reopen]

/-- The operations under one name see and change only what is filed there. -/
theorem run_under (name : String) (db : Database) (ops : List Operation) :
    (Answer.selected (fun op => (op.under? name).isSome) ops (db.run ops).1,
        (db.run ops).2.tokenMap name) =
      Answer.run Binding.step (db.tokenMap name) (ops.filterMap (Operation.under? name)) := by
  refine Answer.run_selected (fun db => db.tokenMap name) (Operation.under? name) ?_ ?_ db ops
  · rintro db (_ | op | _) op' hop
    · cases hop
    · obtain ⟨rfl, hsame⟩ := Option.ite_none_right_eq_some.1 hop
      cases hsame
      exact perform_vault_same db op
    · cases hop
  · rintro db (_ | op | path) hop
    · rfl
    · have hname : name ≠ op.name := by
        rintro rfl
        simp [Operation.under?] at hop
      exact perform_vault_other db hname
    · rw [perform_reopen]

/-- If all the operations are selected, so are all the answers. -/
theorem selected_of_forall {p : Operation → Bool} (db : Database) (ops : List Operation)
    (h : ∀ op ∈ ops, p op = true) : Answer.selected p ops (db.run ops).1 = (db.run ops).1 := by
  induction ops generalizing db with
  | nil => rfl
  | cons op ops ih =>
      rw [List.forall_mem_cons] at h
      rw [run, Answer.run_cons, Answer.selected_cons, if_pos h.1]
      exact congrArg _ (ih _ h.2)

/-- The answers under one name are what they are when all that has to do with others is left out. -/
theorem run_filter_under (name : String) (db : Database) (ops : List Operation) :
    Answer.selected (fun op => (op.under? name).isSome) ops (db.run ops).1 =
      (db.run (ops.filter fun op => (op.under? name).isSome)).1 := by
  let kept := ops.filter fun op => (op.under? name).isSome
  have hkept : kept.filterMap (Operation.under? name) = ops.filterMap (Operation.under? name) := by
    rw [List.filterMap_filter]
    refine congrArg (fun f => ops.filterMap f) (funext fun op => ?_)
    cases Operation.under? name op with
    | none => rfl
    | some op' => rfl
  have hall := congrArg Prod.fst (run_under name db ops)
  have hsome := congrArg Prod.fst (run_under name db kept)
  rw [hkept] at hsome
  exact (hall.trans hsome.symm).trans
    (selected_of_forall db kept fun op hop => (List.mem_filter.1 hop).2)

/-- Whatever is done with a database, its tokens answer as a map from names to tokens does that knows
nothing of settings, closing and opening; what is done under one name shows under no other; the
settings answer as if there were no tokens; a credential that is set is read back; and what fails
changes nothing. -/
theorem tokens_refine_map (db : Database) (ops : List Operation) :
    (Answer.selected (fun op => op.vault?.isSome) ops (db.run ops).1, (db.run ops).2.tokenMap) =
        Answer.run TokenMap.step db.tokenMap (ops.filterMap Operation.vault?) ∧
    (∀ name, Answer.selected (fun op => (op.under? name).isSome) ops (db.run ops).1 =
        (db.run (ops.filter fun op => (op.under? name).isSome)).1) ∧
    (Answer.selected (fun op => op.config?.isSome) ops (db.run ops).1, (db.run ops).2.config) =
        Answer.run Config.perform db.config (ops.filterMap Operation.config?) ∧
    (∀ name c, Vault.get (Vault.set (db.run ops).2 name c) name = .ok (some c)) ∧
    ∀ op failure, ((db.run ops).2.perform op).1 = .failed failure →
      ((db.run ops).2.perform op).2 = (db.run ops).2 := by
  refine ⟨run_vault db ops, fun name => run_filter_under name db ops, run_config db ops, ?_, ?_⟩
  · intro name c
    rw [get_eq, tokenMap_set, TokenMap.bind, if_pos rfl]
    rfl
  · exact fun op failure h => perform_failed h

end Database

end LiveFeed
