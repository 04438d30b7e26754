import Ledgerlock.Spec.Parts

/-!
# Ledgerlock.Spec.Permanence

What is in the database stays there.

Whatever requests, calls, operators and replicas do, the collections only grow, and of an
account only the status and the counter ever change (`Database.Grows`). A handler does
one of three things to the ledger (`ApiAction`), and none of them takes anything away.
-/

namespace Ledgerlock

open Interleave (Config Prog Run Step)
open Mvcc

/-! ### Databases -/

/-- An account as it was opened. -/
def Account.opened (a : Account) : Account :=
  { a with status := .active, debitSerialisationCounter := none }

namespace Database

/-- Nothing is taken away, and nothing changes but the status and the counter of an
account. -/
structure Grows (d d' : Database) : Prop where
  accounts : d.accounts.map Account.opened <+: d'.accounts.map Account.opened
  transactions : d.transactions <+: d'.transactions
  ledgerEntries : d.ledgerEntries <+: d'.ledgerEntries

theorem Grows.refl (d : Database) : d.Grows d :=
  ⟨List.prefix_rfl, List.prefix_rfl, List.prefix_rfl⟩

theorem Grows.trans {d d' d'' : Database} (h : d.Grows d') (h' : d'.Grows d'') : d.Grows d'' :=
  ⟨h.accounts.trans h'.accounts, h.transactions.trans h'.transactions,
    h.ledgerEntries.trans h'.ledgerEntries⟩

theorem opened_updateAccount (d : Database) (id : ObjectId) {f : Account → Account}
    (hf : ∀ a, (f a).opened = a.opened) :
    (d.updateAccount id f).accounts.map Account.opened = d.accounts.map Account.opened := by
  rw [updateAccount, List.map_map]
  refine List.map_congr_left fun a _ => ?_
  show (if a.id = id then f a else a).opened = a.opened
  split
  · exact hf a
  · rfl

theorem grows_write (d : Database) (w : DbWrite) : d.Grows (d.write w) := by
  cases w with
  | incDebitSerialisationCounter id =>
      exact ⟨(d.opened_updateAccount id (f := incCounter) fun _ => rfl) ▸ List.prefix_rfl,
        List.prefix_rfl, List.prefix_rfl⟩
  | setStatus id status =>
      exact ⟨(d.opened_updateAccount id (f := fun a => { a with status }) fun _ => rfl) ▸
        List.prefix_rfl, List.prefix_rfl, List.prefix_rfl⟩
  | insertAccount a =>
      refine ⟨?_, List.prefix_rfl, List.prefix_rfl⟩
      show _ <+: (d.accounts ++ [a]).map Account.opened
      rw [List.map_append]
      exact List.prefix_append _ _
  | insertTransaction t => exact ⟨List.prefix_rfl, List.prefix_append _ _, List.prefix_rfl⟩
  | insertLedgerEntry e => exact ⟨List.prefix_rfl, List.prefix_rfl, List.prefix_append _ _⟩

theorem grows_view (d : Database) (ws : List DbWrite) : d.Grows (view d ws) := by
  induction ws generalizing d with
  | nil => exact .refl d
  | cons w ws ih => exact (d.grows_write w).trans (ih (d.write w))

variable {ν : Type}

theorem grows_replay (d : Database) (log : List (Commit ν DbWrite ObjectId)) :
    d.Grows (replay d log) := by
  induction log generalizing d with
  | nil => exact .refl d
  | cons c log ih => exact (d.grows_view c.writes).trans (ih (view d c.writes))

/-- A longer log leaves more. -/
theorem grows_of_prefix (d : Database) {log log' : List (Commit ν DbWrite ObjectId)}
    (h : log <+: log') : (replay d log).Grows (replay d log') := by
  obtain ⟨later, rfl⟩ := h
  rw [replay, replay, List.foldl_append]
  exact grows_replay _ later

end Database

/-! ### Handlers -/

/-- The call of `create_transfer` that a request comes to, word for word. -/
def Asks : ApiRequest → TransferArgs → Prop
  | .createAccount _ _, _ => False
  | .moveMoney ⟨user, header, .createTransaction payload⟩, args =>
      ∃ key p, receive header payload = .ok (key, p) ∧ args =
        { idempotencyKey := key
          sourceAccountId := p.sourceAccountId
          destinationAccountId := p.destinationAccountId
          amountMinor := p.amountMinor
          currency := p.currency
          description := p.description
          kind := .transfer
          submittedBy := some user }
  | .moveMoney ⟨user, header, .fundAccount payload⟩, args =>
      ∃ key accountId p, receive header payload = .ok (key, accountId, p) ∧ args =
        { idempotencyKey := key
          sourceAccountId := args.sourceAccountId
          destinationAccountId := accountId
          amountMinor := p.amountMinor
          currency := p.currency
          description := p.description
          kind := .funding
          submittedBy := some user }

/-- The account a request opens. -/
def Opens (supportedCurrencies : List String) : ApiRequest → Account → Prop
  | .createAccount user (.valid payload), account =>
      (payload.currency : String) ∈ supportedCurrencies ∧ account =
        { account with
          ownerId := some user
          currency := payload.currency
          status := .active
          accountType := .user
          label := payload.label
          debitSerialisationCounter := none }
  | _, _ => False

/-- The account that a request asks for is as it is when it is opened. -/
theorem Opens.opened {supportedCurrencies : List String} {r : ApiRequest} {account : Account}
    (h : Opens supportedCurrencies r account) : account.opened = account := by
  unfold Opens at h
  split at h
  · rw [h.2]
    rfl
  · exact h.elim

theorem Opens.isCurrencyCode {supportedCurrencies : List String} {r : ApiRequest}
    {account : Account} (h : Opens supportedCurrencies r account) :
    isCurrencyCode account.currency = true := by
  unfold Opens at h
  split at h
  · rename_i payload
    rw [h.2]
    exact payload.currency.property
  · exact h.elim

theorem Opens.owner {supportedCurrencies : List String} {user : ObjectId}
    {payload : Payload AccountCreateRequest} {account : Account}
    (h : Opens supportedCurrencies (.createAccount user payload) account) :
    account.ownerId = some user := by
  cases payload with
  | unparsable | invalid => exact h.elim
  | valid payload =>
      rw [h.2]

theorem Asks.submittedBy {user : ObjectId} {header : Option String} {route : Route}
    {args : TransferArgs} (h : Asks (.moveMoney ⟨user, header, route⟩) args) :
    args.submittedBy = some user := by
  cases route with
  | createTransaction payload =>
      obtain ⟨key, p, -, rfl⟩ := h
      rfl
  | fundAccount payload =>
      obtain ⟨key, accountId, p, -, h⟩ := h
      rw [h]

section Handlers

variable {ν : Type} [ServerSum] [DecidableEq ν] {A : Api ν}

/-- An action of the handler of request `i`, with what follows it. -/
inductive ApiAction (A : Api ν) (i : ν) :
    (AccountStamp → ApiState ν → ApiState ν) →
      (AccountStamp → ApiState ν → Api.Handler ν Api.Handled) → Prop
  | read {k : AccountStamp → ApiState ν → Api.Handler ν Api.Handled} :
      (∀ x s result, k x s ≠ .done result) → ApiAction A i (fun _ s => s) k
  | call {args : TransferArgs} : Asks (A.requests i) args →
      ApiAction A i (fun _ s => { s with called := (i, args) :: s.called })
        fun _ _ => .done (.called args)
  | insert {f : AccountStamp → ApiState ν → ApiState ν}
      {k : AccountStamp → ApiState ν → Api.Handler ν Api.Handled} :
      (∀ x s, (∃ account, Opens A.supportedCurrencies (A.requests i) account ∧
          account.id = x.insertedId ∧
          f x s = { s with ledger := s.ledger.commitDirect (.insertAccount account) } ∧
          k x s = .done (.created account)) ∨
        f x s = s ∧ k x s = .raise handleUnexpectedError) →
      ApiAction A i f k

theorem Api.lookup_actions {α : Type} {i : ν} {q : Database → Except LedgerlockError α}
    {f : α → Api.Handler ν Api.Handled} (hnot : ∀ a result, f a ≠ .done result)
    (hf : ∀ d a, q d = .ok a → (f a).Every (ApiAction A i) fun _ => True) :
    (A.lookup q >>= f).Every (ApiAction A i) fun _ => True := by
  refine ⟨.read fun _ s result => ?_, fun _ s => ?_⟩
  · cases hq : q (A.db s) with
    | ok a =>
        simp only [hq]
        exact hnot a result
    | error e =>
        simp only [hq]
        intro h
        cases h
  · cases hq : q (A.db s) with
    | ok a =>
        simp only [hq]
        exact hf _ a hq
    | error e =>
        simp only [hq]
        trivial

omit [ServerSum] [DecidableEq ν] in
theorem Api.insertAccount_actions {i : ν} {user : ObjectId} {payload : AccountCreateRequest}
    (hi : A.requests i = .createAccount user (.valid payload))
    (hcurrency : (payload.currency : String) ∈ A.supportedCurrencies) :
    (Api.insertAccount user payload.currency payload.label : Api.Handler ν Api.Handled).Every
      (ApiAction A i) fun _ => True := by
  refine ⟨.insert fun x s => ?_, fun x s => ?_⟩
  · cases hcreate : Ledgerlock.createAccount user payload.currency payload.label x.createdAt
      x.updatedAt x.insertedId with
    | error e => exact .inr ⟨rfl, rfl⟩
    | ok w =>
        obtain ⟨document, hdocument, hw⟩ := bind_eq_ok.mp hcreate
        obtain rfl := Except.ok.inj hw
        obtain ⟨-, rfl⟩ := validated_eq_ok.mp hdocument
        refine .inl ⟨_, ?_, rfl, rfl, rfl⟩
        rw [hi]
        exact ⟨hcurrency, rfl⟩
  · dsimp only
    split <;> trivial

theorem Api.handler_actions (A : Api ν) (i : ν) :
    (A.handler i (A.requests i)).Every (ApiAction A i) fun _ => True := by
  cases hi : A.requests i with
  | createAccount user payload =>
      cases payload with
      | unparsable | invalid => trivial
      | valid payload =>
          show (A.createAccount user payload).Every _ _
          unfold Api.createAccount
          split
          · trivial
          · rename_i hcurrency
            exact Api.insertAccount_actions hi (not_not.mp hcurrency)
  | moveMoney request =>
      obtain ⟨user, header, route⟩ := request
      cases route with
      | createTransaction payload =>
          unfold Api.handler
          dsimp only
          split
          · trivial
          · rename_i key p hreceive
            refine Api.lookup_actions (fun source result h => ?_) fun _ source _ => ?_
            · split at h <;> cases h
            · split
              · trivial
              · refine Api.lookup_actions (fun _ _ h => nomatch h) fun _ _ _ =>
                  ⟨.call ?_, fun _ _ => trivial⟩
                rw [hi]
                exact ⟨key, p, hreceive, rfl⟩
      | fundAccount payload =>
          unfold Api.handler
          dsimp only
          split
          · trivial
          · rename_i key accountId p hreceive
            refine Api.lookup_actions (fun _ _ h => nomatch h) fun _ destination hdestination => ?_
            refine Api.lookup_actions (fun _ _ h => nomatch h) fun _ boundary _ =>
              ⟨.call ?_, fun _ _ => trivial⟩
            obtain ⟨-, rfl, -⟩ := Database.getOwnedAccountOrRaise_eq_ok hdestination
            rw [hi]
            exact ⟨key, _, p, hreceive, rfl⟩

omit [ServerSum] [DecidableEq ν] in
/-- No action takes back a commit. -/
theorem ApiAction.log_grows {i : ν} {f : AccountStamp → ApiState ν → ApiState ν}
    {k : AccountStamp → ApiState ν → Api.Handler ν Api.Handled} (h : ApiAction A i f k)
    (x : AccountStamp) (s : ApiState ν) : s.ledger.log <+: (f x s).ledger.log := by
  cases h with
  | read | call => exact List.prefix_rfl
  | insert hfk =>
      rcases hfk x s with ⟨account, -, -, hf, -⟩ | ⟨hf, -⟩
      · rw [hf]
        exact List.prefix_append _ _
      · rw [hf]

theorem Api.Moves.log_grows {s t : ApiState ν} (h : A.Moves s t) :
    s.ledger.log <+: t.ledger.log := by
  cases h with
  | ledger hstep => exact (Steps.single hstep).log_grows
  | provision _ hstep => exact (Steps.single hstep).log_grows

end Handlers

/-! ### The service -/

namespace Service

variable {ν : Type} [ServerSum] [DecidableEq ν] {S : Service ν} [Bcrypt]

omit [Bcrypt] in
theorem bodyOf_log_grows (S : Service ν) (i : ν) : (S.bodyOf i).Every
    (fun f _ => ∀ x s, S.api.env.offers s x → s.ledger.log <+: (f x s).ledger.log)
    fun _ => True := by
  by_cases hi : i ∈ S.apiReaders
  · exact (S.bodyOf_readOnly hi).mono fun f k hf x s _ => by rw [hf x s]
  · rw [S.bodyOf_of_notMem hi]
    exact Prog.Every.rename (D := fun _ => True) ((S.api.handler_actions i).mono
      fun f k hfk x s _ => hfk.log_grows x s) fun _ _ => trivial

omit [ServerSum] [DecidableEq ν] in
theorem guardOf_users_grow (S : Service ν) (i : ν) : (S.guardOf i).Every
    (fun f _ => ∀ x s, authEnv.offers s x → UsersGrow s (f x s)) fun _ => True := by
  by_cases hi : i ∈ S.authReaders
  · exact (S.guardOf_readOnly hi).mono fun f k hf x s _ => by
      rw [hf x s]
      exact .of_eq rfl
  · rw [S.guardOf_of_notMem hi]
    exact Prog.Every.rename (D := fun _ => True) (((S.authRequests i).program_actions _).mono
      fun f k hfk x s hx => hfk.users_grow hx) fun _ _ => trivial

variable {c d : ServiceConfig ν} {now : Instant} {l : List (Option ν)}
  {g : Config ν AuthStore AuthInput AuthError Admission}
  {q : Config ν (ApiState ν) AccountStamp ErrorEnvelope BodyResult}
  {a : Config ν AuthStore AuthInput AuthError AuthResponse}
  {b : Config ν (ApiState ν) AccountStamp ErrorResponse Api.Handled}

omit [Bcrypt] in
/-- No body takes a commit out of the log. -/
theorem bodies_log_grows {q q' : Config ν (ApiState ν) AccountStamp ErrorEnvelope BodyResult}
    {l l' : List (Option ν)} (h : Run S.api.env ⟨S.api.start.shared, S.bodyOf⟩ l q)
    (h' : Run S.api.env q l' q') : q.shared.ledger.log <+: q'.shared.ledger.log :=
  h'.rel (R := fun s t : ApiState ν => s.ledger.log <+: t.ledger.log) (fun _ => List.prefix_rfl)
    (fun _ _ _ h h' => h.trans h') (fun i => h.every (S.bodyOf_log_grows i))
    fun _ _ hm => hm.log_grows

theorem Parts.run_grows (h : S.Parts now c g q a b) (hrun : Run S.env c l d) :
    UsersGrow c.shared.1 d.shared.1 ∧ c.shared.2.ledger.log <+: d.shared.2.ledger.log := by
  obtain ⟨l₁, g', l₂, q', hguards', hbodies', hsplits, -⟩ := hrun.split h.splits
  obtain ⟨_, hguards⟩ := h.guards
  obtain ⟨_, hbodies⟩ := h.bodies
  rw [h.splits.shared, hsplits.shared]
  constructor
  · refine hguards'.rel (R := UsersGrow) (fun s => .of_eq rfl)
      (fun s t u hst htu => ⟨hst.users.trans htu.users, fun hs => htu.inv (hst.inv hs)⟩)
      (fun i => hguards.every (S.guardOf_users_grow i)) fun s t hm => ?_
    cases hm with
    | clock => exact .of_eq rfl
    | expire => exact .of_eq rfl
  · exact bodies_log_grows hbodies hbodies'

theorem Reached.log_grows (h : S.Reached c) (hrun : Run S.env c l d) :
    c.shared.2.ledger.log <+: d.shared.2.ledger.log := by
  obtain ⟨now, g, q, a, b, hparts⟩ := h.parts
  exact (hparts.run_grows hrun).2

/-- Along every run of the service users, accounts, transactions and entries stay what they
are and where they are. -/
theorem nothing_lost (h : S.Reached c) (hrun : Run S.env c l d) :
    c.shared.1.users <+: d.shared.1.users ∧ (S.db c.shared).Grows (S.db d.shared) := by
  obtain ⟨now, g, q, a, b, hparts⟩ := h.parts
  obtain ⟨husers, hlog⟩ := hparts.run_grows hrun
  exact ⟨husers.users, Database.grows_of_prefix _ hlog⟩

end Service

open Example in
/-- From the start, when there is nothing, to the state in which Alice has paid. -/
theorem nothing_lost_served : ∃ (now : Instant) (c : ServiceConfig Nat) (x y : Stamp),
    bank.db c.shared = servedDb x y ∧ (bank.start now).shared.1.users <+: c.shared.1.users ∧
      (bank.db (bank.start now).shared).Grows (bank.db c.shared) := by
  obtain ⟨c, x, y, ⟨now, l, hrun⟩, hdb, -⟩ := served
  exact ⟨now, c, x, y, hdb, Service.nothing_lost ⟨now, [], .nil⟩ hrun⟩

end Ledgerlock
