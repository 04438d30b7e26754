import Ledgerlock.Spec.Permanence
import Ledgerlock.Spec.Spending

/-!
# Ledgerlock.Spec.Provenance

Where what is in the database comes from.

A USER account goes back to one `POST /accounts` (`account_opened`), and a call of
`create_transfer` to the request that has asked for it (`called_asked`). A request that has
got so far has had its token accepted on the run that has led there, in time and unrevoked
(`Service.Admits`), and the token has been issued for a registration or for a login with the
right password (`Service.Vouched`).
-/

namespace Ledgerlock

open Interleave (Config Prog Run Step)
open Mvcc

/-! ### The ledger -/

section Ledger

variable {ν : Type} [ServerSum] [DecidableEq ν] {A : Api ν}
  {c : Config ν (ApiState ν) AccountStamp ErrorResponse Api.Handled} {i j : ν}

/-- A call that has been made is what its request is waiting for, and asks for. -/
theorem called_asked (h : A.Reached c) {args : TransferArgs}
    (hcalled : (i, args) ∈ c.shared.called) :
    c.prog i = .done (.called args) ∧ Asks (A.requests i) args := by
  obtain ⟨l, hrun⟩ := h
  have hauthor := hrun.exists_author (X := TransferCall ν) (H := fun y s => y ∈ s.called)
    (R := fun j y p => y.1 = j ∧ p = .done (.called y.2) ∧ Asks (A.requests j) y.2)
    (D := fun _ => True) ?_ ?_ ?_ hcalled
  · rcases hauthor with hstart | ⟨j, rfl, hdone, hasks⟩
    · cases hstart
    · exact ⟨hdone, hasks⟩
  · refine fun j => (A.handler_actions j).mono fun f k hfk x s y hy => ?_
    cases hfk with
    | read => exact .inl hy
    | call hasks =>
        rcases List.mem_cons.mp hy with rfl | hy
        · exact .inr ⟨rfl, rfl, hasks⟩
        · exact .inl hy
    | insert hinsert =>
        rcases hinsert x s with ⟨account, -, -, hf, -⟩ | ⟨hf, -⟩ <;>
          rw [hf] at hy <;> exact .inl hy
  · rintro j y f k ⟨-, hdone, -⟩
    cases hdone
  · intro l e t _ hm y hy
    cases hm with
    | ledger => exact hy
    | provision => exact hy

omit [ServerSum] in
theorem Database.opened_view {d : Database} {ws : List DbWrite}
    (hws : ∀ w ∈ ws, ∀ a, w ≠ .insertAccount a) :
    (view d ws).accounts.map Account.opened = d.accounts.map Account.opened := by
  induction ws generalizing d with
  | nil => rfl
  | cons w ws ih =>
      refine (ih fun w' hw' => hws w' (List.mem_cons_of_mem w hw')).trans ?_
      cases w with
      | incDebitSerialisationCounter id =>
          exact d.opened_updateAccount id (f := incCounter) fun _ => rfl
      | setStatus id status =>
          exact d.opened_updateAccount id (f := fun a => { a with status }) fun _ => rfl
      | insertAccount a => exact absurd rfl (hws _ List.mem_cons_self a)
      | insertTransaction | insertLedgerEntry => rfl

/-- A step of a call, or of an operator, opens no account. -/
theorem ledger_opened {s : ApiState ν} {st : LedgerState (TransferCall ν)} (h : ApiInv A s)
    (hstep : Step A.deployment.system s.ledger st)
    (hdirect : ∀ c ∈ st.log.drop s.ledger.log.length, c.author = none →
      ∃ id status, c.writes = [.setStatus id status]) :
    (A.deployment.db st).accounts.map Account.opened =
      (A.db s).accounts.map Account.opened := by
  have hcommit {c : Commit (TransferCall ν) DbWrite ObjectId}
      (hlog : st.log = s.ledger.log ++ [c]) : (A.deployment.db st).accounts.map Account.opened =
        (A.db s).accounts.map Account.opened := by
    have hdb : A.deployment.db st = view (A.db s) c.writes := by
      rw [Deployment.db, State.db, hlog, replay_concat]
      rfl
    have hfollows : Follows A.deployment.system s.ledger.log c := by
      have hc := (Reachable.history (h.reachable.tail hstep)).follows
        (n := s.ledger.log.length) (c := c) (by rw [hlog, List.getElem?_concat_length])
      rwa [hlog, List.take_left] at hc
    have hlast : c ∈ st.log.drop s.ledger.log.length := by
      rw [hlog, List.drop_left]
      exact List.mem_singleton.mpr rfl
    rw [hdb]
    refine Database.opened_view fun w hw a => ?_
    rintro rfl
    cases ledgerCommit_of_follows hfollows with
    | transfer => exact absurd hw (by simp [transferWrites, lockWrites])
    | reconcile => cases hw
    | accountWrite =>
        obtain ⟨id, status, hws⟩ := hdirect _ hlast rfl
        rw [hws] at hw
        cases List.mem_singleton.mp hw
  cases hstep with
  | move => rfl
  | commit | commitLost => exact hcommit rfl
  | direct => exact hcommit rfl

/-- A new account is the only one more. -/
theorem opened_commitDirect {s : ApiState ν} {a y : Account}
    (hy : y ∈ (A.deployment.db (s.ledger.commitDirect (.insertAccount a))).accounts.map
      Account.opened) : y ∈ (A.db s).accounts.map Account.opened ∨ y = a.opened := by
  rw [db_commitDirect] at hy
  have hy : y ∈ ((A.db s).accounts ++ [a]).map Account.opened := hy
  rw [List.map_append, List.mem_append] at hy
  exact hy.imp_right fun hlast => List.mem_singleton.mp hlast

/-- Every USER account has been opened by a request. -/
theorem account_opened (h : A.Reached c) {a : Account} (ha : a ∈ (A.db c.shared).accounts)
    (htype : a.accountType = .user) : ∃ i, c.prog i = .done (.created a.opened) ∧
      Opens A.supportedCurrencies (A.requests i) a.opened := by
  obtain ⟨l, hrun⟩ := h
  have hauthor := hrun.exists_author (X := Account)
    (H := fun y s => y ∈ (A.db s).accounts.map Account.opened ∧ y.accountType = .user)
    (R := fun j y p => p = .done (.created y) ∧ Opens A.supportedCurrencies (A.requests j) y)
    (D := fun _ => True) ?_ ?_ ?_ (y := a.opened) ⟨List.mem_map.mpr ⟨a, ha, rfl⟩, htype⟩
  · rcases hauthor with ⟨hstart, -⟩ | ⟨i, hi⟩
    · cases hstart
    · exact ⟨i, hi⟩
  · refine fun j => (A.handler_actions j).mono fun f k hfk x s y hy => ?_
    cases hfk with
    | read => exact .inl hy
    | call hasks => exact .inl hy
    | insert hinsert =>
        rcases hinsert x s with ⟨account, hopens, -, hf, hk⟩ | ⟨hf, -⟩
        · rw [hf] at hy
          rcases opened_commitDirect hy.1 with hold | rfl
          · exact .inl ⟨hold, hy.2⟩
          · rw [hopens.opened]
            exact .inr ⟨hk, hopens⟩
        · rw [hf] at hy
          exact .inl hy
  · rintro j y f k ⟨hdone, -⟩
    cases hdone
  · intro l e t hrun hm y hy
    have hinv : ApiInv A e.shared := Api.Reached.inv ⟨l, hrun⟩
    cases hm with
    | ledger hstep _ hdirect =>
        refine ⟨?_, hy.2⟩
        rw [← ledger_opened hinv hstep hdirect]
        exact hy.1
    | provision hw _ =>
        refine ⟨?_, hy.2⟩
        unfold ensureSystemAccount at hw
        split at hw
        · cases hw
        · obtain ⟨account, haccount, hw⟩ := bind_eq_ok.mp hw
          obtain rfl := Option.some.inj (Except.ok.inj hw)
          obtain ⟨-, rfl⟩ := validated_eq_ok.mp haccount
          rcases opened_commitDirect hy.1 with hold | rfl
          · exact hold
          · exact absurd hy.2 (by simp [Account.opened, AccountDocument.toBson])

theorem Api.handler_ne_done (A : Api ν) (i : ν) (r : ApiRequest) (result : Api.Handled) :
    A.handler i r ≠ .done result := by
  unfold Api.handler
  intro h
  split at h
  · split at h
    · cases h
    · unfold Api.createAccount at h
      split at h <;> cases h
  · split at h <;> cases h
  · split at h <;> cases h

/-- An account that a request has been answered with is there, and is its own. -/
theorem created_once (h : A.Reached c) :
    (∀ i a, c.prog i = .done (.created a) →
      a ∈ (A.db c.shared).accounts.map Account.opened) ∧
    ∀ i j a, c.prog i = .done (.created a) → c.prog j = .done (.created a) → i = j := by
  obtain ⟨l, hrun⟩ := h
  refine hrun.author_unique (X := Account)
    (H := fun y s => y ∈ (A.db s).accounts.map Account.opened)
    (R := fun _ y p => p = .done (.created y)) (D := fun _ => True)
    (fun i y hstart => A.handler_ne_done i _ _ hstart) ?_ ?_
  · refine fun i => (A.handler_actions i).mono fun f k hfk x s hx y => ?_
    cases hfk with
    | read hnot => exact ⟨id, fun hk => absurd hk (hnot x s _)⟩
    | call => exact ⟨id, fun hk => by cases hk⟩
    | insert hinsert =>
        rcases hinsert x s with ⟨account, hopens, hid, hf, hk⟩ | ⟨hf, hk⟩
        · have hdb : (A.db (f x s)).accounts = (A.db s).accounts ++ [account] := by
            rw [hf]
            exact congrArg Database.accounts (db_commitDirect s (.insertAccount account))
          rw [hdb, hk, List.map_append]
          refine ⟨fun hy => List.mem_append_left _ hy, fun hdone => .inr ?_⟩
          obtain rfl : account = y := Api.Handled.created.inj (Prog.done.inj hdone)
          refine ⟨fun hold => ?_, List.mem_append_right _ ?_⟩
          · obtain ⟨a', ha', heq⟩ := List.mem_map.mp hold
            have hid' : a'.id = x.insertedId := (congrArg Account.id heq).trans hid
            exact hx.key (Database.mem_keys.mpr (.inl ⟨a', ha', by simp [Account.keys, hid']⟩))
          · exact List.mem_singleton.mpr hopens.opened.symm
        · rw [hf, hk]
          exact ⟨id, fun h => by cases h⟩
  · intro s t hm y hy
    have hgrows := Database.grows_of_prefix A.deployment.opening hm.log_grows
    exact hgrows.accounts.subset hy

/-- Every transaction is that of a call. -/
theorem ApiInv.transaction {s : ApiState ν} (h : ApiInv A s) {t : Transaction}
    (ht : t ∈ (A.db s).transactions) : ∃ k ∈ s.ledger.log, ∃ i args, ∃ x : Stamp,
      k.author = some (i, args) ∧ k.ids = x.ids ∧ t = x.header args := by
  obtain ht | ⟨k, hk, ht⟩ := mem_transactions_replay.mp ht
  · cases ht
  obtain ⟨n, hn⟩ := List.mem_iff_getElem?.mp hk
  rcases h.commit hn with ⟨i, args, -, -, hauthor, -⟩ | ⟨w, -, hw, hws⟩
  · obtain ⟨-, -, source, x, -, hws, hids, -⟩ :=
      (ledgerCommit_of_follows (h.reachable.history.follows hn)).of_author hauthor rfl
    rw [hws] at ht
    exact ⟨k, hk, i, args, x, hauthor, hids, eq_header_of_mem ht⟩
  · rw [hws, List.mem_singleton] at ht
    rcases hw.cases_write with ⟨a, rfl⟩ | ⟨id, status, rfl⟩ <;> cases ht

/-- What was asked for is there to be read in the transaction. -/
def Transaction.args (t : Transaction) : TransferArgs where
  idempotencyKey := t.idempotencyKey
  sourceAccountId := t.sourceAccountId
  destinationAccountId := t.destinationAccountId
  amountMinor := t.amountMinor
  currency := t.currency
  description := t.description
  kind := t.kind
  submittedBy := t.submittedBy

/-- The source of a transaction is for the user to debit. -/
def Database.DebitedBy (d : Database) (user : ObjectId) (t : Transaction) : Prop :=
  ∀ a ∈ d.accounts, a.id = t.sourceAccountId →
    match a.accountType with
    | .user => t.kind = .transfer ∧ a.ownerId = some user
    | .system => t.kind = .funding ∧
        ∀ b ∈ d.accounts, b.id = t.destinationAccountId → b.ownerId = some user

theorem ApiInv.debitedBy {s : ApiState ν} (h : ApiInv A s) {r : ApiRequest} {args : TransferArgs}
    (hauth : Authorised (A.db s) r args) (x : Stamp) :
    (A.db s).DebitedBy r.user (x.header args) := by
  intro a ha hid
  obtain ⟨huser, hsystem⟩ := h.spender hauth ha hid
  split
  · rename_i htype
    obtain ⟨howner, hkind⟩ := huser htype
    exact ⟨hkind, howner⟩
  · rename_i htype
    refine ⟨hsystem htype, fun b hb hbid => ?_⟩
    obtain ⟨destination, hfound, howner⟩ := hauth.funded (hsystem htype)
    obtain ⟨b', hb', hbid', rfl⟩ := (Database.holder_iff h.keys).mp hfound
    have hholder := h.holder hb
    rw [hbid, show (x.header args).destinationAccountId = b'.id from hbid'.symm, h.holder hb']
      at hholder
    rw [← howner]
    exact congrArg Holder.ownerId (Option.some.inj hholder).symm

end Ledger

/-! ### The service -/

namespace Service

theorem respondWith_eq_ok {α : Type} {f : α → ServiceResponse} {x : Except PyError α}
    {r : ServiceResponse} : respondWith f x = .ok r ↔ ∃ y, x = .ok y ∧ f y = r := by
  cases x <;> simp [respondWith]

/-- What a call that has succeeded is answered with. -/
theorem callResponse_eq_ok {x : Except Raised Reply} {r : ServiceResponse}
    (h : callResponse x = .ok r) :
    (∃ result body, x = .ok (.written result) ∧
      TransactionPublic.ofStored result.transactionDocument = .ok body ∧ r = .transaction body) ∨
    ∃ report, x = .ok (.report report) ∧ r = .report report := by
  unfold callResponse at h
  split at h
  · obtain ⟨body, hbody, rfl⟩ := respondWith_eq_ok.mp h
    exact .inl ⟨_, body, rfl, hbody, rfl⟩
  · exact .inr ⟨_, rfl, (Except.ok.inj h).symm⟩
  · cases h

section Vouched

variable {ν : Type} [ServerSum] [DecidableEq ν] {S : Service ν} [Bcrypt]

/-- On its way request `i` has had its token accepted by `get_current_user`: it was signed
and in time in the state `decoding`, it had no record in the state `lookingUp`, and in the
state `admitted` its user has been found and the handler is about to begin. -/
structure Admits (S : Service ν) (i : ν) (token : AccessToken)
    (decoding lookingUp admitted : ServiceConfig ν) : Prop where
  waiting : S.Waiting decoding i
  decoded : ∃ e l, Step S.env (some i) decoding e ∧ Run S.env e l lookingUp ∧ some i ∉ l
  lookedUp : ∃ e l, Step S.env (some i) lookingUp e ∧ Run S.env e l admitted
  found : ∃ user, user.id = token.sub ∧ admitted.prog i = (S.bodyOf i).right (.auth (.user user))
  signed : token ∈ decoding.shared.1.signed
  inTime : decoding.shared.1.now < token.expiresAt
  unrevoked : ¬ lookingUp.shared.1.Revoked token
  /-- If it has been logged out by then, it has expired in between. -/
  expired : ∀ j, S.requests j = .authenticated (.bearer token) .logout →
    S.Responds lookingUp j (.ok .loggedOut) → token.expiresAt ≤ lookingUp.shared.1.now

/-- Request `i` has come to `c` with a token that `get_current_user` has accepted on the way,
and that some registration or login has been answered with, for a user whose password it
had. -/
structure Vouched (S : Service ν) (c : ServiceConfig ν) (i : ν) (token : AccessToken) : Prop where
  accepted : ∃ decoding lookingUp admitted l, S.Admits i token decoding lookingUp admitted ∧
    Run S.env admitted l c
  issued : ∃ j, S.Responds c j (.ok (.token token)) ∧
    ∃ u ∈ c.shared.1.users, u.id = token.sub ∧ (S.authRequests j).proves u

variable {c d : ServiceConfig ν} {l : List (Option ν)} {now : Instant} {i j : ν}
  {token : AccessToken}
  {g : Config ν AuthStore AuthInput AuthError Admission}
  {q : Config ν (ApiState ν) AccountStamp ErrorEnvelope BodyResult}
  {a : Config ν AuthStore AuthInput AuthError AuthResponse}
  {b : Config ν (ApiState ν) AccountStamp ErrorResponse Api.Handled}

/-- A request that has ended has not been turned away. -/
theorem Parts.notMem_of_done (h : S.Parts now c g q a b) {response : AuthResponse}
    (hdone : a.prog i = .done response) : i ∉ S.authReaders := by
  intro hi
  refine (S.authRequests i).program_not_ended S.accessTokenExpireMinutes ?_
  rw [← h.auth_idle i hi, hdone]
  exact .done _

omit [ServerSum] [DecidableEq ν] in
/-- A request that proves who its user is has nothing behind its guard: it is a registration or
a login. -/
theorem bodyOf_of_proves {u : User} [ServerSum] [DecidableEq ν]
    (hproves : (S.authRequests i).proves u) :
    S.bodyOf i = .done .nothing := by
  unfold bodyOf
  split
  · rename_i token endpoint hrequest
    have hpresents : ∀ u, ¬ (S.authRequests i).proves u := by
      intro u
      rw [authRequests, hrequest]
      cases endpoint <;> exact id
    exact absurd hproves (hpresents u)
  · rfl

/-- A signed token is one that a request has been answered with. -/
theorem Parts.issued (h : S.Parts now c g q a b) (htoken : token ∈ a.shared.signed) :
    ∃ j, S.Responds c j (.ok (.token token)) ∧
      ∃ u ∈ a.shared.users, u.id = token.sub ∧ (S.authRequests j).proves u := by
  obtain ⟨l, hauth⟩ := h.auth
  obtain ⟨j, hdone⟩ := token_issued rfl hauth htoken
  obtain ⟨-, u, hu, hid, hproves⟩ :=
    (answers_of_run (authInv_of_unused rfl rfl) hauth).of_done hdone
  have hj := h.notMem_of_done hdone
  refine ⟨j, (h.responds_iff hj (bodyOf_of_proves hproves)).mpr ?_, u, hu, hid, hproves⟩
  rw [hdone]
  exact .done rfl

omit [Bcrypt] in
theorem bodyOf_result (S : Service ν) {i : ν} (hi : i ∈ S.apiReaders) : (S.bodyOf i).Every
    (fun _ _ => True) fun result => ∀ handled, result ≠ .handled handled := by
  unfold bodyOf
  split
  · rename_i token endpoint hrequest
    cases endpoint with
    | createAccount payload => exact absurd hrequest ((hi token).1 payload)
    | moveMoney header route => exact absurd hrequest ((hi token).2 header route)
    | logout | readCurrentUser => exact fun _ h => nomatch h
    | read route =>
        exact Prog.Every.rename (D := fun _ => True)
          ((route.program_readOnly _ _ _ _).mono fun _ _ _ => trivial) fun _ _ _ h => nomatch h
    | readReconciliation =>
        exact Prog.Every.rename (D := fun _ => True)
          ((S.api.query_readOnly _).mono fun _ _ _ => trivial) fun _ _ _ h => nomatch h
  · exact fun _ h => nomatch h

/-- What a request has come to behind its guard its handler has come to. -/
theorem Parts.handled (h : S.Parts now c g q a b) {admission : Admission}
    {result : Api.Handled} (hdone : c.prog i = .done (admission, .handled result)) :
    b.prog i = .done result := by
  have hstage := h.splits.stage i
  rw [hdone] at hstage
  have hbody := (hstage.of_done (h.splits.result i)).2.2
  have hi : i ∉ S.apiReaders := by
    intro hi
    obtain ⟨l, hbodies⟩ := h.bodies
    have hresult := hbodies.every (S.bodyOf_result hi)
    rw [hbody] at hresult
    exact hresult result rfl
  rw [h.api_prog i hi] at hbody
  obtain ⟨handled, hhandled, hresult⟩ := Prog.rename_eq_done hbody
  obtain rfl := BodyResult.handled.inj hresult
  exact hhandled

/-- What a handler has come to is what its request has. -/
theorem Parts.prog_of_handled (h : S.Parts now c g q a b) {result : Api.Handled}
    (hdone : b.prog i = .done result) :
    ∃ admission, c.prog i = .done (admission, .handled result) := by
  have hmoved : b.prog i ≠ S.api.start.prog i := fun hstart =>
    S.api.handler_ne_done i _ _ (hstart.symm.trans hdone)
  have hi : i ∉ S.apiReaders := fun hmem => hmoved (h.api_idle i hmem)
  have hbody := h.api_prog i hi
  obtain ⟨-, admission, -, hprog⟩ := (h.splits.stage i).admitted_of_ne fun hsame => by
    rw [hbody, S.bodyOf_of_notMem hi] at hsame
    exact hmoved (Prog.rename_injective (fun _ _ h => BodyResult.handled.inj h)
      ErrorResponse.envelope_injective hsame)
  refine ⟨admission, ?_⟩
  rw [hprog, hbody, hdone]
  rfl

/-! ### What a guard has seen -/

/-- What is left of a request of which `get_current_user` has `p` left. -/
def atGuard (S : Service ν) (i : ν) (p : AuthProg AuthResponse) :
    Prog (ServiceState ν) (AuthInput × AccountStamp) ErrorEnvelope (Admission × BodyResult) :=
  .guarded AuthError.envelope (p.rename .auth id) (S.proceed i (S.requests i))

omit [Bcrypt] in
/-- A request that has ended has gone on to its guard's next look at the store. -/
theorem exists_look {k : AuthStore → AuthProg AuthResponse} (h : Run S.env c l d)
    (hp : c.prog i = S.atGuard i (.act (fun _ s => s) fun _ s => k s))
    (hended : (d.prog i).Ended) : ∃ l₁ e e' l₂, Run S.env c l₁ e ∧ some i ∉ l₁ ∧
      Step S.env (some i) e e' ∧ e'.prog i = S.atGuard i (k e.shared.1) ∧ Run S.env e' l₂ d := by
  have hworking : ¬ (c.prog i).Ended := by
    rw [hp]
    exact fun hended => by cases hended
  obtain ⟨l₁, e, e', l₂, hrun, hnot, hprog, hstep, hrest⟩ := h.exists_next hworking hended
  obtain ⟨_, -, -, hnext⟩ := hstep.of_act (hprog.trans hp)
  exact ⟨l₁, e, e', l₂, hrun, hnot, hstep, hnext, hrest⟩

omit [Bcrypt] in
/-- What the guard raises the request is answered. -/
theorem denied_of_raise {e : AuthError} (h : Run S.env c l d)
    (hp : c.prog i = S.atGuard i (.raise e)) : d.prog i = .raise e.envelope := by
  have hraise : c.prog i = .raise e.envelope := hp
  rw [h.prog_of_ended (hraise ▸ .raise _), hraise]

section Admitted

variable {endpoint : Endpoint} (hi : S.requests i = .authenticated (.bearer token) endpoint)
include hi

theorem program_of_bearer (hrefusal : S.refusal i = none) (hout : endpoint ≠ .logout)
    (hme : endpoint ≠ .readCurrentUser) :
    S.program i = S.atGuard i (getCurrentUser token >>= fun user => .done (.user user)) := by
  have hguard : (S.requests i).guard S.accessTokenExpireMinutes S.lower S.emailStr =
      (getCurrentUser token >>= fun user => .done (.user user)).rename .auth id := by
    rw [hi]
    cases endpoint with
    | logout => exact absurd rfl hout
    | readCurrentUser => exact absurd rfl hme
    | createAccount | moveMoney | read | readReconciliation => rfl
  rw [program, hrefusal, atGuard, ← hguard]

omit [Bcrypt] in
theorem atGuard_user {user : AuthenticatedUser} (huser : user.id = token.sub) :
    S.atGuard i (.done (.user user)) = (S.bodyOf i).right (.auth (.user user)) := by
  have hbody : S.bodyOf i = S.handle i user.id endpoint := by rw [bodyOf, hi, huser]
  rw [hbody, atGuard, hi]
  rfl

omit hi in
/-- An answered logout is only missed once the token has expired. -/
theorem Reached.expired_of_loggedOut (h : S.Reached c)
    (hi : S.requests i = .authenticated (.bearer token) .logout)
    (hout : S.Responds c i (.ok .loggedOut)) (hrecord : ¬ c.shared.1.Revoked token) :
    token.expiresAt ≤ c.shared.1.now := by
  obtain ⟨now, g, q, a, b, hparts⟩ := h.parts
  obtain ⟨l, hauth⟩ := hparts.auth
  have hreader : i ∉ S.authReaders := by
    rintro (hrefused | ⟨token', hme⟩)
    · exact hrefused (by rw [refusal, hi]; rfl)
    · cases hi.symm.trans hme
  have hanswer := (hparts.responds_iff hreader (by rw [bodyOf, hi]; rfl)).mp hout
  obtain ⟨response, hdone⟩ : ∃ response, a.prog i = .done response := by
    generalize a.prog i = p at hanswer
    generalize hr : Except.ok ServiceResponse.loggedOut = r at hanswer
    cases hanswer with
    | @done response => exact ⟨response, rfl⟩
    | raise => cases hr
  have hlogout : LoggedOut S.authRequests a token :=
    ⟨i, response, by rw [authRequests, hi]; rfl, hdone⟩
  by_contra hnow
  refine hrecord ?_
  rw [← hparts.store] at hnow ⊢
  exact revoked_of_loggedOut (authInv_of_unused rfl rfl) hauth hlogout (Nat.not_le.mp hnow)

/-- A request with a token that has ended has been turned away by `get_current_user`, or it
has been let through. -/
theorem admitted_or_denied (h : Run S.env (S.start now) l c) (hrefusal : S.refusal i = none)
    (hout : endpoint ≠ .logout) (hme : endpoint ≠ .readCurrentUser) (hended : (c.prog i).Ended) :
    (∃ e : AuthError, c.prog i = .raise e.envelope) ∨
      ∃ decoding lookingUp admitted l', S.Admits i token decoding lookingUp admitted ∧
        Run S.env admitted l' c := by
  have hstart := S.program_of_bearer hi hrefusal hout hme
  rw [getCurrentUser_bind] at hstart
  -- the clock
  obtain ⟨l₁, decoding, e₁, l₂, hrun₁, hnot₁, hstep₁, he₁, hrest₁⟩ :=
    S.exists_look h hstart hended
  by_cases hsigned : token ∈ decoding.shared.1.signed
  case neg =>
    rw [if_pos hsigned] at he₁
    exact .inl ⟨_, denied_of_raise hrest₁ he₁⟩
  rw [if_neg (not_not.mpr hsigned)] at he₁
  by_cases hnow : token.expiresAt ≤ decoding.shared.1.now
  · rw [if_pos hnow] at he₁
    exact .inl ⟨_, denied_of_raise hrest₁ he₁⟩
  rw [if_neg hnow] at he₁
  -- the records
  obtain ⟨l₃, lookingUp, e₂, l₄, hrun₂, hnot₂, hstep₂, he₂, hrest₂⟩ :=
    S.exists_look hrest₁ he₁ hended
  by_cases hrecord : lookingUp.shared.1.Revoked token
  · rw [if_pos (AuthStore.revoked_iff.mpr hrecord)] at he₂
    exact .inl ⟨_, denied_of_raise hrest₂ he₂⟩
  rw [if_neg (mt AuthStore.revoked_iff.mp hrecord)] at he₂
  -- the users
  obtain ⟨l₅, findingUser, admitted, l₆, hrun₃, -, hstep₃, hadmitted, hrest₃⟩ :=
    S.exists_look hrest₂ he₂ hended
  split at hadmitted
  · exact .inl ⟨_, denied_of_raise hrest₃ hadmitted⟩
  · refine .inr ⟨decoding, lookingUp, admitted, l₆, ?_, hrest₃⟩
    have hreached : S.Reached lookingUp := ⟨now, _, (hrun₁.concat hstep₁).trans hrun₂⟩
    exact
      { waiting := ⟨now, l₁, hrun₁, hnot₁⟩
        decoded := ⟨e₁, l₃, hstep₁, hrun₂, hnot₂⟩
        lookedUp := ⟨e₂, _, hstep₂, hrun₃.concat hstep₃⟩
        found := ⟨_, rfl, hadmitted.trans (S.atGuard_user hi rfl)⟩
        signed := hsigned
        inTime := Nat.not_le.mp hnow
        unrevoked := hrecord
        expired := fun j hj hout => hreached.expired_of_loggedOut hj hout hrecord }

omit hi in
theorem Admits.run {decoding lookingUp admitted : ServiceConfig ν}
    (h : S.Admits i token decoding lookingUp admitted) :
    ∃ l, Run S.env decoding l admitted := by
  obtain ⟨e, l, hstep, hrun, -⟩ := h.decoded
  obtain ⟨e', l', hstep', hrun'⟩ := h.lookedUp
  exact ⟨_, ((Run.nil.concat hstep).trans hrun).trans ((Run.nil.concat hstep').trans hrun')⟩

omit hi in
/-- A token that is signed is one that somebody has been answered with from then on. -/
theorem Reached.issued (h : S.Reached c) (htoken : token ∈ c.shared.1.signed)
    (hrun : Run S.env c l d) : ∃ j, S.Responds d j (.ok (.token token)) ∧
      ∃ u ∈ d.shared.1.users, u.id = token.sub ∧ (S.authRequests j).proves u := by
  obtain ⟨now, g, q, a, b, hparts⟩ := h.parts
  obtain ⟨-, g', -, q', l', a', -, b', hparts', -, -, hauth', -⟩ := hparts.extend hrun
  obtain ⟨l, hauth⟩ := hparts.auth
  rw [← hparts.store] at htoken
  rw [← hparts'.store]
  have hsound := auth_sound (authInv_of_unused rfl rfl) hauth
  exact hparts'.issued ((Run.sound (fun _ _ _ _ hG => hG) hsound hauth').2.signed token htoken)

/-- A request that has ended without being turned away has come with an accepted token. -/
theorem Reached.vouched (h : S.Reached c) (hout : endpoint ≠ .logout)
    (hme : endpoint ≠ .readCurrentUser) (hrefusal : S.refusal i = none)
    (hended : (c.prog i).Ended) :
    (∃ e : AuthError, c.prog i = .raise e.envelope) ∨ S.Vouched c i token := by
  obtain ⟨now, l, hrun⟩ := h
  obtain hdenied | ⟨decoding, lookingUp, admitted, l', hadmits, hrun'⟩ :=
    admitted_or_denied hi hrun hrefusal hout hme hended
  · exact .inl hdenied
  · obtain ⟨l₀, hrun₀⟩ := hadmits.run
    exact .inr ⟨⟨decoding, lookingUp, admitted, l', hadmits, hrun'⟩,
      hadmits.waiting.reached.issued hadmits.signed (hrun₀.trans hrun')⟩

theorem Reached.vouched_of_done (h : S.Reached c) (hout : endpoint ≠ .logout)
    (hme : endpoint ≠ .readCurrentUser) {admission : Admission} {result : BodyResult}
    (hdone : c.prog i = .done (admission, result)) : S.Vouched c i token := by
  obtain ⟨now, g, q, a, b, hparts⟩ := h.parts
  have hstage := hparts.splits.stage i
  rw [hdone] at hstage
  have hrefusal := (hstage.of_done (hparts.splits.result i)).1
  rcases h.vouched hi hout hme hrefusal (hdone ▸ .done _) with ⟨e, hraise⟩ | hvouched
  · cases hdone.symm.trans hraise
  · exact hvouched

/-- A request that has been answered something else than an error of authentication has been
let in, unless it was refused before. -/
theorem Reached.vouched_of_responds (h : S.Reached c) (hout : endpoint ≠ .logout)
    (hme : endpoint ≠ .readCurrentUser) {r : Except ErrorEnvelope ServiceResponse}
    (hr : S.Responds c i r) :
    (∃ e : AuthError, r = .error e.envelope) ∨ (S.refusal i = none → S.Vouched c i token) := by
  cases hr with
  | @raised e hraise =>
      by_cases hrefusal : S.refusal i = none
      · rcases h.vouched hi hout hme hrefusal (hraise ▸ .raise _) with ⟨e', hraise'⟩ | hvouched
        · obtain rfl := Prog.raise.inj (hraise.symm.trans hraise')
          exact .inl ⟨e', rfl⟩
        · exact .inr fun _ => hvouched
      · exact .inr fun hnone => absurd hnone hrefusal
  | ended hdone => exact .inr fun _ => h.vouched_of_done hi hout hme hdone
  | returned hdone => exact .inr fun _ => h.vouched_of_done hi hout hme hdone

end Admitted

/-- A USER account goes back to a `POST /accounts` of its owner. -/
theorem Parts.opener (h : S.Parts now c g q a b) (hc : S.Reached c) {account : Account}
    (haccount : account ∈ (S.db c.shared).accounts) (htype : account.accountType = .user) :
    ∃ i token payload,
      S.requests i = .authenticated (.bearer token) (.createAccount payload) ∧
      S.Vouched c i token ∧
      Opens S.supportedCurrencies (.createAccount token.sub payload) account.opened ∧
      b.prog i = .done (.created account.opened) := by
  obtain ⟨i, hdone, hopens⟩ := account_opened h.api (a := account) (h.ledger ▸ haccount) htype
  obtain ⟨admission, hprog⟩ := h.prog_of_handled hdone
  obtain ⟨token, endpoint, -, hrequest, -⟩ := h.letIn (i := i)
    fun hstart => S.api.handler_ne_done i _ _ (hstart.symm.trans hdone)
  have hwrite : S.api.requests i = write (.authenticated (.bearer token) endpoint) := by
    rw [← hrequest]
    rfl
  rw [hwrite] at hopens
  cases endpoint with
  | createAccount payload =>
      exact ⟨i, token, payload, hrequest,
        hc.vouched_of_done hrequest (by simp) (by simp) hprog, hopens, hdone⟩
  | logout | readCurrentUser | moveMoney | read | readReconciliation => exact hopens.elim

/-- A call of `create_transfer` goes back to a request of the user it is submitted by. -/
theorem Parts.caller (h : S.Parts now c g q a b) (hc : S.Reached c) {args : TransferArgs}
    (hcalled : (i, args) ∈ c.shared.2.called) : ∃ token header route,
      S.requests i = .authenticated (.bearer token) (.moveMoney header route) ∧
      S.Vouched c i token ∧ Asks (.moveMoney ⟨token.sub, header, route⟩) args := by
  obtain ⟨hdone, hasks⟩ := called_asked h.api (h.ledger ▸ hcalled)
  obtain ⟨admission, hprog⟩ := h.prog_of_handled hdone
  obtain ⟨token, endpoint, -, hrequest, -⟩ := h.letIn (i := i)
    fun hstart => S.api.handler_ne_done i _ _ (hstart.symm.trans hdone)
  have hwrite : S.api.requests i = write (.authenticated (.bearer token) endpoint) := by
    rw [← hrequest]
    rfl
  rw [hwrite] at hasks
  cases endpoint with
  | moveMoney header route =>
      exact ⟨token, header, route, hrequest,
        hc.vouched_of_done hrequest (by simp) (by simp) hprog, hasks⟩
  | logout | readCurrentUser | createAccount | read | readReconciliation => exact hasks.elim

/-- Money is moved for those only who have shown who they are, and just as they say: every
transaction is word for word what some request asks for, the request has come with a token
that was accepted and had been issued to the user, and the source is for the user to
debit. -/
theorem transaction_vouched (h : S.Reached c) {t : Transaction}
    (ht : t ∈ (S.db c.shared).transactions) :
    ∃ i token header route,
      S.requests i = .authenticated (.bearer token) (.moveMoney header route) ∧
      S.Vouched c i token ∧ Asks (.moveMoney ⟨token.sub, header, route⟩) t.args ∧
      (S.db c.shared).DebitedBy token.sub t := by
  obtain ⟨now, g, q, a, b, hparts⟩ := h.parts
  have hinv := hparts.apiInv
  obtain ⟨k, hk, i, args, x, hauthor, -, rfl⟩ := hinv.transaction ht
  have hcalled := hinv.authors k hk _ hauthor
  obtain ⟨token, header, route, hrequest, hvouched, hasks⟩ := hparts.caller h hcalled
  have hdebited := hinv.debitedBy (hinv.authorised i args hcalled) x
  have huser : (S.api.requests i).user = token.sub := by
    show (write (S.requests i)).user = _
    rw [hrequest]
    rfl
  rw [huser] at hdebited
  exact ⟨i, token, header, route, hrequest, hvouched, hasks, hdebited⟩

/-- Who is told of an account has opened it. -/
theorem Parts.created_iff (h : S.Parts now c g q a b) {body : AccountPublic} :
    S.Responds c i (.ok (.account body)) ↔
      ∃ account, b.prog i = .done (.created account) ∧
        AccountPublic.fromDocument account = .ok body := by
  constructor
  · intro hr
    generalize hresponse : Except.ok (ServiceResponse.account body) = r at hr
    cases hr with
    | raised => cases hresponse
    | @ended admission result _ hdone hr =>
        rw [← hresponse] at hr
        cases result with
        | nothing =>
            cases admission with
            | auth response => cases response <;> cases hr
            | profile user => cases hr
        | read | report => cases hr
        | handled result =>
            cases result with
            | called args => cases hr
            | created account =>
                obtain ⟨shown, hshown, heq⟩ := respondWith_eq_ok.mp (Option.some.inj hr)
                obtain rfl := ServiceResponse.account.inj heq
                exact ⟨account, h.handled hdone, hshown⟩
    | returned =>
        rcases callResponse_eq_ok hresponse.symm with ⟨_, _, -, -, heq⟩ | ⟨_, -, heq⟩ <;> cases heq
  · rintro ⟨account, hdone, hshown⟩
    obtain ⟨admission, hprog⟩ := h.prog_of_handled hdone
    exact .ended hprog (congrArg some (respondWith_eq_ok.mpr ⟨body, hshown, rfl⟩))

/-- An account is the one that its request is answered with, and no other request is. -/
theorem Parts.account_iff (h : S.Parts now c g q a b) {account : Account}
    (haccount : account ∈ (S.db c.shared).accounts)
    (hdone : b.prog i = .done (.created account.opened))
    (hcurrency : isCurrencyCode account.opened.currency = true) :
    S.Responds c j (.ok (.account account.opened.toPublic)) ↔ j = i := by
  have hinv := h.apiInv
  obtain ⟨hthere, hunique⟩ := created_once h.api
  rw [h.ledger] at hthere
  rw [h.created_iff]
  constructor
  · rintro ⟨other, hother, hshown⟩
    obtain ⟨-, heq⟩ := validated_eq_ok.mp hshown
    obtain ⟨account', haccount', rfl⟩ := List.mem_map.mp (hthere j other hother)
    obtain rfl : account' = account :=
      Database.account_eq hinv.keys haccount' haccount (congrArg AccountPublic.id heq)
    exact hunique j i _ hother hdone
  · rintro rfl
    refine ⟨_, hdone, validated_eq_ok.mpr ⟨?_, rfl⟩⟩
    rw [hcurrency]
    rfl

/-- Every USER account is the one account of one answered `POST /accounts`, whose caller has
shown to be its owner; and every account that anybody was told of is there. The others are
the boundary accounts. -/
theorem account_vouched (h : S.Reached c) :
    (∀ account ∈ (S.db c.shared).accounts, account.accountType = .user →
      ∃ i token payload,
        S.requests i = .authenticated (.bearer token) (.createAccount payload) ∧
        S.Vouched c i token ∧
        Opens S.supportedCurrencies (.createAccount token.sub payload) account.opened ∧
        ∀ j, S.Responds c j (.ok (.account account.opened.toPublic)) ↔ j = i) ∧
    (∀ i body, S.Responds c i (.ok (.account body)) →
      ∃ account ∈ (S.db c.shared).accounts, account.opened.toPublic = body) ∧
    ∀ account ∈ (S.db c.shared).accounts, account.accountType = .system →
      account.ownerId = none ∧ account.id ∈ c.shared.2.provisioned := by
  obtain ⟨now, g, q, a, b, hparts⟩ := h.parts
  have hinv := hparts.apiInv
  refine ⟨fun account haccount htype => ?_, fun i body hr => ?_, fun account haccount htype =>
    hinv.boundaries _ _ (hinv.holder haccount) htype⟩
  · obtain ⟨i, token, payload, hrequest, hvouched, hopens, hdone⟩ := hparts.opener h haccount htype
    refine ⟨i, token, payload, hrequest, hvouched, hopens, fun j => ?_⟩
    exact hparts.account_iff haccount hdone hopens.isCurrencyCode
  · obtain ⟨account, hdone, hshown⟩ := hparts.created_iff.mp hr
    obtain ⟨-, rfl⟩ := validated_eq_ok.mp hshown
    have hthere := (created_once hparts.api).1 i account hdone
    rw [hparts.ledger] at hthere
    obtain ⟨account', haccount', rfl⟩ := List.mem_map.mp hthere
    exact ⟨account', haccount', rfl⟩

end Vouched

end Service

open Example in
/-- The payment goes back to Alice's request. -/
theorem transaction_vouched_served : ∃ (c : ServiceConfig Nat) (x y : Stamp),
    bank.Reached c ∧ bank.db c.shared = servedDb x y ∧ ∃ i token header route,
      bank.requests i = .authenticated (.bearer token) (.moveMoney header route) ∧
      bank.Vouched c i token ∧
      Asks (.moveMoney ⟨token.sub, header, route⟩) (y.header (payArgs 11 1 0 "payment-0001")).args ∧
      (bank.db c.shared).DebitedBy token.sub (y.header (payArgs 11 1 0 "payment-0001")) := by
  obtain ⟨c, x, y, hc, hdb, -⟩ := served
  refine ⟨c, x, y, hc, hdb, Service.transaction_vouched hc ?_⟩
  rw [hdb]
  exact List.mem_append_right [x.header (fundArgs 11 1 "funding-0001")] (List.mem_singleton_self _)

open Example in
/-- The account goes back to Alice's request. -/
theorem account_vouched_served : ∃ (c : ServiceConfig Nat) (account : Account),
    bank.Reached c ∧ account ∈ (bank.db c.shared).accounts ∧ account.id = 1 ∧
    ∃ i token payload,
      bank.requests i = .authenticated (.bearer token) (.createAccount payload) ∧
      bank.Vouched c i token ∧
      Opens bank.supportedCurrencies (.createAccount token.sub payload) account.opened ∧
      ∀ j, bank.Responds c j (.ok (.account account.opened.toPublic)) ↔ j = i := by
  obtain ⟨c, x, y, hc, hdb, -⟩ := served
  have haccount : Database.incCounter alice ∈ (bank.db c.shared).accounts := by
    rw [hdb]
    exact List.mem_cons_of_mem _ (List.mem_singleton_self _)
  exact ⟨c, _, hc, haccount, rfl, (Service.account_vouched hc).1 _ haccount rfl⟩

end Ledgerlock
