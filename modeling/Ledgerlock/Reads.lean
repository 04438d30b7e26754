import Ledgerlock.Pipeline.Paging
import Ledgerlock.Routes
import Ledgerlock.Security

/-!
# Ledgerlock.Reads

The endpoints that only read: `GET /accounts`, `GET /accounts/{account_id}` and its
`/balance` (`routes/accounts.py`), and `GET /transactions/{transaction_id}`
(`routes/transactions.py`), from the credentials a request comes with to the body the
client gets.

A request is served on one state of the collections (`Collections`). What the response
depends on besides are the clock, the tokens that carry a signature, and the order in
which the server returns the accounts of a user (`ServerSort`).
-/

namespace Ledgerlock

open Interleave (Config Prog Run)

/-! ### The collections -/

/-- The state of the database that the readers look at. The `_id` index of a collection
is always there. -/
structure Collections extends Database where
  users : List User
  revokedTokens : List RevokedToken
  account_ids : (accounts.map (·.id)).Nodup
  transaction_ids : (transactions.map (·.id)).Nodup

/-- `.sort("created_at", ASCENDING)`, as the server carries it out for one query. -/
abbrev ServerSort := Pipeline.SortBy fun a : Account => a.createdAt

def maxPageSize : Int := 200

def defaultPageSize : Int := 50

/-- `find({"owner_id": owner_id})` -/
def Database.accountsOwnedBy (d : Database) (ownerId : ObjectId) : List Account :=
  d.accounts.filter fun a => a.ownerId = some ownerId

/-- `list_accounts_for_owner`. The driver encodes the number of documents to skip. -/
def Database.listAccountsForOwner (order : ServerSort) (d : Database) (ownerId : ObjectId)
    (limit offset : Int) : Except PyError (List Account) :=
  let boundedLimit := max 1 (min limit maxPageSize)
  let skip := max 0 offset
  if FitsLong skip then .ok (order.page (d.accountsOwnedBy ownerId) skip.toNat boundedLimit.toNat)
  else .error .overflowError

/-- `ledger_service.get_transaction` -/
def Database.getTransaction (d : Database) (transactionId : ObjectId) : Option Transaction :=
  d.transactions.find? fun t => t.id = transactionId

/-! ### Response models -/

structure AccountPublic where
  id : ObjectId
  ownerId : Option ObjectId
  currency : String
  status : AccountStatus
  accountType : AccountType
  label : String
  createdAt : Timestamp
  deriving Repr, DecidableEq

/-- The fields of an account that are shown. -/
def Account.toPublic (a : Account) : AccountPublic where
  id := a.id
  ownerId := a.ownerId
  currency := a.currency
  status := a.status
  accountType := a.accountType
  label := a.label
  createdAt := a.createdAt

/-- `AccountPublic.from_document` -/
def AccountPublic.fromDocument (a : Account) : Except PyError AccountPublic :=
  validated (if isCurrencyCode a.currency then [] else ["currency"]) a.toPublic

structure PageMeta where
  limit : Int
  offset : Int
  returned : Nat
  deriving Repr, DecidableEq

structure AccountListResponse where
  accounts : List AccountPublic
  page : PageMeta
  deriving Repr, DecidableEq

structure BalanceResponse where
  accountId : ObjectId
  currency : String
  balanceMinor : Int
  totalCreditedMinor : Int
  totalDebitedMinor : Int
  entryCount : Nat
  computedAt : Timestamp
  deriving Repr, DecidableEq

/-- `ComputedBalance.to_response` -/
def ComputedBalance.toResponse (b : ComputedBalance) (accountId : ObjectId) (currency : String)
    (computedAt : Timestamp) : Except PyError BalanceResponse :=
  validated
    ((if isCurrencyCode currency then [] else ["currency"])
      ++ (if 0 ≤ b.totalCreditedMinor then [] else ["total_credited_minor"])
      ++ (if 0 ≤ b.totalDebitedMinor then [] else ["total_debited_minor"]))
    { accountId
      currency
      balanceMinor := b.balanceMinor
      totalCreditedMinor := b.totalCreditedMinor
      totalDebitedMinor := b.totalDebitedMinor
      entryCount := b.entryCount
      computedAt }

/-- `TransactionPublic.from_document` on a stored document, which need not be one that
`TransactionDocument` accepts. -/
def TransactionPublic.ofStored (t : Transaction) : Except PyError TransactionPublic :=
  validated (if isCurrencyCode t.currency then [] else ["currency"]) (.fromDocument t)

/-! ### Errors -/

/-- What is raised while a read is served. -/
inductive ReadError
  | auth (e : AuthError)
  | ledgerlock (e : LedgerlockError)
  /-- `TransactionNotFoundError` -/
  | transactionNotFound (transactionId : ObjectId)
  /-- `RequestValidationError` -/
  | malformedRequest (problems : String)
  | python (e : PyError)
  deriving Repr, DecidableEq

/-- The one error envelope, with the code as it is sent. -/
structure ErrorEnvelope where
  statusCode : Nat
  code : String
  message : String
  deriving Repr, DecidableEq

def ErrorCode.value : ErrorCode → String
  | malformedRequest => "MALFORMED_REQUEST"
  | internalError => "INTERNAL_ERROR"
  | forbidden => "FORBIDDEN"
  | accountNotFound => "ACCOUNT_NOT_FOUND"
  | accountNotActive => "ACCOUNT_NOT_ACTIVE"
  | unsupportedCurrency => "UNSUPPORTED_CURRENCY"
  | insufficientFunds => "INSUFFICIENT_FUNDS"
  | duplicateSubmission => "DUPLICATE_SUBMISSION"
  | idempotencyKeyRequired => "IDEMPOTENCY_KEY_REQUIRED"
  | malformedIdempotencyKey => "MALFORMED_IDEMPOTENCY_KEY"
  | currencyMismatch => "CURRENCY_MISMATCH"
  | sameAccountTransfer => "SAME_ACCOUNT_TRANSFER"
  | writeConflict => "WRITE_CONFLICT"

def ErrorResponse.envelope (e : ErrorResponse) : ErrorEnvelope :=
  ⟨e.statusCode, e.code.value, e.message⟩

def AuthError.envelope : AuthError → ErrorEnvelope
  | unauthenticated message => ⟨401, "UNAUTHENTICATED", message⟩
  | tokenExpired => ⟨401, "TOKEN_EXPIRED", "This token has expired. Log in again."⟩
  | tokenRevoked => ⟨401, "TOKEN_REVOKED", "This token has been revoked. Log in again."⟩
  | invalidCredentials => ⟨401, "INVALID_CREDENTIALS", "Email or password is incorrect."⟩
  | emailAlreadyRegistered =>
      ⟨409, "EMAIL_ALREADY_REGISTERED", "An account with this email already exists."⟩

/-- The handler that catches it. -/
def ReadError.envelope : ReadError → ErrorEnvelope
  | auth e => e.envelope
  | ledgerlock e => (handleLedgerlockError e).envelope
  | transactionNotFound _ => ⟨404, "TRANSACTION_NOT_FOUND", "Transaction not found."⟩
  | malformedRequest problems => (handleValidationError problems).envelope
  | python _ => handleUnexpectedError.envelope

/-! ### Authentication -/

/-- The `Authorization` header. -/
inductive Credentials
  | missing
  /-- `HTTPBearer(auto_error=False)` hands it over as a header that is missing. -/
  | otherScheme
  | bearer (token : AccessToken)
  deriving Repr, DecidableEq

/-- When a request arrives: the clock, and the tokens with a signature. -/
structure Moment where
  now : Instant
  signed : List AccessToken
  deriving Repr, DecidableEq

namespace Collections

def isTokenRevoked (c : Collections) (jti : String) : Bool :=
  c.revokedTokens.any fun r => r.jti = jti

def findUser (c : Collections) (id : ObjectId) : Option User := c.users.find? fun u => u.id = id

/-- `get_current_user` -/
def getCurrentUser (c : Collections) (moment : Moment) :
    Credentials → Except AuthError AuthenticatedUser
  | .missing | .otherScheme => .error (.unauthenticated "Authentication required.")
  | .bearer token =>
      if token ∉ moment.signed then .error (.unauthenticated "Access token is invalid.")
      else if token.expiresAt ≤ moment.now then .error .tokenExpired
      else if c.isTokenRevoked token.jti then .error .tokenRevoked
      else
        match c.findUser token.sub with
        | none => .error (.unauthenticated "Access token is invalid.")
        | some user =>
            .ok { id := token.sub, email := user.email, jti := token.jti,
                  tokenExpiresAt := token.expiresAt }

/-- What the requests of `Ledgerlock.Security` share. -/
def authStore (c : Collections) (moment : Moment) : AuthStore where
  now := moment.now
  users := c.users
  signed := moment.signed
  revokedTokens := c.revokedTokens

theorem eval_decodeAccessToken (token : AccessToken) (x : AuthInput) (s : AuthStore) :
    (decodeAccessToken token).eval x s =
      (if token ∉ s.signed then .error (.unauthenticated "Access token is invalid.")
        else if token.expiresAt ≤ s.now then .error .tokenExpired else .ok (), s) := by
  rw [decodeAccessToken, Prog.eval]
  split_ifs <;> rfl

/-- Undisturbed, the program of `Ledgerlock.Security` comes to the same. -/
theorem eval_getCurrentUser (c : Collections) (moment : Moment) (x : AuthInput)
    (token : AccessToken) : (Ledgerlock.getCurrentUser token).eval x (c.authStore moment) =
      (c.getCurrentUser moment (.bearer token), c.authStore moment) := by
  rw [Ledgerlock.getCurrentUser, Prog.eval_bind, eval_decodeAccessToken, getCurrentUser]
  by_cases hsigned : token ∈ moment.signed
  · by_cases hexpired : token.expiresAt ≤ moment.now
    · simp [authStore, hsigned, hexpired]
    · simp only [authStore, hsigned, hexpired, not_true_eq_false, if_false, Prog.eval_bind,
        Ledgerlock.isTokenRevoked, Prog.eval_read]
      by_cases hrevoked : c.isTokenRevoked token.jti
      · rw [if_pos hrevoked]
        rw [isTokenRevoked] at hrevoked
        rw [if_pos hrevoked]
        rfl
      · rw [if_neg hrevoked, findUser]
        rw [isTokenRevoked] at hrevoked
        rw [if_neg hrevoked, Prog.eval_bind, Prog.eval_read]
        cases c.users.find? fun u => u.id = token.sub <;> rfl
  · simp [authStore, hsigned]

/-- `get_current_user` does not change what the requests share. -/
theorem every_getCurrentUser (token : AccessToken) :
    (Ledgerlock.getCurrentUser token).Every (fun f _ => ∀ x s, f x s = s) fun _ => True := by
  refine Prog.Every.bind (B := fun _ => True) ⟨fun _ _ _ => rfl, fun x s => ?_⟩ fun _ _ => ?_
  · dsimp only
    split_ifs <;> trivial
  refine Prog.Every.bind (B := fun _ => True) ⟨fun _ _ _ => rfl, fun _ _ => trivial⟩
    fun revoked _ => ?_
  split_ifs
  · trivial
  refine Prog.Every.bind (B := fun _ => True) ⟨fun _ _ _ => rfl, fun _ _ => trivial⟩
    fun user _ => ?_
  cases user <;> trivial

/-- A request that depends on it gets to its answer when nobody disturbs it. -/
theorem exists_run_getCurrentUser {ν : Type} [DecidableEq ν] {c : Collections}
    {moment : Moment} {token : AccessToken} {x : AuthInput} {i : ν}
    {d : Config ν AuthStore AuthInput AuthError AuthenticatedUser}
    (hi : d.prog i = Ledgerlock.getCurrentUser token) (hd : d.shared = c.authStore moment)
    (hx : authEnv.offers d.shared x) : ∃ l, Run authEnv d l ⟨d.shared,
      Function.update d.prog i (.ofExcept (c.getCurrentUser moment (.bearer token)))⟩ := by
  have hrun := Interleave.exists_run_eval (I := fun s => s = d.shared)
    (fun s hs => hs ▸ hx) hi
    ((every_getCurrentUser token).mono fun f k hf s hs => (hf x s).trans hs) rfl
  rwa [hd, eval_getCurrentUser, ← hd] at hrun

end Collections

/-! ### The handlers -/

section Handlers

variable [ServerSum] (order : ServerSort) (c : Collections) (user : AuthenticatedUser)

/-- `list_accounts` -/
def listAccounts (limit offset : Int) : Except ReadError AccountListResponse := do
  let documents ← (c.listAccountsForOwner order user.id limit offset).mapError .python
  let accounts ← (documents.mapM AccountPublic.fromDocument).mapError .python
  pure { accounts, page := { limit, offset, returned := documents.length } }

/-- `read_account` -/
def readAccount (accountId : ObjectId) : Except ReadError AccountPublic := do
  let document ← (c.getOwnedAccountOrRaise accountId user.id).mapError .ledgerlock
  (AccountPublic.fromDocument document).mapError .python

/-- `read_balance` -/
def readBalance (computedAt : Timestamp) (accountId : ObjectId) :
    Except ReadError BalanceResponse := do
  let document ← (c.getOwnedAccountOrRaise accountId user.id).mapError .ledgerlock
  let balance := computeBalance c.toDatabase document.id
  (balance.toResponse document.id document.currency computedAt).mapError .python

/-- `read_transaction` -/
def readTransaction (transactionId : ObjectId) : Except ReadError TransactionPublic :=
  match c.getTransaction transactionId with
  | none => .error (.transactionNotFound transactionId)
  | some document => do
      let accounts ← (c.listAccountsForOwner order user.id maxPageSize 0).mapError .python
      let ownedAccountIds := accounts.map (·.id)
      if document.sourceAccountId ∈ ownedAccountIds ∨
          document.destinationAccountId ∈ ownedAccountIds then
        (TransactionPublic.ofStored document).mapError .python
      else .error (.transactionNotFound transactionId)

end Handlers

/-! ### Serving a read -/

/-- The query parameters of `GET /accounts`. -/
structure PageQuery where
  limit : {n : Int // 1 ≤ n ∧ n ≤ maxPageSize} := ⟨defaultPageSize, by decide⟩
  offset : {n : Int // 0 ≤ n} := ⟨0, le_rfl⟩

/-- The path, with what the framework makes of its parameters: their values, or the
problems it reports. -/
inductive ReadRoute
  | listAccounts (query : Except String PageQuery)
  | readAccount (accountId : Except String ObjectId)
  | readBalance (accountId : Except String ObjectId)
  | readTransaction (transactionId : Except String ObjectId)

inductive ReadBody
  | accounts (body : AccountListResponse)
  | account (body : AccountPublic)
  | balance (body : BalanceResponse)
  | transaction (body : TransactionPublic)
  deriving Repr, DecidableEq

/-- 200 with a body, or an error. -/
abbrev ReadResponse := Except ErrorEnvelope ReadBody

structure ReadRequest where
  credentials : Credentials
  route : ReadRoute

/-- The parameters are looked at when the caller is known. -/
def ReadRoute.handle [ServerSum] (order : ServerSort) (c : Collections) (computedAt : Timestamp)
    (user : AuthenticatedUser) : ReadRoute → Except ReadError ReadBody
  | .listAccounts query => do
      let query ← query.mapError .malformedRequest
      .accounts <$> Ledgerlock.listAccounts order c user query.limit query.offset
  | .readAccount accountId => do
      let accountId ← accountId.mapError .malformedRequest
      .account <$> Ledgerlock.readAccount c user accountId
  | .readBalance accountId => do
      let accountId ← accountId.mapError .malformedRequest
      .balance <$> Ledgerlock.readBalance c user computedAt accountId
  | .readTransaction transactionId => do
      let transactionId ← transactionId.mapError .malformedRequest
      .transaction <$> Ledgerlock.readTransaction order c user transactionId

/-- A read that arrives at `moment` and finds the collections as `c`. -/
def ReadRequest.serve [ServerSum] (order : ServerSort) (c : Collections) (moment : Moment)
    (computedAt : Timestamp) (r : ReadRequest) : ReadResponse :=
  (do let user ← (c.getCurrentUser moment r.credentials).mapError ReadError.auth
      r.route.handle order c computedAt user).mapError ReadError.envelope

end Ledgerlock
