import Ledgerlock.Interleave.Run
import Ledgerlock.Routes
import Ledgerlock.Services.Startup

/-!
# Ledgerlock.Api

The three endpoints that write to the ledger, `POST /accounts`, `POST /transactions` and
`POST /accounts/{account_id}/funding`, with any number of requests of any users served
at the same time.

A handler looks accounts up outside any transaction, one lookup at a time, and then
makes one call of `create_transfer` or inserts one account. From the call on the request
is in the hands of the database: `ApiMoves` lets every call that has been made take its
steps in the system of `Ledgerlock.Deployment`, while replicas start up and operators
set the status of accounts. What the client is told in the end is in `Ledgerlock.Routes`.
-/

namespace Ledgerlock

open Interleave (Config Env Prog)
open Mvcc (Step)

/-! ### Requests -/

/-- `AccountLabel` -/
abbrev AccountLabel := {s : String // 1 ≤ s.toList.length ∧ s.toList.length ≤ 120}

/-- The payload of `POST /accounts`. It has no account type. -/
structure AccountCreateRequest where
  currency : CurrencyCode
  label : AccountLabel := ⟨"Primary account", by decide⟩
  deriving DecidableEq

/-- A request with a valid token. -/
inductive ApiRequest
  | createAccount (user : ObjectId) (payload : Payload AccountCreateRequest)
  /-- The two endpoints that move money. -/
  | moveMoney (request : Request)
  deriving DecidableEq

def ApiRequest.user : ApiRequest → ObjectId
  | createAccount user _ => user
  | moveMoney request => request.user

/-- Without an `Idempotency-Key` to look at. -/
def receiveBody {α : Type} : Payload α → Except ErrorResponse α
  | .unparsable statusCode message => .error ⟨statusCode, .malformedRequest, message⟩
  | .invalid problems => .error (handleValidationError problems)
  | .valid payload => .ok payload

/-! ### The shared state -/

/-- A call of `create_transfer`, with the request that makes it. -/
abbrev TransferCall (ν : Type) := ν × TransferArgs

structure ApiState (ν : Type) where
  ledger : LedgerState (TransferCall ν)
  /-- The calls that have been made. -/
  called : List (TransferCall ν)
  /-- The accounts that `ensure_system_accounts` has inserted. -/
  provisioned : List ObjectId

/-- The requests there are, and what they are served with. -/
structure Api (ν : Type) where
  requests : ν → ApiRequest
  /-- `settings.supported_currencies` -/
  supportedCurrencies : List String
  lossy : Prop
  faulty : Prop

namespace Api

variable {ν : Type} (A : Api ν)

/-- The ledger underneath, from an empty database. -/
def deployment : Deployment (TransferCall ν) where
  accounts := []
  accounts_keys := List.nodup_nil
  calls c := .createTransfer c.2
  operator _ w := AccountWrite w
  operator_accounts _ _ h := h
  lossy := A.lossy
  faulty := A.faulty

variable [ServerSum] [DecidableEq ν]

/-- What is in the database. -/
def db (s : ApiState ν) : Database := A.deployment.db s.ledger

/-! ### The handlers -/

/-- How a handler ends. -/
inductive Handled
  /-- 201, with the account. -/
  | created (account : Account)
  /-- The call of `create_transfer` is made, and its result awaited. -/
  | called (args : TransferArgs)
  deriving DecidableEq

abbrev Handler (ν α : Type) := Prog (ApiState ν) AccountStamp ErrorResponse α

/-- One lookup, which may raise. The server answers it in the step it is made in: a handler's own
queries are taken not to fail. -/
def lookup {α : Type} (q : Database → Except LedgerlockError α) : Handler ν α :=
  .act (fun _ s => s) fun _ s =>
    match q (A.db s) with
    | .ok a => .done a
    | .error e => .raise (handleLedgerlockError e)

/-- `ledger_service.create_transfer` is called. -/
def callTransfer (i : ν) (args : TransferArgs) : Handler ν Handled :=
  .act (fun _ s => { s with called := (i, args) :: s.called }) fun _ _ => .done (.called args)

/-- `account_service.create_account`. The insert is taken to be carried out and acknowledged in one
step, so that no handler raises for the server or the network here. -/
def insertAccount (user : ObjectId) (currency label : String) : Handler ν Handled :=
  .act
    (fun x s =>
      match Ledgerlock.createAccount user currency label x.createdAt x.updatedAt x.insertedId with
      | .ok w => { s with ledger := s.ledger.commitDirect w }
      | .error _ => s)
    fun x _ =>
      match Ledgerlock.createAccount user currency label x.createdAt x.updatedAt x.insertedId with
      | .ok (.insertAccount account) => .done (.created account)
      | _ => .raise handleUnexpectedError

/-- `create_account` of `routes/accounts.py` -/
def createAccount (user : ObjectId) (payload : AccountCreateRequest) : Handler ν Handled :=
  if (payload.currency : String) ∉ A.supportedCurrencies then
    .raise ⟨422, .unsupportedCurrency, "Currency '" ++ payload.currency ++
      "' is not supported. Supported: " ++ ", ".intercalate A.supportedCurrencies ++ "."⟩
  else insertAccount user payload.currency payload.label

/-- `create_transaction` -/
def createTransaction (i : ν) (user : ObjectId) (idempotencyKey : String)
    (payload : TransferCreateRequest) : Handler ν Handled := do
  let source ← A.lookup fun d => d.getAccountOrRaise payload.sourceAccountId
  if source.ownerId ≠ some user then
    .raise (handleLedgerlockError (.forbidden payload.sourceAccountId user))
  else do
    let _ ← A.lookup fun d => d.getAccountOrRaise payload.destinationAccountId
    callTransfer i
      { idempotencyKey
        sourceAccountId := payload.sourceAccountId
        destinationAccountId := payload.destinationAccountId
        amountMinor := payload.amountMinor
        currency := payload.currency
        description := payload.description
        kind := .transfer
        submittedBy := some user }

/-- `fund_account` -/
def fundAccount (i : ν) (user : ObjectId) (idempotencyKey : String) (accountId : ObjectId)
    (payload : FundingCreateRequest) : Handler ν Handled := do
  let destination ← A.lookup fun d => d.getOwnedAccountOrRaise accountId user
  let systemAccount ← A.lookup fun d =>
    match d.getSystemAccount payload.currency with
    | none => .error (.unsupportedCurrency payload.currency)
    | some systemAccount => .ok systemAccount
  callTransfer i
    { idempotencyKey
      sourceAccountId := systemAccount.id
      destinationAccountId := destination.id
      amountMinor := payload.amountMinor
      currency := payload.currency
      description := payload.description
      kind := .funding
      submittedBy := some user }

/-- The handler of a request, once the framework has received it. -/
def handler (i : ν) : ApiRequest → Handler ν Handled
  | .createAccount user payload =>
      match receiveBody payload with
      | .error e => .raise e
      | .ok payload => A.createAccount user payload
  | .moveMoney ⟨user, header, .createTransaction payload⟩ =>
      match receive header payload with
      | .error e => .raise e
      | .ok (key, payload) => A.createTransaction i user key payload
  | .moveMoney ⟨user, header, .fundAccount payload⟩ =>
      match receive header payload with
      | .error e => .raise e
      | .ok (key, accountId, payload) => A.fundAccount i user key accountId payload

/-! ### The world around them -/

/-- No account has the id, and nobody is about to use it. -/
structure Unused (s : ApiState ν) (id : ObjectId) : Prop where
  issued : id ∉ s.ledger.issued
  key : DbKey.account id ∉ (A.db s).keys
  held : ∀ c n a, s.ledger.phase c = .running n a → DbKey.account id ∉ a.held

/-- What happens to the database between the actions of handlers. -/
inductive Moves (s : ApiState ν) : ApiState ν → Prop
  /-- A call that has been made takes a step, or an operator sets a status. -/
  | ledger {st : LedgerState (TransferCall ν)} : Step A.deployment.system s.ledger st →
      (∀ c, st.phase c ≠ .idle → c ∈ s.called) →
      (∀ c ∈ st.log.drop s.ledger.log.length, c.author = none →
        ∃ id status, c.writes = [.setStatus id status]) →
      Moves s { s with ledger := st }
  /-- A replica that starts up inserts a boundary account. -/
  | provision {d : Database} {currency : String} {createdAt updatedAt : Timestamp}
      {id : ObjectId} {w : DbWrite} :
      ensureSystemAccount d currency createdAt updatedAt id = .ok (some w) →
      Step A.deployment.system s.ledger (s.ledger.commitDirect w) →
      Moves s { s with
        ledger := s.ledger.commitDirect w
        provisioned := id :: s.provisioned }

def env : Env (ApiState ν) AccountStamp where
  offers s x := A.Unused s x.insertedId
  moves := A.Moves

/-- Every request, about to be served. -/
def start : Config ν (ApiState ν) AccountStamp ErrorResponse Handled where
  shared := ⟨A.deployment.system.start, [], []⟩
  prog i := A.handler i (A.requests i)

/-- A state that requests come to. -/
def Reached (c : Config ν (ApiState ν) AccountStamp ErrorResponse Handled) : Prop :=
  ∃ l, Interleave.Run A.env A.start l c

end Api

end Ledgerlock
