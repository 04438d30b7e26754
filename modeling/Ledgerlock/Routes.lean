import Ledgerlock.Deployment
import Ledgerlock.Mvcc.Serial
import Ledgerlock.Text.Fields

/-!
# Ledgerlock.Routes

The two endpoints that move money, `POST /transactions` (`routes/transactions.py`)
and `POST /accounts/{account_id}/funding` (`routes/accounts.py`), from the request
as the framework hands it over to the response the client gets.

A handler looks accounts up outside any transaction and then makes one call of
`create_transfer`. Requests are served one after the other here (`Serves`): each
finds the ledger as the one before it left it. The callers are authenticated, so a
request comes with its user.
-/

namespace Ledgerlock

open Mvcc (Alone Failure)

/-! ### Requests -/

/-- `AmountMinor` -/
abbrev AmountMinor := {n : Int // 0 < n ∧ n ≤ 1000000000000}

abbrev CurrencyCode := {s : String // isCurrencyCode s = true}

abbrev TransactionDescription := {s : String // s.toList.length ≤ maxDescriptionLength}

/-- The payload of `POST /transactions`. -/
structure TransferCreateRequest where
  sourceAccountId : ObjectId
  destinationAccountId : ObjectId
  amountMinor : AmountMinor
  currency : CurrencyCode
  description : TransactionDescription := ⟨"", by decide⟩
  deriving DecidableEq

/-- The payload of `POST /accounts/{account_id}/funding`. -/
structure FundingCreateRequest where
  amountMinor : AmountMinor
  currency : CurrencyCode
  description : TransactionDescription := ⟨"External funding", by decide⟩
  deriving DecidableEq

/-- What the framework makes of the path and the body of a request: the model, or
the problems it reports. -/
inductive Payload (α : Type)
  /-- The body cannot be parsed, which is found before anything else. -/
  | unparsable (statusCode : Nat) (message : String)
  /-- The model refuses it, which is found once the dependencies have run. -/
  | invalid (problems : String)
  | valid (payload : α)
  deriving DecidableEq

inductive Route
  | createTransaction (payload : Payload TransferCreateRequest)
  | fundAccount (payload : Payload (ObjectId × FundingCreateRequest))
  deriving DecidableEq

/-- A request with a valid token; `idempotencyKey` is the header. -/
structure Request where
  user : ObjectId
  idempotencyKey : Option String
  route : Route
  deriving DecidableEq

/-! ### Responses -/

structure TransactionPublic where
  id : ObjectId
  status : TransactionStatus
  kind : TransactionKind
  sourceAccountId : ObjectId
  destinationAccountId : ObjectId
  amountMinor : Int
  currency : String
  description : String
  idempotencyKey : String
  createdAt : Timestamp
  deriving Repr, DecidableEq

/-- `from_document` -/
def TransactionPublic.fromDocument (t : Transaction) : TransactionPublic where
  id := t.id
  status := t.status
  kind := t.kind
  sourceAccountId := t.sourceAccountId
  destinationAccountId := t.destinationAccountId
  amountMinor := t.amountMinor
  currency := t.currency
  description := t.description
  idempotencyKey := t.idempotencyKey
  createdAt := t.createdAt

/-- The one error envelope. -/
structure ErrorResponse where
  statusCode : Nat
  code : ErrorCode
  message : String
  deriving Repr, DecidableEq

inductive Response
  /-- 201, with the transaction. -/
  | created (body : TransactionPublic)
  | error (e : ErrorResponse)
  deriving Repr, DecidableEq

/-! ### Exception handlers (`errors.py`) -/

def handleLedgerlockError (e : LedgerlockError) : ErrorResponse :=
  ⟨e.statusCode, e.code, e.message⟩

def handleValidationError (problems : String) : ErrorResponse :=
  ⟨422, .malformedRequest, "Request validation failed. " ++ problems⟩

def handleUnexpectedError : ErrorResponse := ⟨500, .internalError, "An internal error occurred."⟩

/-- The handler that catches what a service function raised. -/
def Raised.response : Raised → ErrorResponse
  | ledgerlock e => handleLedgerlockError e
  | python _ => handleUnexpectedError

/-! ### The `Idempotency-Key` header -/

/-- A character `str.strip` removes. -/
def isSpace (c : Char) : Bool :=
  let n := c.toNat
  (decide (9 ≤ n) && decide (n ≤ 13)) || (decide (28 ≤ n) && decide (n ≤ 32))
    || n == 0x85 || n == 0xA0 || n == 0x1680 || (decide (0x2000 ≤ n) && decide (n ≤ 0x200A))
    || n == 0x2028 || n == 0x2029 || n == 0x202F || n == 0x205F || n == 0x3000

/-- `str.strip` -/
def strip (s : String) : String :=
  String.ofList ((s.toList.dropWhile isSpace).rdropWhile isSpace)

/-- What is visible in ASCII stays. -/
theorem isSpace_eq_false {c : Char} (h : 32 < c.toNat ∧ c.toNat < 128) : isSpace c = false := by
  simp only [isSpace, Bool.or_eq_false_iff, Bool.and_eq_false_iff, decide_eq_false_iff_not,
    beq_eq_false_iff_ne]
  omega

theorem strip_ofList (l : List Char) :
    strip (String.ofList l) = String.ofList (Text.trim isSpace l) := by
  rw [strip, String.toList_ofList]
  rfl

theorem toList_strip (s : String) : (strip s).toList = Text.trim isSpace s.toList := by
  rw [strip, String.toList_ofList]
  rfl

theorem strip_eq_self {s : String} (h : ∀ c ∈ s.toList, isSpace c = false) : strip s = s := by
  rw [← String.toList_inj, toList_strip, (Text.trimmed_of_forall h).trim_eq]

/-- `require_idempotency_key` -/
def requireIdempotencyKey : Option String → Except LedgerlockError String
  | none => .error .idempotencyKeyRequired
  | some header =>
      if strip header = "" then .error .idempotencyKeyRequired
      else if isIdempotencyKey (strip header) then .ok (strip header)
      else .error .malformedIdempotencyKey

/-- The framework runs the dependency on the header before it validates the body,
and after it has parsed it. -/
def receive {α : Type} (header : Option String) : Payload α → Except ErrorResponse (String × α)
  | .unparsable statusCode message => .error ⟨statusCode, .malformedRequest, message⟩
  | .invalid problems => do
      let _ ← (requireIdempotencyKey header).mapError handleLedgerlockError
      .error (handleValidationError problems)
  | .valid payload => do
      let key ← (requireIdempotencyKey header).mapError handleLedgerlockError
      .ok (key, payload)

/-! ### The handlers -/

/-- `create_transaction`, up to the call it makes. -/
def createTransaction (d : Database) (user : ObjectId) (idempotencyKey : String)
    (payload : TransferCreateRequest) : Except LedgerlockError TransferArgs := do
  let source ← d.getAccountOrRaise payload.sourceAccountId
  if source.ownerId ≠ some user then .error (.forbidden payload.sourceAccountId user)
  else do
    let _ ← d.getAccountOrRaise payload.destinationAccountId
    .ok
      { idempotencyKey
        sourceAccountId := payload.sourceAccountId
        destinationAccountId := payload.destinationAccountId
        amountMinor := payload.amountMinor
        currency := payload.currency
        description := payload.description
        kind := .transfer
        submittedBy := some user }

/-- `fund_account`, up to the call it makes. -/
def fundAccount (d : Database) (user : ObjectId) (idempotencyKey : String)
    (accountId : ObjectId) (payload : FundingCreateRequest) :
    Except LedgerlockError TransferArgs := do
  let destination ← d.getOwnedAccountOrRaise accountId user
  match d.getSystemAccount payload.currency with
  | none => .error (.unsupportedCurrency payload.currency)
  | some systemAccount =>
      .ok
        { idempotencyKey
          sourceAccountId := systemAccount.id
          destinationAccountId := destination.id
          amountMinor := payload.amountMinor
          currency := payload.currency
          description := payload.description
          kind := .funding
          submittedBy := some user }

/-- What a request comes to before `create_transfer` is called: the call, or an
error. -/
def Request.asks (d : Database) (r : Request) : Except ErrorResponse TransferArgs :=
  match r.route with
  | .createTransaction payload => do
      let (key, payload) ← receive r.idempotencyKey payload
      (createTransaction d r.user key payload).mapError handleLedgerlockError
  | .fundAccount payload => do
      let (key, accountId, payload) ← receive r.idempotencyKey payload
      (fundAccount d r.user key accountId payload).mapError handleLedgerlockError

/-- Who may ask for what: a transfer is asked for by the owner of its source, and a
funding, which debits the SYSTEM account of its currency, by the owner of its
destination. -/
inductive Entitled (d : Database) (user : ObjectId) (args : TransferArgs) : Prop
  | transfer {source : Account} : args.kind = .transfer → source ∈ d.accounts →
      source.id = args.sourceAccountId → source.ownerId = some user → Entitled d user args
  | funding {boundary destination : Account} : args.kind = .funding →
      boundary ∈ d.accounts → boundary.id = args.sourceAccountId →
      boundary.accountType = .system → destination ∈ d.accounts →
      destination.id = args.destinationAccountId → destination.ownerId = some user →
      Entitled d user args

theorem createTransaction_entitled {d : Database} {user : ObjectId} {key : String}
    {payload : TransferCreateRequest} {args : TransferArgs}
    (h : createTransaction d user key payload = .ok args) : Entitled d user args := by
  obtain ⟨source, hsource, h⟩ := bind_eq_ok.mp h
  obtain ⟨hmem, hid⟩ := Database.findAccount_some (Database.getAccountOrRaise_eq_ok.mp hsource)
  split at h
  · cases h
  · rename_i howner
    obtain ⟨_, -, h⟩ := bind_eq_ok.mp h
    obtain rfl := Except.ok.inj h
    exact .transfer rfl hmem hid (not_not.mp howner)

theorem fundAccount_entitled {d : Database} {user : ObjectId} {key : String}
    {accountId : ObjectId} {payload : FundingCreateRequest} {args : TransferArgs}
    (h : fundAccount d user key accountId payload = .ok args) : Entitled d user args := by
  obtain ⟨destination, hdestination, h⟩ := bind_eq_ok.mp h
  obtain ⟨hmem, -, howner⟩ := Database.getOwnedAccountOrRaise_eq_ok hdestination
  split at h
  · cases h
  · rename_i boundary hboundary
    obtain rfl := Except.ok.inj h
    obtain ⟨hsystem, htype, -⟩ := Database.getSystemAccount_eq_some hboundary
    exact .funding rfl hsystem rfl htype hmem rfl howner

/-- No request gets through to `create_transfer` without. -/
theorem Request.asks_entitled {d : Database} {r : Request} {args : TransferArgs}
    (h : r.asks d = .ok args) : Entitled d r.user args := by
  unfold asks at h
  split at h
  · obtain ⟨⟨key, payload⟩, -, h⟩ := bind_eq_ok.mp h
    exact createTransaction_entitled (mapError_eq_ok.mp h)
  · obtain ⟨⟨key, accountId, payload⟩, -, h⟩ := bind_eq_ok.mp h
    exact fundAccount_entitled (mapError_eq_ok.mp h)

/-! ### Serving requests -/

/-- The service the handlers call: every call there is. -/
def service : Deployment LedgerCall where
  accounts := []
  accounts_keys := by simp
  calls := id
  operator := fun _ _ => False
  operator_accounts := fun _ _ h => h.elim
  lossy := False
  faulty := False

section Serves

variable [ServerSum]

/-- A request served on the state `d` with nobody else about: the response, the
writes it commits and the ids it uses up. -/
inductive Served (d : Database) (taken : Set ObjectId) (r : Request) :
    Response → List DbWrite → List ObjectId → Prop
  | refused {e : ErrorResponse} : r.asks d = .error e → Served d taken r (.error e) [] []
  | written {args : TransferArgs} {result : LedgerWriteResult} {ws : List DbWrite}
      {ids : List ObjectId} : r.asks d = .ok args →
      Alone service.system d taken (.createTransfer args) (.ok (.written result)) ws ids →
      Served d taken r (.created (.fromDocument result.transactionDocument)) ws ids
  | raised {args : TransferArgs} {failure : Failure Raised} {ws : List DbWrite}
      {ids : List ObjectId} : r.asks d = .ok args →
      Alone service.system d taken (.createTransfer args) (.error failure) ws ids →
      Served d taken r (.error (createTransferRaises args 1 failure).response) ws ids

/-- Requests served one after the other, with the response each gets. -/
inductive Serves :
    Database → Set ObjectId → List (Request × Response) → Database → Prop
  | nil (d : Database) (taken : Set ObjectId) : Serves d taken [] d
  | cons {d d' : Database} {taken : Set ObjectId} {r : Request} {response : Response}
      {ws : List DbWrite} {ids : List ObjectId} {rest : List (Request × Response)} :
      Served d taken r response ws ids →
      Serves (Mvcc.view d ws) (taken ∪ {x | x ∈ ids}) rest d' →
      Serves d taken ((r, response) :: rest) d'

/-- The request that comes first is served, and then the others. -/
theorem Serves.head {d d' : Database} {taken : Set ObjectId} {run : List (Request × Response)}
    {r : Request} {rs : List Request} (h : Serves d taken run d')
    (hrequests : run.map Prod.fst = r :: rs) : ∃ response ws ids rest,
      run = (r, response) :: rest ∧ rest.map Prod.fst = rs ∧ Served d taken r response ws ids ∧
        Serves (Mvcc.view d ws) (taken ∪ {x | x ∈ ids}) rest d' := by
  cases h with
  | nil => cases hrequests
  | @cons _ _ _ r' response ws ids rest hserved hrest =>
      obtain ⟨rfl, hrs⟩ := List.cons.inj hrequests
      exact ⟨response, ws, ids, rest, rfl, hrs, hserved, hrest⟩

end Serves

end Ledgerlock
