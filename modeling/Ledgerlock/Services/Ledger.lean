import Ledgerlock.Db
import Ledgerlock.Mvcc.System

/-!
# Ledgerlock.Services.Ledger

`balance_service.py` and the atomic core, `ledger_service.py`.

`applyTransfer` is the transaction body: a program over the database that the
driver runs, and re-runs from the top, inside one transaction. Each of its
database operations is one operation of the program, so anything another client
does may fall between any two of them. `createTransfer` is the call around it:
what is refused before a session is opened, and which exception each failure of
the transaction becomes (`createTransferResult`).
-/

namespace Ledgerlock

open Mvcc (Tx Failure Call)

/-- A transaction program over the ledger's database. -/
abbrev LedgerTx (α : Type) := Tx Database DbWrite ObjectId Raised α

/-! ### Balances (`balance_service.py`) -/

/-- `ComputedBalance`, all in minor units. -/
structure ComputedBalance where
  balanceMinor : Int
  totalCreditedMinor : Int
  totalDebitedMinor : Int
  entryCount : Nat
  deriving Repr, DecidableEq

/-- `ZERO_BALANCE` -/
def zeroBalance : ComputedBalance := ⟨0, 0, 0, 0⟩

/-- The entries of one account. -/
def Database.entriesOf (d : Database) (accountId : ObjectId) : List LedgerEntry :=
  d.ledgerEntries.filter fun e => e.accountId = accountId

/-- `_balance_pipeline`: `$match` on the account, then one `$group` with four
accumulators. An empty match makes no group. -/
def balancePipeline [ServerSum] (d : Database) (accountId : ObjectId) : List ComputedBalance :=
  match d.entriesOf accountId with
  | [] => []
  | entries =>
      [{ balanceMinor := ServerSum.sum (entries.map (·.signedAmountMinor))
         totalCreditedMinor := ServerSum.sum
           (entries.map fun e => if e.direction = .credit then e.amountMinor else 0)
         totalDebitedMinor := ServerSum.sum
           (entries.map fun e => if e.direction = .debit then e.amountMinor else 0)
         entryCount := entries.length }]

/-- `compute_balance` -/
def computeBalance [ServerSum] (d : Database) (accountId : ObjectId) : ComputedBalance :=
  match (balancePipeline d accountId).head? with
  | none => zeroBalance
  | some row => row

/-- The balance of an account: the sum of its signed amounts. -/
def Database.balance (d : Database) (accountId : ObjectId) : Int :=
  ((d.entriesOf accountId).map (·.signedAmountMinor)).sum

theorem computeBalance_balanceMinor [ServerSum] (d : Database) (accountId : ObjectId) :
    (computeBalance d accountId).balanceMinor =
      ServerSum.sum ((d.entriesOf accountId).map (·.signedAmountMinor)) := by
  unfold computeBalance balancePipeline
  cases h : d.entriesOf accountId <;> simp [zeroBalance]

/-! ### The transaction body (`ledger_service.py`) -/

/-- The arguments of `create_transfer`. -/
structure TransferArgs where
  idempotencyKey : String
  sourceAccountId : ObjectId
  destinationAccountId : ObjectId
  amountMinor : Int
  currency : String
  description : String
  kind : TransactionKind
  submittedBy : Option ObjectId
  deriving Repr, DecidableEq

structure LedgerWriteResult where
  transactionDocument : Transaction
  debitEntryId : ObjectId
  creditEntryId : ObjectId
  attempts : Nat
  deriving Repr, DecidableEq

/-- `_validate_participants` -/
def validateParticipants (source destination : Option Account)
    (sourceAccountId destinationAccountId : ObjectId) (currency : String) :
    Except LedgerlockError Unit :=
  match source, destination with
  | none, _ => .error (.accountNotFound (some .source) sourceAccountId)
  | some _, none => .error (.accountNotFound (some .destination) destinationAccountId)
  | some source, some destination =>
      if source.status ≠ .active then
        .error (.accountNotActive .source source.id source.status)
      else if destination.status ≠ .active then
        .error (.accountNotActive .destination destination.id destination.status)
      else if source.currency ≠ currency ∨ destination.currency ≠ currency then
        .error (.currencyMismatch currency source.currency destination.currency)
      else .ok ()

/-- What `_validate_participants` lets through. -/
theorem validateParticipants_eq_ok {source destination : Option Account}
    {sourceAccountId destinationAccountId : ObjectId} {currency : String} :
    validateParticipants source destination sourceAccountId destinationAccountId currency
        = .ok () ↔
      ∃ s d, source = some s ∧ destination = some d ∧ s.status = .active ∧
        d.status = .active ∧ s.currency = currency ∧ d.currency = currency := by
  unfold validateParticipants
  cases source with
  | none => simp
  | some s =>
      cases destination with
      | none => simp
      | some d =>
          by_cases h₁ : s.status = .active
          · by_cases h₂ : d.status = .active
            · by_cases h₃ : s.currency = currency <;> by_cases h₄ : d.currency = currency <;>
                simp [h₁, h₂, h₃, h₄]
            · simp [h₁, h₂]
          · simp [h₁]

/-- `_validate_participants` never calls a request a duplicate. -/
theorem validateParticipants_ne_duplicate {source destination : Option Account}
    {sourceAccountId destinationAccountId : ObjectId} {currency key : String}
    {detectedBy : DetectedBy} :
    validateParticipants source destination sourceAccountId destinationAccountId currency ≠
      .error (.duplicateSubmission key detectedBy) := by
  unfold validateParticipants
  cases source with
  | none => simp
  | some s =>
      cases destination with
      | none => simp
      | some d =>
          simp only
          split_ifs <;> simp

def raiseLedgerlock {α : Type} (e : LedgerlockError) : LedgerTx α := .raise (.ledgerlock e)

/-- `find_one` inside the transaction. -/
def findByIdempotencyKey (key : String) : LedgerTx (Option Transaction) :=
  Tx.query fun d => d.findByIdempotencyKey key

def findAccount (id : ObjectId) : LedgerTx (Option Account) :=
  Tx.query fun d => d.findAccount id

/-- Step 3: for a USER source, write the source account document and only then
read the balance and compare. A SYSTEM source is not checked and not written. -/
def serialiseAndCheck [ServerSum] (source : Account) (args : TransferArgs) : LedgerTx Unit :=
  if source.accountType = .user then do
    Tx.write (.incDebitSerialisationCounter args.sourceAccountId) (pure ())
    let balance ← Tx.query fun d => computeBalance d args.sourceAccountId
    if balance.balanceMinor < args.amountMinor then
      raiseLedgerlock (.insufficientFunds args.sourceAccountId balance.balanceMinor
        args.amountMinor (args.amountMinor - balance.balanceMinor))
    else pure ()
  else pure ()

/-- The header `_apply_transfer` builds. -/
def transactionDocument (args : TransferArgs) (createdAt : Timestamp) : TransactionDocument where
  idempotencyKey := args.idempotencyKey
  kind := args.kind
  status := .completed
  sourceAccountId := args.sourceAccountId
  destinationAccountId := args.destinationAccountId
  amountMinor := args.amountMinor
  currency := args.currency
  description := args.description
  submittedBy := args.submittedBy
  createdAt := createdAt

/-- `insert_one` into `transactions`: the driver encodes the document first. -/
def insertTransaction (t : Transaction) : LedgerTx Unit :=
  if FitsLong t.amountMinor then Tx.write (.insertTransaction t) (pure ())
  else Tx.raise (.python .overflowError)

/-- One document of the ordered `insert_many` into `ledger_entries`. -/
def insertLedgerEntry (e : LedgerEntry) : LedgerTx Unit :=
  if FitsLong e.amountMinor ∧ FitsLong e.signedAmountMinor then
    Tx.write (.insertLedgerEntry e) (pure ())
  else Tx.raise (.python .overflowError)

/-- Steps 4 and 5: the header, then both entries. -/
def writeTransfer (attempts : Nat) (args : TransferArgs) : LedgerTx LedgerWriteResult := do
  let transactionId ← Tx.newId pure
  let createdAt ← Tx.now pure
  let transaction ← Tx.ofExcept (liftPy (transactionDocument args createdAt).create)
  let transactionDocument := transaction.toBson transactionId
  insertTransaction transactionDocument
  let debitedAt ← Tx.now pure
  let debitEntry ← Tx.ofExcept (liftPy (LedgerEntryDocument.create transactionId
    args.sourceAccountId .debit args.amountMinor args.currency debitedAt))
  let creditedAt ← Tx.now pure
  let creditEntry ← Tx.ofExcept (liftPy (LedgerEntryDocument.create transactionId
    args.destinationAccountId .credit args.amountMinor args.currency creditedAt))
  -- the driver assigns both ids before it sends the batch
  let debitEntryId ← Tx.newId pure
  let creditEntryId ← Tx.newId pure
  insertLedgerEntry (debitEntry.toBson debitEntryId)
  insertLedgerEntry (creditEntry.toBson creditEntryId)
  pure { transactionDocument, debitEntryId, creditEntryId, attempts }

/-- `_apply_transfer` -/
def applyTransfer [ServerSum] (attempts : Nat) (args : TransferArgs) :
    LedgerTx LedgerWriteResult := do
  -- 1. idempotency check
  let alreadyApplied ← findByIdempotencyKey args.idempotencyKey
  if let some existing := alreadyApplied then
    raiseLedgerlock (.duplicateSubmission args.idempotencyKey (.preCheck existing.id))
  -- 2. load and validate both accounts
  let source ← findAccount args.sourceAccountId
  let destination ← findAccount args.destinationAccountId
  if let .error e := validateParticipants source destination args.sourceAccountId
      args.destinationAccountId args.currency then
    raiseLedgerlock e
  match source, destination with
  | some source, some _ =>
      -- 3. serialise, then check sufficiency
      serialiseAndCheck source args
      -- 4 and 5. write the header, then both entries
      writeTransfer attempts args
  | _, _ => Tx.raise (.python .assertionError)

/-! ### The call (`create_transfer`) -/

/-- What is refused before a session is opened. -/
def createTransferAdmission (args : TransferArgs) : Option Raised :=
  if args.sourceAccountId = args.destinationAccountId then
    some (.ledgerlock (.sameAccountTransfer args.sourceAccountId))
  else none

/-- The exception handlers around `with_transaction`. -/
def createTransferRaises (args : TransferArgs) (attempts : Nat) : Failure Raised → Raised
  | .raised e => e
  | .duplicateKey => .ledgerlock (.duplicateSubmission args.idempotencyKey .uniqueIndex)
  | .transient => .ledgerlock (.writeConflict args.sourceAccountId attempts)
  | .driver => .python .operationFailure

end Ledgerlock
