import Mathlib.Algebra.BigOperators.Group.List.Basic
import Mathlib.Tactic.Common

/-!
# Ledgerlock.Models

The stored documents of `app/models`, and the checks their Pydantic models make
when one is built: `AccountDocument`, `TransactionDocument`,
`LedgerEntryDocument` and the field types of `common.py` they share.

A model's constructor either returns the document or raises; the exception
carries the names of the fields that were refused, in declaration order.
Timestamps are counts of milliseconds and ids are opaque numbers: nothing here
or downstream looks inside either.
-/

namespace Ledgerlock

abbrev ObjectId := Nat

/-- A UTC instant, in milliseconds, which is what the server stores. What is answered before it
has been stored is compared at that precision. -/
abbrev Timestamp := Nat

/-! ### Field types (`common.py`) -/

def isUpperAscii (c : Char) : Bool := 'A' ≤ c && c ≤ 'Z'

/-- `CurrencyCode`: the pattern `^[A-Z]{3}$`. -/
def isCurrencyCode (s : String) : Bool := s.toList.length == 3 && s.toList.all isUpperAscii

/-- One character of `[A-Za-z0-9_.:-]`. -/
def isKeyChar (c : Char) : Bool :=
  isUpperAscii c || ('a' ≤ c && c ≤ 'z') || ('0' ≤ c && c ≤ '9')
    || c == '_' || c == '.' || c == ':' || c == '-'

/-- `IdempotencyKey`: 8 to 128 characters of `[A-Za-z0-9_.:-]`. -/
def isIdempotencyKey (s : String) : Bool :=
  decide (8 ≤ s.toList.length) && decide (s.toList.length ≤ 128) && s.toList.all isKeyChar

def maxDescriptionLength : Nat := 280

/-- The exceptions that are not deliberate rejections: what a model, the BSON
encoder or an assertion raises. -/
inductive PyError
  /-- Pydantic's `ValidationError`, with the refused fields; a check of the whole
  model names none. -/
  | validationError (fields : List String)
  | valueError (message : String)
  /-- An integer does not fit BSON's 64 bits. -/
  | overflowError
  | assertionError
  /-- A failure reported by the server that is not a duplicate key and not
  labelled transient. -/
  | operationFailure
  deriving Repr, DecidableEq

/-- Accept the document unless a field was refused. -/
def validated {α : Type} (refused : List String) (document : α) : Except PyError α :=
  if refused = [] then .ok document else .error (.validationError refused)

@[simp] theorem validated_eq_ok {α : Type} {refused : List String} {document d : α} :
    validated refused document = .ok d ↔ refused = [] ∧ document = d := by
  unfold validated
  split <;> simp [*]

/-! ### Accounts (`account.py`) -/

inductive AccountStatus
  | active | frozen | closed
  deriving Repr, DecidableEq

inductive AccountType
  | user | system
  deriving Repr, DecidableEq

/-- The fields of `AccountDocument`, without the `_id` the driver assigns. -/
structure AccountDocument where
  ownerId : Option ObjectId
  currency : String
  status : AccountStatus
  accountType : AccountType
  label : String
  createdAt : Timestamp
  updatedAt : Timestamp
  deriving Repr, DecidableEq

/-- A document of the `accounts` collection. The counter is the one field the
model does not declare: it is created by the first `$inc`. -/
structure Account extends AccountDocument where
  id : ObjectId
  debitSerialisationCounter : Option Nat
  deriving Repr, DecidableEq

/-- `AccountDocument(...)`. -/
def AccountDocument.create (ownerId : Option ObjectId) (currency : String)
    (status : AccountStatus) (accountType : AccountType) (label : String)
    (createdAt updatedAt : Timestamp) : Except PyError AccountDocument :=
  validated (if isCurrencyCode currency then [] else ["currency"])
    { ownerId, currency, status, accountType, label, createdAt, updatedAt }

/-- `to_bson`, with the assigned `_id`. -/
def AccountDocument.toBson (d : AccountDocument) (id : ObjectId) : Account :=
  { d with id, debitSerialisationCounter := none }

/-! ### Transactions (`transaction.py`) -/

inductive TransactionStatus
  | pending | completed | failed | reversed
  deriving Repr, DecidableEq

inductive TransactionKind
  | transfer | funding
  deriving Repr, DecidableEq

/-- The fields of `TransactionDocument`, without the `_id`. -/
structure TransactionDocument where
  idempotencyKey : String
  kind : TransactionKind
  status : TransactionStatus
  sourceAccountId : ObjectId
  destinationAccountId : ObjectId
  amountMinor : Int
  currency : String
  description : String
  submittedBy : Option ObjectId
  createdAt : Timestamp
  deriving Repr, DecidableEq

/-- A document of the `transactions` collection. -/
structure Transaction extends TransactionDocument where
  id : ObjectId
  deriving Repr, DecidableEq

/-- The fields of a transaction document the model refuses. -/
def TransactionDocument.refusedFields (d : TransactionDocument) : List String :=
  (if isIdempotencyKey d.idempotencyKey then [] else ["idempotency_key"])
    ++ (if 0 < d.amountMinor then [] else ["amount_minor"])
    ++ (if isCurrencyCode d.currency then [] else ["currency"])
    ++ (if d.description.toList.length ≤ maxDescriptionLength then [] else ["description"])

/-- `TransactionDocument(...)`. -/
def TransactionDocument.create (d : TransactionDocument) :
    Except PyError TransactionDocument :=
  validated d.refusedFields d

/-- `to_bson`, with `_id` set. -/
def TransactionDocument.toBson (d : TransactionDocument) (id : ObjectId) : Transaction :=
  { d with id }

@[simp] theorem TransactionDocument.toBson_id (d : TransactionDocument) (id : ObjectId) :
    (d.toBson id).id = id := rfl

@[simp] theorem TransactionDocument.toBson_toTransactionDocument (d : TransactionDocument)
    (id : ObjectId) : (d.toBson id).toTransactionDocument = d := rfl

/-- What the model promises of a transaction document it accepts. -/
theorem TransactionDocument.refusedFields_eq_nil {d : TransactionDocument} :
    d.refusedFields = [] ↔ isIdempotencyKey d.idempotencyKey = true ∧ 0 < d.amountMinor ∧
      isCurrencyCode d.currency = true ∧
      d.description.toList.length ≤ maxDescriptionLength := by
  simp [refusedFields]

/-! ### Ledger entries (`ledger_entry.py`) -/

inductive EntryDirection
  | debit | credit
  deriving Repr, DecidableEq

/-- The signed value of an entry: `+amount` for a credit, `-amount` for a debit. -/
def signedAmountFor (direction : EntryDirection) (amountMinor : Int) : Except PyError Int :=
  if amountMinor ≤ 0 then .error (.valueError "amount_minor must be a positive integer")
  else .ok (if direction = .credit then amountMinor else -amountMinor)

theorem signedAmountFor_of_pos {direction : EntryDirection} {amount : Int} (h : 0 < amount) :
    signedAmountFor direction amount =
      .ok (if direction = .credit then amount else -amount) := by
  rw [signedAmountFor, if_neg (by omega)]

/-- The fields of `LedgerEntryDocument`, without the `_id`. -/
structure LedgerEntryDocument where
  transactionId : ObjectId
  accountId : ObjectId
  direction : EntryDirection
  amountMinor : Int
  signedAmountMinor : Int
  currency : String
  createdAt : Timestamp
  deriving Repr, DecidableEq

/-- A document of the `ledger_entries` collection. -/
structure LedgerEntry extends LedgerEntryDocument where
  id : ObjectId
  deriving Repr, DecidableEq

/-- The field checks of the model, then `sign_must_match_direction`. -/
def LedgerEntryDocument.validate (d : LedgerEntryDocument) :
    Except PyError LedgerEntryDocument := do
  let d ← validated
    ((if 0 < d.amountMinor then [] else ["amount_minor"])
      ++ (if isCurrencyCode d.currency then [] else ["currency"])) d
  let expected ← signedAmountFor d.direction d.amountMinor
  if d.signedAmountMinor = expected then .ok d
  else .error (.validationError [])

/-- `LedgerEntryDocument.create`: the signed amount is derived, not passed in. -/
def LedgerEntryDocument.create (transactionId accountId : ObjectId)
    (direction : EntryDirection) (amountMinor : Int) (currency : String)
    (createdAt : Timestamp) : Except PyError LedgerEntryDocument := do
  let signedAmountMinor ← signedAmountFor direction amountMinor
  validate
    { transactionId, accountId, direction, amountMinor, signedAmountMinor, currency, createdAt }

/-- `to_bson`, with the assigned `_id`. -/
def LedgerEntryDocument.toBson (d : LedgerEntryDocument) (id : ObjectId) : LedgerEntry :=
  { d with id }

/-- An entry's amounts and currency follow from what the model accepted: the
positive amount, its sign by direction, and a well-formed currency. -/
theorem LedgerEntryDocument.create_eq_ok {transactionId accountId : ObjectId}
    {direction : EntryDirection} {amount : Int} {currency : String} {now : Timestamp}
    {d : LedgerEntryDocument} :
    create transactionId accountId direction amount currency now = .ok d ↔
      0 < amount ∧ isCurrencyCode currency = true ∧
        d = { transactionId, accountId, direction, amountMinor := amount,
              signedAmountMinor := if direction = .credit then amount else -amount,
              currency, createdAt := now } := by
  by_cases h : 0 < amount
  · by_cases hc : isCurrencyCode currency = true
    · simp [create, validate, validated, signedAmountFor_of_pos h, h, hc, bind, Except.bind,
        eq_comm]
    · simp [create, validate, validated, signedAmountFor_of_pos h, h, hc, bind, Except.bind]
  · simp [create, signedAmountFor, show amount ≤ 0 by omega, h, bind, Except.bind]

end Ledgerlock
