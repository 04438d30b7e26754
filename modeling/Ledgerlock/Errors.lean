import Ledgerlock.Models

/-!
# Ledgerlock.Errors

The error taxonomy of `app/core/errors.py`: the deliberate rejections, each with
its status, its machine-readable code and its message. The arguments of a
constructor are what the source puts in the message or in the `context` that is
logged with it; the context never reaches a client.
-/

namespace Ledgerlock

/-- `ErrorCode`. -/
inductive ErrorCode
  | malformedRequest | internalError | forbidden
  | accountNotFound | accountNotActive | unsupportedCurrency
  | insufficientFunds | duplicateSubmission | idempotencyKeyRequired
  | malformedIdempotencyKey | currencyMismatch | sameAccountTransfer | writeConflict
  deriving Repr, DecidableEq

/-- The side of a transfer an account is on. -/
inductive Side
  | source | destination
  deriving Repr, DecidableEq

/-- How a repeated idempotency key was noticed. -/
inductive DetectedBy
  /-- By the read at the top of the transaction, which saw this document. -/
  | preCheck (existingTransactionId : ObjectId)
  | uniqueIndex
  deriving Repr, DecidableEq

/-- `LedgerlockError`: one constructor for each class raised on the paths
modelled here. -/
inductive LedgerlockError
  | forbidden (accountId userId : ObjectId)
  /-- `side` is set where the ledger transaction looks an account up, and not
  where a route does. -/
  | accountNotFound (side : Option Side) (accountId : ObjectId)
  | accountNotActive (side : Side) (accountId : ObjectId) (status : AccountStatus)
  | unsupportedCurrency (currency : String)
  | insufficientFunds (accountId : ObjectId) (balanceMinor requestedMinor shortfallMinor : Int)
  | duplicateSubmission (idempotencyKey : String) (detectedBy : DetectedBy)
  | idempotencyKeyRequired
  | malformedIdempotencyKey
  | currencyMismatch (requested source destination : String)
  | sameAccountTransfer (accountId : ObjectId)
  | writeConflict (sourceAccountId : ObjectId) (attempts : Nat)
  deriving Repr, DecidableEq

def Side.name : Side → String
  | .source => "source"
  | .destination => "destination"

def AccountStatus.value : AccountStatus → String
  | .active => "ACTIVE"
  | .frozen => "FROZEN"
  | .closed => "CLOSED"

namespace LedgerlockError

def code : LedgerlockError → ErrorCode
  | forbidden .. => .forbidden
  | accountNotFound .. => .accountNotFound
  | accountNotActive .. => .accountNotActive
  | unsupportedCurrency .. => .unsupportedCurrency
  | insufficientFunds .. => .insufficientFunds
  | duplicateSubmission .. => .duplicateSubmission
  | idempotencyKeyRequired => .idempotencyKeyRequired
  | malformedIdempotencyKey => .malformedIdempotencyKey
  | currencyMismatch .. => .currencyMismatch
  | sameAccountTransfer .. => .sameAccountTransfer
  | writeConflict .. => .writeConflict

def statusCode : LedgerlockError → Nat
  | forbidden .. => 403
  | accountNotFound .. => 404
  | accountNotActive .. => 409
  | unsupportedCurrency .. => 422
  | insufficientFunds .. => 422
  | duplicateSubmission .. => 409
  | idempotencyKeyRequired => 400
  | malformedIdempotencyKey => 422
  | currencyMismatch .. => 422
  | sameAccountTransfer .. => 422
  | writeConflict .. => 409

def message : LedgerlockError → String
  | forbidden .. => "You do not own the source account."
  | accountNotFound none _ => "Account not found."
  | accountNotFound (some .source) _ => "Source account not found."
  | accountNotFound (some .destination) _ => "Destination account not found."
  | accountNotActive side _ status =>
      "The " ++ side.name ++ " account has status " ++ status.value ++
        " and cannot take part in a transaction."
  | unsupportedCurrency currency =>
      "No ledger boundary account exists for '" ++ currency ++ "'."
  | insufficientFunds .. => "Source account has insufficient funds for this transfer."
  | duplicateSubmission .. =>
      "This Idempotency-Key has already been used. The original " ++
        "transaction was not applied a second time."
  | idempotencyKeyRequired =>
      "An Idempotency-Key header is required to create a transaction."
  | malformedIdempotencyKey =>
      "Idempotency-Key must be 8-128 characters using only letters, " ++
        "digits, and the characters _ . : -"
  | currencyMismatch .. =>
      "Source and destination accounts hold different currencies. " ++
        "Cross-currency conversion is out of scope (see PRD.md)."
  | sameAccountTransfer .. => "Source and destination accounts must be different."
  | writeConflict .. =>
      "The ledger was concurrently modified and this write could not be " ++
        "serialised after retrying. Retry with the same Idempotency-Key."

end LedgerlockError

/-- Everything that can leave a service function: a deliberate rejection, or an
exception of the language or its libraries. -/
inductive Raised
  | ledgerlock (e : LedgerlockError)
  | python (e : PyError)
  deriving Repr, DecidableEq

/-- The class of an exception, without the data it carries. -/
inductive ErrorClass
  | ledgerlock (code : ErrorCode)
  | validationError | valueError | overflowError | assertionError | operationFailure
  deriving Repr, DecidableEq

def PyError.errorClass : PyError → ErrorClass
  | validationError _ => .validationError
  | valueError _ => .valueError
  | overflowError => .overflowError
  | assertionError => .assertionError
  | operationFailure => .operationFailure

def Raised.errorClass : Raised → ErrorClass
  | ledgerlock e => .ledgerlock e.code
  | python e => e.errorClass

/-- Let an exception of a model constructor leave a service function. -/
def liftPy {α : Type} : Except PyError α → Except Raised α
  | .ok a => .ok a
  | .error e => .error (.python e)

@[simp] theorem liftPy_eq_ok {α : Type} {x : Except PyError α} {a : α} :
    liftPy x = .ok a ↔ x = .ok a := by
  cases x <;> simp [liftPy]

section Except

variable {ε ε' α β : Type}

/-- A computation that returns has come through each of its parts. -/
theorem bind_eq_ok {x : Except ε α} {f : α → Except ε β} {b : β} :
    x >>= f = .ok b ↔ ∃ a, x = .ok a ∧ f a = .ok b := by
  cases x <;> simp [bind, Except.bind]

theorem mapError_eq_ok {x : Except ε α} {f : ε → ε'} {a : α} :
    x.mapError f = .ok a ↔ x = .ok a := by
  cases x <;> simp [Except.mapError]

end Except

end Ledgerlock
