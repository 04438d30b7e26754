import Ledgerlock.Services.Account
import Ledgerlock.Services.Reconciliation

/-!
# Ledgerlock.Deployment

The whole ledger as a system: the service calls that open a transaction, run by
any number of clients against one database, with accounts being opened,
provisioned and updated around them.
-/

namespace Ledgerlock

open Mvcc (Call Failure System State)

/-- The service calls that open a transaction. -/
inductive LedgerCall
  | createTransfer (args : TransferArgs)
  | reconcile
  deriving Repr, DecidableEq

/-- What they return. -/
inductive Reply
  | written (result : LedgerWriteResult)
  | report (report : ReconciliationReport)
  deriving Repr, DecidableEq

/-- `with_transaction` re-runs its callback; the transaction `reconcile` opens
by hand is run once. -/
def LedgerCall.toCall [ServerSum] :
    LedgerCall → Call Database DbWrite ObjectId Raised Reply
  | createTransfer args =>
      { admission := createTransferAdmission args
        retries := true
        body := fun attempts => do
          let result ← applyTransfer attempts args
          pure (.written result) }
  | reconcile =>
      { admission := none
        retries := false
        body := fun _ => do
          let report ← gatherReport
          pure (.report report) }

/-- The exception a failed call ends in. Nothing catches the failures of
`reconcile`. -/
def LedgerCall.raises : LedgerCall → Nat → Failure Raised → Raised
  | createTransfer args, attempts, failure => createTransferRaises args attempts failure
  | reconcile, _, .raised e => e
  | reconcile, _, _ => .python .operationFailure

/-- What a call returns or raises. -/
def LedgerCall.answer (call : LedgerCall) (attempts : Nat) :
    Except (Failure Raised) Reply → Except Raised Reply
  | .ok reply => .ok reply
  | .error failure => .error (call.raises attempts failure)

/-- A configuration of the running ledger, its calls named by `ν`. -/
abbrev LedgerState (ν : Type) := State ν Database DbWrite ObjectId Raised Reply

/-- A deployment: the accounts there are before any transfer, the calls made,
and what may happen around them. -/
structure Deployment (ν : Type) where
  accounts : List Account
  accounts_keys : (accounts.flatMap Account.keys).Nodup
  calls : ν → LedgerCall
  /-- The writes made outside any transaction. -/
  operator : LedgerState ν → DbWrite → Prop
  operator_accounts : ∀ st w, operator st w → AccountWrite w
  lossy : Prop
  faulty : Prop

namespace Deployment

variable {ν : Type}

/-- Before any transfer. -/
def opening (D : Deployment ν) : Database where
  accounts := D.accounts
  transactions := []
  ledgerEntries := []

theorem opening_keys (D : Deployment ν) : D.opening.keys.Nodup := by
  simpa [opening, Database.keys] using D.accounts_keys

def system [ServerSum] (D : Deployment ν) :
    System ν Database DbWrite ObjectId Raised Reply where
  initial := D.opening
  issued := {x | ∃ a ∈ D.accounts, a.id = x}
  call i := (D.calls i).toCall
  direct := D.operator
  lossy := D.lossy
  faulty := D.faulty

/-- The same deployment with other calls, and nothing happening around them. -/
def withCalls (D : Deployment ν) (calls : ν → LedgerCall) : Deployment ν where
  accounts := D.accounts
  accounts_keys := D.accounts_keys
  calls := calls
  operator := fun _ _ => False
  operator_accounts := fun _ _ h => h.elim
  lossy := False
  faulty := False

/-- The committed database. -/
def db [ServerSum] [DecidableEq ν] (D : Deployment ν) (st : LedgerState ν) : Database :=
  st.db D.system

/-- Call `i` has ended with `r`. -/
def Ends (D : Deployment ν) (st : LedgerState ν) (i : ν) (r : Except Raised Reply) : Prop :=
  ∃ attempts outcome, st.phase i = .returned attempts outcome ∧
    (D.calls i).answer attempts outcome = r

theorem ends_ok {D : Deployment ν} {st : LedgerState ν} {i : ν} {reply : Reply} :
    D.Ends st i (.ok reply) ↔ ∃ attempts, st.phase i = .returned attempts (.ok reply) := by
  constructor
  · intro hends
    obtain ⟨attempts, outcome, hphase, hanswer⟩ := hends
    cases outcome with
    | ok r =>
        obtain rfl := Except.ok.inj hanswer
        exact ⟨attempts, hphase⟩
    | error f => cases hanswer
  · intro hends
    obtain ⟨attempts, hphase⟩ := hends
    exact ⟨attempts, _, hphase, rfl⟩

theorem ends_error {D : Deployment ν} {st : LedgerState ν} {i : ν} {e : Raised} :
    D.Ends st i (.error e) ↔ ∃ attempts failure,
      st.phase i = .returned attempts (.error failure) ∧
        (D.calls i).raises attempts failure = e := by
  constructor
  · intro hends
    obtain ⟨attempts, outcome, hphase, hanswer⟩ := hends
    cases outcome with
    | ok r => cases hanswer
    | error f => exact ⟨attempts, f, hphase, Except.error.inj hanswer⟩
  · intro hends
    obtain ⟨attempts, failure, hphase, rfl⟩ := hends
    exact ⟨attempts, _, hphase, rfl⟩

end Deployment

end Ledgerlock
