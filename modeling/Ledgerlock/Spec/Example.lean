import Ledgerlock.Spec.Outcome

/-!
# Ledgerlock.Spec.Example

A small deployment to look at: the SYSTEM account of one currency, two users, a
funding and a payment that is submitted again and again under one key, on a
server whose sums are exact. `Example.paid` is a run of it in which the funding
and one payment are written.
-/

namespace Ledgerlock

namespace Example

open Mvcc

scoped instance : ServerSum := .exact

def boundary : Account where
  id := 0
  ownerId := none
  currency := "USD"
  status := .active
  accountType := .system
  label := systemAccountLabel "USD"
  createdAt := 0
  updatedAt := 0
  debitSerialisationCounter := none

def alice : Account where
  id := 1
  ownerId := some 11
  currency := "USD"
  status := .active
  accountType := .user
  label := "Everyday spending"
  createdAt := 0
  updatedAt := 0
  debitSerialisationCounter := none

def bob : Account := { alice with id := 2, ownerId := some 12 }

/-- 100 minor units for Alice. -/
def funding : TransferArgs where
  idempotencyKey := "funding-0001"
  sourceAccountId := 0
  destinationAccountId := 1
  amountMinor := 100
  currency := "USD"
  description := ""
  kind := .funding
  submittedBy := some 11

/-- 30 of them for Bob. -/
def payment : TransferArgs where
  idempotencyKey := "payment-0001"
  sourceAccountId := 1
  destinationAccountId := 2
  amountMinor := 30
  currency := "USD"
  description := ""
  kind := .transfer
  submittedBy := some 11

/-- Call 0 is the funding, every other call the payment. -/
def deployment : Deployment Nat where
  accounts := [boundary, alice, bob]
  accounts_keys := by decide
  calls
    | 0 => .createTransfer funding
    | _ + 1 => .createTransfer payment
  operator := fun _ _ => False
  operator_accounts := fun _ _ h => h.elim
  lossy := False
  faulty := False

/-- The database once the funding is written. -/
def fundedDb (x : Stamp) : Database :=
  view deployment.opening (transferWrites boundary funding x)

/-- The database once the payment is written too. -/
def paidDb (x y : Stamp) : Database := view (fundedDb x) (transferWrites alice payment y)

theorem funding_accepted : judge deployment.opening funding = .ok boundary := by decide

theorem payment_accepted (x : Stamp) : judge (fundedDb x) payment = .ok alice := by
  rfl

/-- The funding is written. -/
theorem funded (calls : Nat → LedgerCall) (hcall : calls 0 = .createTransfer funding) :
    ∃ st x, Reachable (deployment.withCalls calls).system st ∧
      (deployment.withCalls calls).db st = fundedDb x ∧
      (∃ n r, st.phase 0 = .returned n r) ∧ ∀ i, i ≠ 0 → st.phase i = .idle := by
  obtain ⟨st, x, hst, hdb, ⟨n, hreturned⟩, hrest, -⟩ :=
    (deployment.withCalls calls).exists_written
      (.refl (deployment.withCalls calls).system.start) (i := 0) rfl
      (fun _ _ _ _ h => by cases h) hcall (by decide) funding_accepted
  exact ⟨st, x, hst, hdb, ⟨n, _, hreturned⟩, fun i hi => hrest i hi⟩

theorem quietBut_of_funded {st : LedgerState Nat} (h₀ : ∃ n r, st.phase 0 = .returned n r)
    (h : ∀ i, i ≠ 0 → st.phase i = .idle) (j : Nat) : st.QuietBut j := by
  intro i _ n a hi
  by_cases hzero : i = 0
  · obtain ⟨n', r, hreturned⟩ := h₀
    rw [hzero, hreturned] at hi
    cases hi
  · rw [h i hzero] at hi
    cases hi

/-- The funding is written, and then the payment. -/
theorem paid : ∃ st x y, Reachable deployment.system st ∧ deployment.db st = paidDb x y ∧
    (∃ n, st.phase 1 = .returned n
      (.ok (.written ⟨y.header payment, y.debitEntryId, y.creditEntryId, 1⟩))) ∧
    ∀ i, i ≠ 0 → i ≠ 1 → st.phase i = .idle := by
  obtain ⟨st, x, hst, hdb, h₀, hidle⟩ := funded deployment.calls rfl
  have hjudge : judge (deployment.db st) payment = .ok alice := by
    have hdb : deployment.db st = fundedDb x := hdb
    rw [hdb]
    exact payment_accepted x
  obtain ⟨st', y, hst', hdb', hsecond, hrest, -⟩ :=
    deployment.exists_written hst (hidle 1 (by decide)) (quietBut_of_funded h₀ hidle 1) rfl
      (by decide) hjudge
  refine ⟨st', x, y, Steps.trans hst hst', ?_, hsecond, fun i hi₀ hi₁ => ?_⟩
  · have hdb : deployment.db st = fundedDb x := hdb
    rw [hdb', hdb]
    rfl
  · rw [hrest i hi₁, hidle i hi₀]

/-- Call 0 is the funding, every other call a reconciliation. -/
def auditedCalls : Nat → LedgerCall
  | 0 => .createTransfer funding
  | _ + 1 => .reconcile

def audited : Deployment Nat := deployment.withCalls auditedCalls

/-- The funding is written, and then reported on. -/
theorem reported : ∃ st r, Reachable audited.system st ∧ audited.Ends st 1 (.ok (.report r)) ∧
    r.totalTransactions = 1 := by
  obtain ⟨st, x, hst, hdb, h₀, hidle⟩ := funded auditedCalls rfl
  obtain ⟨st', t, hst', -, hend⟩ := Deployment.exists_report hst (hidle 1 (by decide))
    (quietBut_of_funded h₀ hidle 1) rfl
  refine ⟨st', _, hst', hend, ?_⟩
  rw [hdb]
  rfl

end Example

end Ledgerlock
