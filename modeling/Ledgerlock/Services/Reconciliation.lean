import Ledgerlock.Pipeline.Group
import Ledgerlock.Services.Ledger

/-!
# Ledgerlock.Services.Reconciliation

`reconciliation.py`. Each aggregation is a function of the database, stage by
stage; `gatherReport` runs them in order inside one read-only transaction, so
that all of them read the same snapshot.
-/

namespace Ledgerlock

open Mvcc (Tx)

/-- `ReconciliationReport` -/
structure ReconciliationReport where
  balanced : Bool
  healthy : Bool
  netSignedMinor : Int
  totalEntries : Nat
  totalTransactions : Nat
  entriesWithoutTransaction : Nat
  unbalancedTransactionGroups : Nat
  negativeUserAccounts : List ObjectId
  perCurrencyNetMinor : List (String × Int)
  checkedAt : Timestamp
  deriving Repr, DecidableEq

/-- `{"$sum": "$signed_amount_minor"}` over the rows of a group. -/
def netOf [ServerSum] (entries : List LedgerEntry) : Int :=
  ServerSum.sum (entries.map (·.signedAmountMinor))

/-- `_net_and_count`: one group of everything, or none if there is no entry. -/
def netAndCount [ServerSum] (d : Database) : Int × Nat :=
  match (Pipeline.group (fun _ => ()) d.ledgerEntries).head? with
  | none => (0, 0)
  | some row => (netOf row.2, row.2.length)

/-- `_net_per_currency` -/
def netPerCurrency [ServerSum] (d : Database) : List (String × Int) :=
  (Pipeline.group (·.currency) d.ledgerEntries).map fun row => (row.1, netOf row.2)

/-- `_count_entries_without_transaction` -/
def countEntriesWithoutTransaction (d : Database) : Nat :=
  (d.ledgerEntries.filter fun e =>
    (d.transactions.filter fun t => t.id = e.transactionId).length = 0).length

/-- The `$match` of `_count_unbalanced_transaction_groups`. -/
def isUnbalancedGroup [ServerSum] (entries : List LedgerEntry) : Bool :=
  decide (entries.length ≠ 2)
    || decide (entries.countP (fun e => e.direction = .debit) ≠ 1)
    || decide (entries.countP (fun e => e.direction = .credit) ≠ 1)
    || decide (netOf entries ≠ 0)

/-- `_count_unbalanced_transaction_groups` -/
def countUnbalancedTransactionGroups [ServerSum] (d : Database) : Nat :=
  ((Pipeline.group (·.transactionId) d.ledgerEntries).filter fun row =>
    isUnbalancedGroup row.2).length

/-- `_find_negative_user_accounts`: the `$lookup` and `$unwind` make one row for
each account document with the group's id. -/
def findNegativeUserAccounts [ServerSum] (d : Database) : List ObjectId :=
  let rows := (Pipeline.group (·.accountId) d.ledgerEntries).filter fun row => netOf row.2 < 0
  rows.flatMap fun row =>
    ((d.accounts.filter fun a => a.id = row.1).filter fun a => a.accountType = .user).map
      fun _ => row.1

/-- The report made of what the aggregations returned. -/
def assembleReport (net : Int × Nat) (perCurrency : List (String × Int))
    (entriesWithoutTransaction unbalancedGroups : Nat) (negativeUserAccounts : List ObjectId)
    (totalTransactions : Nat) (checkedAt : Timestamp) : ReconciliationReport :=
  let balanced := net.1 = 0 && perCurrency.all fun row => row.2 = 0
  { balanced
    healthy := balanced && entriesWithoutTransaction = 0 && unbalancedGroups = 0
      && negativeUserAccounts.isEmpty
    netSignedMinor := net.1
    totalEntries := net.2
    totalTransactions
    entriesWithoutTransaction
    unbalancedTransactionGroups := unbalancedGroups
    negativeUserAccounts
    perCurrencyNetMinor := perCurrency
    checkedAt }

/-- `_gather_report`, inside the transaction `reconcile` opens. -/
def gatherReport [ServerSum] : LedgerTx ReconciliationReport := do
  let net ← Tx.query netAndCount
  let perCurrency ← Tx.query netPerCurrency
  let entriesWithoutTransaction ← Tx.query countEntriesWithoutTransaction
  let unbalancedGroups ← Tx.query countUnbalancedTransactionGroups
  let negativeUserAccounts ← Tx.query findNegativeUserAccounts
  let totalTransactions ← Tx.query fun d => d.transactions.length
  let checkedAt ← Tx.now pure
  pure (assembleReport net perCurrency entriesWithoutTransaction unbalancedGroups
    negativeUserAccounts totalTransactions checkedAt)

/-- The report on one database state. -/
def Database.report [ServerSum] (d : Database) (checkedAt : Timestamp) : ReconciliationReport :=
  assembleReport (netAndCount d) (netPerCurrency d) (countEntriesWithoutTransaction d)
    (countUnbalancedTransactionGroups d) (findNegativeUserAccounts d) d.transactions.length
    checkedAt

/-- All reads of `_gather_report` see the snapshot. -/
theorem gatherReport_wp [ServerSum] (d : Database)
    {P : Mvcc.Post DbWrite ObjectId Raised ReconciliationReport}
    (h : ∀ checkedAt, P.done (d.report checkedAt) [] []) : gatherReport.wp d P [] [] := by
  intro checkedAt
  exact h checkedAt

end Ledgerlock
