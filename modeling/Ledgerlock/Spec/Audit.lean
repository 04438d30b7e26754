import Ledgerlock.Spec.DoubleEntry
import Ledgerlock.Spec.Report
import Mathlib.Algebra.Group.Action.Defs

/-!
# Ledgerlock.Spec.Audit

Reconciliation against the ledger it audits. A ledger written by transfers is
always healthy, at every snapshot of every run (`noFalseAlarm`). The converse
questions are about databases that were changed from outside: what a healthy
report proves of such a database, and which changes of one entry it lets pass.
-/

namespace Ledgerlock

open Mvcc

/-! ### No false alarm -/

/-- Entries that come in blocks worth nothing are worth nothing. -/
theorem signedSum_filter_eq_zero {journal : List Posting} {q : LedgerEntry → Bool}
    (h : ∀ p : Posting, signedSum (p.entries.filter q) = 0) :
    signedSum ((journal.flatMap Posting.entries).filter q) = 0 := by
  induction journal with
  | nil => rfl
  | cons p journal ih =>
      have hp := h p
      rw [List.flatMap_cons, List.filter_append]
      simp only [signedSum, List.map_append, List.sum_append] at ih hp ⊢
      rw [hp, ih, add_zero]

/-- Both sides of a posting have its currency. -/
theorem Posting.signedSum_currency (p : Posting) (currency : String) :
    signedSum (p.entries.filter fun e => e.currency = currency) = 0 := by
  by_cases h : p.args.currency = currency <;>
    simp [signedSum, Posting.entries, Posting.debit, Posting.credit, Stamp.debit, Stamp.credit, h]

/-- The pair of a posting is a clean pair. -/
theorem Posting.isPair (p : Posting) : IsPair p.entries := by
  constructor <;>
    simp [signedSum, Posting.entries, Posting.debit, Posting.credit, Stamp.debit, Stamp.credit]

/-- An entry of a ledger is a side of the posting it belongs to. -/
theorem Represents.posting_of_mem {d : Database} {journal : List Posting}
    (hd : Represents d journal) {e : LedgerEntry} (he : e ∈ d.ledgerEntries) :
    ∃ p ∈ journal, (e = p.debit ∨ e = p.credit) ∧
      e.transactionId = p.stamp.transactionId ∧
      d.entriesIn e.transactionId = p.entries := by
  rw [hd.entries] at he
  obtain ⟨p, hp, he⟩ := List.mem_flatMap.mp he
  have hside : e = p.debit ∨ e = p.credit := by simpa [Posting.entries] using he
  have hid : e.transactionId = p.stamp.transactionId := by
    rcases hside with rfl | rfl <;> rfl
  refine ⟨p, hp, hside, hid, ?_⟩
  rw [Database.entriesIn, hid]
  exact hd.entries_of hp

/-- A ledger written by transfers is healthy. -/
theorem Represents.healthy {d : Database} {journal : List Posting}
    (hd : Represents d journal) : Healthy d where
  net := by
    have hall : d.ledgerEntries.filter (fun _ => true) = d.ledgerEntries := by simp
    rw [← hall, hd.entries]
    exact signedSum_filter_eq_zero fun p => by simpa using p.isPair.net
  perCurrency := by
    intro currency
    rw [hd.entries]
    exact signedSum_filter_eq_zero fun p => p.signedSum_currency currency
  noOrphan := by
    intro e he
    obtain ⟨p, hp, -, hid, -⟩ := hd.posting_of_mem he
    exact ⟨p.header, hd.transactions ▸ List.mem_map_of_mem hp, hid.symm⟩
  paired := by
    intro e he
    obtain ⟨p, -, -, -, hentries⟩ := hd.posting_of_mem he
    rw [hentries]
    exact p.isPair
  solvent := by
    intro a ha huser
    exact hd.solvent a.id a.holder
      ((Database.holder_iff hd.keys).mpr ⟨a, ha, rfl, rfl⟩) huser

/-- Two entries for each transaction. -/
theorem Represents.length_entries {d : Database} {journal : List Posting}
    (hd : Represents d journal) : d.ledgerEntries.length = 2 * d.transactions.length := by
  rw [hd.entries, hd.transactions, List.length_map]
  clear hd
  induction journal with
  | nil => rfl
  | cons p journal ih =>
      rw [List.flatMap_cons, List.length_append, ih, List.length_cons]
      show 2 + 2 * journal.length = 2 * (journal.length + 1)
      omega

section Reports

variable {ν : Type} [DecidableEq ν] [ServerSum]

/-- A report is the report on a committed state of the run. -/
theorem report_of_ends {D : Deployment ν} {st : LedgerState ν} (h : Reachable D.system st)
    {i : ν} {r : ReconciliationReport} (hend : D.Ends st i (.ok (.report r))) :
    ∃ n checkedAt, r = (replay D.opening (st.log.take n)).report checkedAt := by
  obtain ⟨attempts, hphase⟩ := Deployment.ends_ok.mp hend
  cases (h.accounted i).returned attempts _ hphase with
  | committed _ _ _ _ hprog =>
      have hdone := hprog.wp_done ((D.calls i).body_wp _ attempts)
      cases hcall : D.calls i with
      | createTransfer args =>
          rw [hcall] at hdone
          obtain ⟨_, hreply, -⟩ := hdone
          cases hreply
      | reconcile =>
          rw [hcall] at hdone
          obtain ⟨-, -, t, hreply⟩ := hdone
          obtain rfl := Reply.report.inj hreply
          exact ⟨_, t, rfl⟩

/-- Every report that a reconciliation returns, in every run with transfers,
reconciliations and accounts being opened, finds nothing wrong. -/
theorem noFalseAlarm (D : Deployment ν) {st : LedgerState ν} (h : Reachable D.system st)
    {i : ν} {r : ReconciliationReport} (hend : D.Ends st i (.ok (.report r))) :
    r.balanced = true ∧ r.healthy = true ∧ r.netSignedMinor = 0 ∧
      (∀ row ∈ r.perCurrencyNetMinor, row.2 = 0) ∧ r.entriesWithoutTransaction = 0 ∧
      r.unbalancedTransactionGroups = 0 ∧ r.negativeUserAccounts = [] ∧
      r.totalEntries = 2 * r.totalTransactions := by
  obtain ⟨n, checkedAt, rfl⟩ := report_of_ends h hend
  obtain ⟨journal, hjournal⟩ := D.history_represents (h.history.take n)
  have hhealthy := hjournal.healthy
  have hnet := netOf_eq_zero.mpr hhealthy.net
  have hcurrency := netPerCurrency_all_zero.mpr hhealthy.perCurrency
  refine ⟨?_, (healthy_iff checkedAt).mpr hhealthy, ?_, hcurrency,
    countEntriesWithoutTransaction_eq_zero.mpr hhealthy.noOrphan,
    countUnbalancedTransactionGroups_eq_zero.mpr hhealthy.paired,
    findNegativeUserAccounts_eq_nil.mpr hhealthy.solvent, ?_⟩
  · simpa [Database.report, assembleReport, netAndCount_eq, hnet] using hcurrency
  · simpa [Database.report, assembleReport, netAndCount_eq] using hnet
  · simpa [Database.report, assembleReport, netAndCount_eq] using hjournal.length_entries

end Reports

section Example

open scoped Example

/-- The report of the example finds nothing wrong. -/
theorem noFalseAlarm_reported : ∃ st r, Reachable Example.audited.system st ∧
    Example.audited.Ends st 1 (.ok (.report r)) ∧ r.totalTransactions = 1 ∧
    r.healthy = true ∧ r.totalEntries = 2 := by
  obtain ⟨st, r, hst, hend, hone⟩ := Example.reported
  obtain ⟨-, hhealthy, -, -, -, -, -, htotal⟩ := noFalseAlarm _ hst hend
  exact ⟨st, r, hst, hend, hone, hhealthy, by rw [htotal, hone]⟩

end Example

/-! ### What a healthy report proves -/

/-- The documents satisfy the validators and the unique indexes. -/
structure Valid (d : Database) : Prop where
  keys : d.keys.Nodup
  transactions : ∀ t ∈ d.transactions, transactionValidator t = true
  ledgerEntries : ∀ e ∈ d.ledgerEntries, ledgerEntryValidator e = true

/-- The transaction has one debit and one credit. -/
def HasPair (d : Database) (t : Transaction) : Prop :=
  (d.entriesIn t.id).countP (fun e => e.direction = .debit) = 1 ∧
    (d.entriesIn t.id).countP (fun e => e.direction = .credit) = 1

/-- The checks group entries, so a healthy report speaks for the transactions
that have any: every transaction has its pair, and the totals agree, exactly if
every transaction has at least one entry. -/
theorem healthy_complete_iff [ServerSum] {d : Database} (hd : Valid d) {ws : List DbWrite}
    {ids : List ObjectId} {r : ReconciliationReport}
    (hrun : Progress d gatherReport ws ids (.done r)) (hhealthy : r.healthy = true) :
    ((∀ t ∈ d.transactions, HasPair d t) ∧ r.totalEntries = 2 * r.totalTransactions) ↔
      ∀ t ∈ d.transactions, ∃ e ∈ d.ledgerEntries, e.transactionId = t.id := by
  obtain ⟨checkedAt, rfl⟩ := report_of_progress hrun
  have hstate := (healthy_iff checkedAt).mp hhealthy
  constructor
  · intro hposted t ht
    obtain ⟨hpairs, -⟩ := hposted
    obtain ⟨e, he, -⟩ :=
      List.countP_pos_iff.mp (Nat.lt_of_lt_of_eq Nat.one_pos (hpairs t ht).1.symm)
    exact ⟨e, by simpa [Database.entriesIn] using he⟩
  · intro hsome
    have hpair : ∀ t ∈ d.transactions, IsPair (d.entriesIn t.id) := by
      intro t ht
      obtain ⟨e, he, hid⟩ := hsome t ht
      exact hid ▸ hstate.paired e he
    refine ⟨fun t ht => ⟨(hpair t ht).debit, (hpair t ht).credit⟩, ?_⟩
    show (netAndCount d).2 = 2 * d.transactions.length
    have hkeys : ∀ e ∈ d.ledgerEntries, e.transactionId ∈ d.transactions.map (·.id) := by
      intro e he
      obtain ⟨t, ht, hid⟩ := hstate.noOrphan e he
      exact List.mem_map.mpr ⟨t, ht, hid⟩
    have htwo : ∀ n ∈ (d.transactions.map (·.id)).map fun id => (d.entriesIn id).length, n = 2 := by
      intro n hn
      obtain ⟨id, hid, rfl⟩ := List.mem_map.mp hn
      obtain ⟨t, ht, rfl⟩ := List.mem_map.mp hid
      exact (hpair t ht).length
    calc (netAndCount d).2 = d.ledgerEntries.length := by rw [netAndCount_eq]
      _ = ((d.transactions.map (·.id)).map fun id => (d.entriesIn id).length).sum :=
          Pipeline.length_eq_sum_groups (Database.transaction_ids_nodup hd.keys) hkeys
      _ = 2 * d.transactions.length := by
          rw [List.sum_eq_card_nsmul _ 2 htwo, List.length_map, List.length_map, smul_eq_mul,
            Nat.mul_comm]

section Example

open scoped Example

/-- The example's first transaction, with nothing written for it. -/
def Example.bareDb (x : Stamp) : Database where
  accounts := Example.deployment.accounts
  transactions := [x.header Example.funding]
  ledgerEntries := []

def Example.stamp : Stamp := ⟨3, 4, 5, 0, 0, 0⟩

theorem Example.bareDb_valid : Valid (Example.bareDb Example.stamp) where
  keys := by decide
  transactions := by decide
  ledgerEntries := by decide

theorem Example.fundedDb_valid : Valid (Example.fundedDb Example.stamp) where
  keys := by decide
  transactions := by decide
  ledgerEntries := by decide

/-- A transaction document that lost both entries leaves no group to look at, and
the report is healthy. -/
theorem healthy_incomplete : ¬ ∀ (d : Database) (ws : List DbWrite) (ids : List ObjectId)
    (r : ReconciliationReport), Valid d → Progress d gatherReport ws ids (.done r) →
    r.healthy = true →
    (∀ t ∈ d.transactions, HasPair d t) ∧ r.totalEntries = 2 * r.totalTransactions := by
  intro h
  obtain ⟨checkedAt, hrun⟩ := gatherReport_runs (Example.bareDb Example.stamp)
  have hhealthy : ((Example.bareDb Example.stamp).report checkedAt).healthy = true := by rfl
  obtain ⟨-, htotal⟩ := h _ _ _ _ Example.bareDb_valid hrun hhealthy
  exact absurd htotal (by show ¬ 0 = 2 * 1; decide)

/-- The funded database of the example has a healthy report and is complete. -/
theorem healthy_complete_funded : ∃ r, Progress (Example.fundedDb Example.stamp) gatherReport
    [] [] (.done r) ∧ r.healthy = true ∧
    (∀ t ∈ (Example.fundedDb Example.stamp).transactions,
      HasPair (Example.fundedDb Example.stamp) t) ∧
    r.totalEntries = 2 * r.totalTransactions := by
  obtain ⟨checkedAt, hrun⟩ := gatherReport_runs (Example.fundedDb Example.stamp)
  have hhealthy : ((Example.fundedDb Example.stamp).report checkedAt).healthy = true := by rfl
  exact ⟨_, hrun, hhealthy,
    (healthy_complete_iff Example.fundedDb_valid hrun hhealthy).mpr (by decide)⟩

end Example

end Ledgerlock
