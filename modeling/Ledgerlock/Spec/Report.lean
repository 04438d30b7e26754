import Ledgerlock.Services.Reconciliation
import Ledgerlock.Mvcc.Serial
import Ledgerlock.Spec.Indexes

/-!
# Ledgerlock.Spec.Report

What the aggregations of a reconciliation say about a database, in terms of its
documents and of exact sums. `Healthy` is the meaning of the field to assert on;
everything downstream argues about it and not about the pipelines.
-/

namespace Ledgerlock

/-- The signed sum of some entries. -/
def signedSum (entries : List LedgerEntry) : Int := (entries.map (·.signedAmountMinor)).sum

/-- The entries of one transaction. -/
def Database.entriesIn (d : Database) (transactionId : ObjectId) : List LedgerEntry :=
  d.ledgerEntries.filter fun e => e.transactionId = transactionId

/-- A clean debit/credit pair. -/
structure IsPair (entries : List LedgerEntry) : Prop where
  length : entries.length = 2
  debit : entries.countP (fun e => e.direction = .debit) = 1
  credit : entries.countP (fun e => e.direction = .credit) = 1
  net : signedSum entries = 0

/-- What a healthy report says. -/
structure Healthy (d : Database) : Prop where
  net : signedSum d.ledgerEntries = 0
  perCurrency : ∀ currency,
    signedSum (d.ledgerEntries.filter fun e => e.currency = currency) = 0
  noOrphan : ∀ e ∈ d.ledgerEntries, ∃ t ∈ d.transactions, t.id = e.transactionId
  paired : ∀ e ∈ d.ledgerEntries, IsPair (d.entriesIn e.transactionId)
  solvent : ∀ a ∈ d.accounts, a.accountType = .user → 0 ≤ d.balance a.id

theorem countEntriesWithoutTransaction_eq_zero {d : Database} :
    countEntriesWithoutTransaction d = 0 ↔
    ∀ e ∈ d.ledgerEntries, ∃ t ∈ d.transactions, t.id = e.transactionId := by
  simp [countEntriesWithoutTransaction, List.length_eq_zero_iff, List.filter_eq_nil_iff]

section Pipelines

variable [ServerSum] {d : Database}

theorem netOf_eq_zero {entries : List LedgerEntry} : netOf entries = 0 ↔ signedSum entries = 0 :=
  ServerSum.sum_eq_zero_iff

theorem netOf_neg {entries : List LedgerEntry} : netOf entries < 0 ↔ signedSum entries < 0 :=
  ServerSum.sum_neg_iff

theorem netAndCount_eq : netAndCount d = (netOf d.ledgerEntries, d.ledgerEntries.length) := by
  unfold netAndCount Pipeline.group
  cases h : d.ledgerEntries with
  | nil => simp [netOf]
  | cons e rest =>
      have hone : ((e :: rest).map fun _ => ()).dedup = [()] := by
        rw [List.map_const']
        exact List.replicate_dedup (Nat.succ_ne_zero _)
      rw [hone]
      simp

theorem netPerCurrency_all_zero :
    (∀ row ∈ netPerCurrency d, row.2 = 0) ↔
      ∀ currency, signedSum (d.ledgerEntries.filter fun e => e.currency = currency) = 0 := by
  constructor
  · intro h currency
    by_cases hc : ∃ e ∈ d.ledgerEntries, e.currency = currency
    · obtain ⟨e, he, rfl⟩ := hc
      have hrow := h _ (List.mem_map_of_mem (Pipeline.group_of_mem (·.currency) he))
      exact netOf_eq_zero.mp hrow
    · have : (d.ledgerEntries.filter fun e => e.currency = currency) = [] := by
        simpa [List.filter_eq_nil_iff] using hc
      rw [this]
      rfl
  · intro h row hrow
    obtain ⟨g, hg, rfl⟩ := List.mem_map.mp hrow
    rw [(Pipeline.mem_group.mp hg).2]
    exact netOf_eq_zero.mpr (h g.1)

theorem isUnbalancedGroup_eq_false {entries : List LedgerEntry} :
    isUnbalancedGroup entries = false ↔ IsPair entries := by
  simp only [isUnbalancedGroup, Bool.or_eq_false_iff, decide_eq_false_iff_not, not_not,
    netOf_eq_zero]
  exact ⟨fun ⟨⟨⟨h₁, h₂⟩, h₃⟩, h₄⟩ => ⟨h₁, h₂, h₃, h₄⟩, fun ⟨h₁, h₂, h₃, h₄⟩ => ⟨⟨⟨h₁, h₂⟩, h₃⟩, h₄⟩⟩

theorem countUnbalancedTransactionGroups_eq_zero : countUnbalancedTransactionGroups d = 0 ↔
    ∀ e ∈ d.ledgerEntries, IsPair (d.entriesIn e.transactionId) := by
  simp only [countUnbalancedTransactionGroups, List.length_eq_zero_iff, List.filter_eq_nil_iff,
    Bool.not_eq_true, isUnbalancedGroup_eq_false]
  constructor
  · exact fun h e he => h _ (Pipeline.group_of_mem (·.transactionId) he)
  · intro h g hg
    obtain ⟨⟨e, he, hid⟩, hrows⟩ := Pipeline.mem_group.mp hg
    rw [hrows, ← hid]
    exact h e he

theorem findNegativeUserAccounts_eq_nil : findNegativeUserAccounts d = [] ↔
    ∀ a ∈ d.accounts, a.accountType = .user → 0 ≤ d.balance a.id := by
  simp only [findNegativeUserAccounts, List.flatMap_eq_nil_iff, List.mem_filter,
    List.map_eq_nil_iff, List.filter_eq_nil_iff, decide_eq_true_eq, and_imp]
  constructor
  · intro h a ha huser
    by_contra hneg
    have hnet : netOf (d.entriesOf a.id) < 0 := netOf_neg.mpr (not_le.mp hneg)
    have hne : d.entriesOf a.id ≠ [] := by
      intro hnil
      simp [hnil, netOf] at hnet
    obtain ⟨e, he⟩ := List.exists_mem_of_ne_nil _ hne
    obtain ⟨he, hid⟩ : e ∈ d.ledgerEntries ∧ e.accountId = a.id := by
      simpa [Database.entriesOf] using he
    have hgroup := Pipeline.group_of_mem (·.accountId) he
    rw [hid] at hgroup
    exact h _ hgroup hnet a ha rfl huser
  · intro h g hg hnet a ha hid huser
    have := h a ha huser
    rw [(Pipeline.mem_group.mp hg).2, netOf_neg, ← hid] at hnet
    exact absurd this (not_le.mpr hnet)

/-- What `healthy` means. -/
theorem healthy_iff (checkedAt : Timestamp) :
    (d.report checkedAt).healthy = true ↔ Healthy d := by
  simp only [Database.report, assembleReport, Bool.and_eq_true, decide_eq_true_eq,
    List.all_eq_true, List.isEmpty_iff, netAndCount_eq, netOf_eq_zero, netPerCurrency_all_zero,
    countEntriesWithoutTransaction_eq_zero, countUnbalancedTransactionGroups_eq_zero,
    findNegativeUserAccounts_eq_nil]
  exact ⟨fun ⟨⟨⟨⟨h₁, h₂⟩, h₃⟩, h₄⟩, h₅⟩ => ⟨h₁, h₂, h₃, h₄, h₅⟩,
    fun ⟨h₁, h₂, h₃, h₄, h₅⟩ => ⟨⟨⟨⟨h₁, h₂⟩, h₃⟩, h₄⟩, h₅⟩⟩

/-- On every database `_gather_report` runs to its end. -/
theorem gatherReport_runs (d : Database) :
    ∃ checkedAt, Mvcc.Progress d gatherReport [] [] (.done (d.report checkedAt)) := by
  have hstart : Mvcc.Progress d gatherReport [] [] gatherReport := .start
  have hwp := gatherReport_wp (P :=
    { done := fun r ws ids => ws = [] ∧ ids = [] ∧ ∃ t, r = d.report t
      raise := fun _ => False
      write := fun _ _ _ => False }) d fun t => ⟨rfl, rfl, t, rfl⟩
  have hsupply : ∀ l : List ObjectId, ∃ x, x ∉ (∅ : Set ObjectId) ∧ x ∉ l := fun l =>
    (Infinite.exists_notMem_finset l.toFinset).elim fun x hx => ⟨x, by simp, by simpa using hx⟩
  obtain ⟨ws, ids, p, hprog, -, hend⟩ := hstart.exists_ended hsupply (by simp)
  cases hend with
  | done r =>
      obtain ⟨rfl, rfl, t, rfl⟩ := hprog.wp_done hwp
      exact ⟨t, hprog⟩
  | raise e => exact (hprog.wp_raise hwp).elim
  | duplicate => exact (hprog.wp_write hwp).elim
  | invalid => exact (hprog.wp_write hwp).elim

/-- What it returns is the report on the database. -/
theorem report_of_progress {ws : List DbWrite} {ids : List ObjectId}
    {r : ReconciliationReport} (h : Mvcc.Progress d gatherReport ws ids (.done r)) :
    ∃ checkedAt, r = d.report checkedAt :=
  h.wp_done (gatherReport_wp (P :=
    { done := fun r _ _ => ∃ t, r = d.report t
      raise := fun _ => False
      write := fun _ _ _ => False }) d fun t => ⟨t, rfl⟩)

end Pipelines

end Ledgerlock
