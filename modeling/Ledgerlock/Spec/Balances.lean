import Ledgerlock.Spec.Example
import Mathlib.Algebra.BigOperators.Group.Finset.Basic
import Mathlib.Algebra.Order.BigOperators.Group.List

/-!
# Ledgerlock.Spec.Balances

What every run guarantees about balances: no USER account is ever overdrawn, and
in each currency the accounts together hold nothing, so that what users hold is
what the SYSTEM account of the currency owes.
-/

namespace Ledgerlock

open Mvcc

/-! ### No overdraft -/

/-- In every committed state every USER account has a balance of at least zero,
whatever the calls, the interleaving and the retries. -/
theorem noOverdraft {ν : Type} [DecidableEq ν] [ServerSum] (D : Deployment ν)
    {st : LedgerState ν} (h : Reachable D.system st) :
    ∀ a ∈ (D.db st).accounts, a.accountType = .user → 0 ≤ (D.db st).balance a.id := by
  intro a ha huser
  obtain ⟨journal, hjournal⟩ := D.represents h
  exact hjournal.solvent a.id a.holder
    ((Database.holder_iff hjournal.keys).mpr ⟨a, ha, rfl, rfl⟩) huser

section Example

open scoped Example

/-- In the run of the example both users stay solvent. -/
theorem noOverdraft_paid : ∃ st x y, Reachable Example.deployment.system st ∧
    Example.deployment.db st = Example.paidDb x y ∧
    ∀ a ∈ (Example.deployment.db st).accounts, a.accountType = .user →
      0 ≤ (Example.deployment.db st).balance a.id := by
  obtain ⟨st, x, y, hst, hdb, -⟩ := Example.paid
  exact ⟨st, x, y, hst, hdb, noOverdraft _ hst⟩

end Example

/-! ### Conservation -/

/-- The ids of the accounts of a currency. -/
def Database.accountIdsIn (d : Database) (currency : String) : Finset ObjectId :=
  ((d.accounts.filter fun a => a.currency = currency).map (·.id)).toFinset

theorem mem_accountIdsIn {d : Database} (hd : d.keys.Nodup) {currency : String}
    {id : ObjectId} : id ∈ d.accountIdsIn currency ↔
      ∃ h, d.holder id = some h ∧ h.currency = currency := by
  simp only [Database.accountIdsIn, List.mem_toFinset, List.mem_map, List.mem_filter,
    decide_eq_true_eq, Database.holder_iff hd]
  constructor
  · intro hfound
    obtain ⟨a, ⟨ha, hc⟩, hid⟩ := hfound
    exact ⟨a.holder, ⟨a, ha, hid, rfl⟩, hc⟩
  · intro hfound
    obtain ⟨_, ⟨a, ha, hid, rfl⟩, hc⟩ := hfound
    exact ⟨a, ⟨ha, hc⟩, hid⟩

/-- The ids of a selection of accounts. -/
def Database.idsOf (d : Database) (p : Account → Bool) : Finset ObjectId :=
  ((d.accounts.filter p).map (·.id)).toFinset

/-- The balances of a selection of accounts sum to what the journal brings in. -/
theorem Represents.sum_filter {d : Database} {journal : List Posting}
    (hd : Represents d journal) (p : Account → Bool) :
    ((d.accounts.filter p).map fun a => d.balance a.id).sum =
      (journal.map fun q => q.transfer.flow (d.idsOf p)).sum := by
  have hnodup : ((d.accounts.filter p).map (·.id)).Nodup :=
    (Database.account_ids_nodup hd.keys).sublist (List.filter_sublist.map _)
  calc ((d.accounts.filter p).map fun a => d.balance a.id).sum
      = (((d.accounts.filter p).map (·.id)).map d.balance).sum := by
        rw [List.map_map]
        rfl
    _ = ∑ id ∈ d.idsOf p, d.balance id := (List.sum_toFinset _ hnodup).symm
    _ = ∑ id ∈ d.idsOf p, journalBalance journal id :=
        Finset.sum_congr rfl fun id _ => hd.balance id
    _ = ((journal.map Posting.transfer).map fun t => t.flow (d.idsOf p)).sum :=
        Bookkeeping.sum_balance_eq _ _
    _ = (journal.map fun q => q.transfer.flow (d.idsOf p)).sum := by
        rw [List.map_map]
        rfl

/-- The balances of all accounts of a currency sum to zero. -/
theorem Represents.sum_balance {d : Database} {journal : List Posting}
    (hd : Represents d journal) (currency : String) :
    ((d.accounts.filter fun a => a.currency = currency).map fun a => d.balance a.id).sum = 0 := by
  rw [hd.sum_filter]
  refine List.sum_eq_zero fun x hx => ?_
  obtain ⟨p, hp, rfl⟩ := List.mem_map.mp hx
  obtain ⟨hs, hsource, hsc⟩ := hd.source p hp
  obtain ⟨hd', hdestination, hdc⟩ := hd.destination p hp
  refine Bookkeeping.flow_eq_zero ?_
  show p.args.sourceAccountId ∈ d.accountIdsIn currency ↔
    p.args.destinationAccountId ∈ d.accountIdsIn currency
  rw [mem_accountIdsIn hd.keys, mem_accountIdsIn hd.keys]
  simp [hsource, hdestination, hsc, hdc]

/-- The balances of the accounts of one type and currency, added up. -/
def Database.holdings (d : Database) (accountType : AccountType) (currency : String) : Int :=
  ((d.accounts.filter fun a => a.accountType = accountType ∧ a.currency = currency).map
    fun a => d.balance a.id).sum

/-- USER and SYSTEM accounts are all the accounts there are. -/
theorem sum_holdings (d : Database) (currency : String) :
    d.holdings .user currency + d.holdings .system currency =
      ((d.accounts.filter fun a => a.currency = currency).map fun a => d.balance a.id).sum := by
  have hsplit := List.filter_append_perm (fun a : Account => a.accountType = .user)
    (d.accounts.filter fun a => a.currency = currency)
  have huser : (d.accounts.filter fun a => a.accountType = .user ∧ a.currency = currency) =
      (d.accounts.filter fun a => a.currency = currency).filter
        fun a => a.accountType = .user := by
    rw [List.filter_filter]
    exact List.filter_congr fun a _ => by simp
  have hsystem : (d.accounts.filter fun a => a.accountType = .system ∧ a.currency = currency) =
      (d.accounts.filter fun a => a.currency = currency).filter
        fun a => !decide (a.accountType = .user) := by
    rw [List.filter_filter]
    exact List.filter_congr fun a _ => by cases a.accountType <;> simp
  rw [← (hsplit.map fun a => d.balance a.id).sum_eq, List.map_append, List.sum_append,
    Database.holdings, Database.holdings, huser, hsystem]

/-- The SYSTEM accounts of a currency hold what its one SYSTEM account holds. -/
theorem holdings_system {d : Database} (hd : d.keys.Nodup) {s : Account}
    (hs : s ∈ d.accounts) (hsystem : s.accountType = .system) :
    d.holdings .system s.currency = d.balance s.id := by
  have hnodup : (d.accounts.filter fun a =>
      a.accountType = .system ∧ a.currency = s.currency).Nodup :=
    (List.Nodup.of_map _ (Database.account_ids_nodup hd)).filter _
  have hone := eq_singleton_of_nodup (a := s) hnodup (by simp [hs, hsystem]) fun b hb => by
    obtain ⟨hmem, hb', hcurrency⟩ : b ∈ d.accounts ∧ b.accountType = .system ∧
        b.currency = s.currency := by simpa using hb
    exact Database.systemAccount_eq hd hmem hs hb' hsystem hcurrency
  rw [Database.holdings, hone, List.map_singleton, List.sum_singleton]

theorem Represents.balance_nonneg_of_mem {d : Database} {journal : List Posting}
    (hd : Represents d journal) {currency : String} {x : Int}
    (hx : x ∈ (d.accounts.filter fun a => a.accountType = .user ∧ a.currency = currency).map
      fun a => d.balance a.id) : 0 ≤ x := by
  obtain ⟨a, ha, rfl⟩ := List.mem_map.mp hx
  obtain ⟨hmem, huser, -⟩ : a ∈ d.accounts ∧ a.accountType = .user ∧ a.currency = currency := by
    simpa using ha
  exact hd.solvent a.id a.holder ((Database.holder_iff hd.keys).mpr ⟨a, hmem, rfl, rfl⟩) huser

/-- Solvent users hold at least nothing. -/
theorem Represents.holdings_nonneg {d : Database} {journal : List Posting}
    (hd : Represents d journal) (currency : String) : 0 ≤ d.holdings .user currency :=
  List.sum_nonneg fun _ hx => hd.balance_nonneg_of_mem hx

/-- In every committed state and every currency the accounts together hold
nothing: the SYSTEM account owes what users hold, and where there is none users
hold nothing. -/
theorem conservation {ν : Type} [DecidableEq ν] [ServerSum] (D : Deployment ν)
    {st : LedgerState ν} (h : Reachable D.system st) (currency : String) :
    (((D.db st).accounts.filter fun a => a.currency = currency).map
        fun a => (D.db st).balance a.id).sum = 0 ∧
      (∀ s ∈ (D.db st).accounts, s.accountType = .system → s.currency = currency →
        (D.db st).balance s.id = -(D.db st).holdings .user currency ∧
          (D.db st).balance s.id ≤ 0) ∧
      ((∀ s ∈ (D.db st).accounts, s.accountType = .system → s.currency ≠ currency) →
        ∀ a ∈ (D.db st).accounts, a.accountType = .user → a.currency = currency →
          (D.db st).balance a.id = 0) := by
  obtain ⟨journal, hjournal⟩ := D.represents h
  have hzero := hjournal.sum_balance currency
  refine ⟨hzero, fun s hs hsystem hcurrency => ?_, fun hnone a ha huser hcurrency => ?_⟩
  · have hnonneg := hjournal.holdings_nonneg currency
    rw [← sum_holdings, ← hcurrency, holdings_system hjournal.keys hs hsystem] at hzero
    rw [← hcurrency] at hnonneg ⊢
    omega
  · have hsystem : (D.db st).holdings .system currency = 0 := by
      have hempty : ((D.db st).accounts.filter fun s =>
          s.accountType = .system ∧ s.currency = currency) = [] := by
        refine List.filter_eq_nil_iff.mpr fun s hs => ?_
        simpa using hnone s hs
      rw [Database.holdings, hempty]
      rfl
    rw [← sum_holdings, hsystem, add_zero] at hzero
    -- nonnegative balances that sum to zero
    refine List.all_zero_of_le_zero_le_of_sum_eq_zero (fun x hx => ?_) hzero
      (List.mem_map.mpr ⟨a, by simp [ha, huser, hcurrency], rfl⟩)
    exact hjournal.balance_nonneg_of_mem hx

section Example

open scoped Example

/-- In the run of the example the SYSTEM account owes what was funded. -/
theorem conservation_paid : ∃ st x y, Reachable Example.deployment.system st ∧
    Example.deployment.db st = Example.paidDb x y ∧
    (Example.deployment.db st).holdings .user "USD" = 100 ∧
    (Example.deployment.db st).balance Example.boundary.id = -100 := by
  obtain ⟨st, x, y, hst, hdb, -⟩ := Example.paid
  obtain ⟨-, hsystem, -⟩ := conservation _ hst "USD"
  have hholdings : (Example.deployment.db st).holdings .user "USD" = 100 := by
    rw [hdb]
    rfl
  have hmem : ∃ s ∈ (Example.deployment.db st).accounts,
      s.id = Example.boundary.id ∧ s.accountType = .system ∧ s.currency = "USD" := by
    rw [hdb]
    exact ⟨Example.boundary, List.Mem.head _, rfl, rfl, rfl⟩
  obtain ⟨s, hs, hid, htype, hcurrency⟩ := hmem
  refine ⟨st, x, y, hst, hdb, hholdings, ?_⟩
  rw [← hid, (hsystem s hs htype hcurrency).1, hholdings]

end Example

end Ledgerlock
