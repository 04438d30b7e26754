import Ledgerlock.Spec.Audit

/-!
# Ledgerlock.Spec.Views

Two views of the entries: the balance of an account, which `compute_balance` reads off
its entries, and the reconciliation, whose pipelines group all of them.

Where a sum is exact both are sums of signed amounts, taken account by account, currency
by currency or all at once, and these come to the same (`views_agree`): grouped rows are
summed and counted group by group, whatever the key.
-/

namespace Ledgerlock

open Mvcc (Progress)

/-! ### One account -/

/-- What has been credited to an account. -/
def Database.credited (d : Database) (accountId : ObjectId) : Int :=
  ((d.entriesOf accountId).map fun e => if e.direction = .credit then e.amountMinor else 0).sum

/-- What has been debited from it. -/
def Database.debited (d : Database) (accountId : ObjectId) : Int :=
  ((d.entriesOf accountId).map fun e => if e.direction = .debit then e.amountMinor else 0).sum

/-- The sign convention of an entry. -/
def LedgerEntry.Signed (e : LedgerEntry) : Prop :=
  e.signedAmountMinor = if e.direction = .credit then e.amountMinor else -e.amountMinor

/-- A balance is what was credited less what was debited. -/
theorem Database.balance_eq_sub {d : Database} (h : ∀ e ∈ d.ledgerEntries, e.Signed)
    (accountId : ObjectId) : d.balance accountId = d.credited accountId - d.debited accountId := by
  have hentries : ∀ e ∈ d.entriesOf accountId, e.Signed := fun e he =>
    h e (List.mem_of_mem_filter he)
  simp only [balance, credited, debited]
  generalize d.entriesOf accountId = entries at hentries ⊢
  induction entries with
  | nil => rfl
  | cons e entries ih =>
      have hrest := ih fun f hf => hentries f (List.mem_cons_of_mem e hf)
      have he : e.signedAmountMinor = _ := hentries e List.mem_cons_self
      simp only [List.map_cons, List.sum_cons, hrest, he]
      cases e.direction <;> simp <;> omega

section Views

variable {d : Database}

/-- What `compute_balance` returns, when its sums are exact. -/
theorem computeBalance_eq [ServerSum] {accountId : ObjectId}
    (hbalance : ServerSum.sum ((d.entriesOf accountId).map (·.signedAmountMinor)) =
      d.balance accountId)
    (hcredited : ServerSum.sum ((d.entriesOf accountId).map
      fun e => if e.direction = .credit then e.amountMinor else 0) = d.credited accountId)
    (hdebited : ServerSum.sum ((d.entriesOf accountId).map
      fun e => if e.direction = .debit then e.amountMinor else 0) = d.debited accountId) :
    computeBalance d accountId =
      ⟨d.balance accountId, d.credited accountId, d.debited accountId,
        (d.entriesOf accountId).length⟩ := by
  unfold computeBalance balancePipeline
  cases hentries : d.entriesOf accountId with
  | nil => simp [zeroBalance, Database.balance, Database.credited, Database.debited, hentries]
  | cons e entries =>
      rw [← hbalance, ← hcredited, ← hdebited, hentries]
      rfl

/-! ### All accounts -/

/-- The account ids that occur in entries. -/
def Database.accountIds (d : Database) : List ObjectId := (d.ledgerEntries.map (·.accountId)).dedup

/-- The signed amounts of all entries are those of the accounts together. -/
theorem Database.signedSum_accounts (d : Database) :
    signedSum d.ledgerEntries = (d.accountIds.map d.balance).sum :=
  Pipeline.sum_eq_sum_groups (List.nodup_dedup _)
    (fun _ he => List.mem_dedup.mpr (List.mem_map_of_mem he)) _

/-- The signed amounts of all entries are those of the currencies together. -/
theorem Database.signedSum_currencies (d : Database) :
    signedSum d.ledgerEntries = (((d.ledgerEntries.map (·.currency)).dedup).map fun currency =>
      signedSum (d.ledgerEntries.filter fun e => e.currency = currency)).sum :=
  Pipeline.sum_eq_sum_groups (List.nodup_dedup _)
    (fun _ he => List.mem_dedup.mpr (List.mem_map_of_mem he)) _

theorem Database.length_accounts (d : Database) :
    d.ledgerEntries.length = (d.accountIds.map fun id => (d.entriesOf id).length).sum :=
  Pipeline.length_eq_sum_groups (List.nodup_dedup _)
    fun _ he => List.mem_dedup.mpr (List.mem_map_of_mem he)

/-! ### Negative accounts -/

/-- Where a row makes its name or nothing, no name is made twice. -/
theorem nodup_flatMap_of_sublist {α β : Type} {f : α → List β} (name : α → β) {rows : List α}
    (h : ∀ row, (f row).Sublist [name row]) (hrows : (rows.map name).Nodup) :
    (rows.flatMap f).Nodup := by
  refine hrows.sublist ?_
  induction rows with
  | nil => exact .slnil
  | cons row rows ih =>
      rw [List.flatMap_cons, List.map_cons]
      exact (h row).append (ih (List.nodup_cons.mp hrows).2)

/-- A list without repetitions that holds at most one value. -/
theorem sublist_singleton_of_nodup {β : Type} {l : List β} {a : β} (hl : l.Nodup)
    (h : ∀ b ∈ l, b = a) : l.Sublist [a] := by
  cases l with
  | nil => exact List.nil_sublist _
  | cons b l =>
      obtain rfl := h b List.mem_cons_self
      rw [eq_singleton_of_nodup hl List.mem_cons_self h]

variable [ServerSum]

/-- An id is listed for the USER accounts it is the id of, if they are overdrawn. -/
theorem mem_findNegativeUserAccounts {id : ObjectId} : id ∈ findNegativeUserAccounts d ↔
    ∃ a ∈ d.accounts, a.id = id ∧ a.accountType = .user ∧ d.balance id < 0 := by
  simp only [findNegativeUserAccounts, List.mem_flatMap, List.mem_filter, List.mem_map,
    decide_eq_true_eq]
  constructor
  · intro h
    obtain ⟨g, ⟨hg, hneg⟩, a, ⟨⟨ha, hid⟩, huser⟩, rfl⟩ := h
    rw [(Pipeline.mem_group.mp hg).2, netOf_neg] at hneg
    exact ⟨a, ha, hid, huser, hneg⟩
  · intro h
    obtain ⟨a, ha, rfl, huser, hneg⟩ := h
    have hnet : netOf (d.entriesOf a.id) < 0 := netOf_neg.mpr hneg
    have hne : d.entriesOf a.id ≠ [] := by
      intro hnil
      simp [hnil, netOf] at hnet
    obtain ⟨e, he⟩ := List.exists_mem_of_ne_nil _ hne
    obtain ⟨he, hid⟩ : e ∈ d.ledgerEntries ∧ e.accountId = a.id := by
      simpa [Database.entriesOf] using he
    have hgroup := Pipeline.group_of_mem (·.accountId) he
    rw [hid] at hgroup
    exact ⟨_, ⟨hgroup, hnet⟩, a, ⟨⟨ha, rfl⟩, huser⟩, rfl⟩

/-- With unique ids it is listed once. -/
theorem findNegativeUserAccounts_nodup (hids : (d.accounts.map (·.id)).Nodup) :
    (findNegativeUserAccounts d).Nodup := by
  refine nodup_flatMap_of_sublist Prod.fst (fun row => ?_) ?_
  · -- the `$lookup` finds one account document at most
    set found := d.accounts.filter fun a => a.id = row.1
    have hid : ∀ a ∈ found, a.id = row.1 := fun a ha => by simpa using List.of_mem_filter ha
    have hnames : found.map (fun _ => row.1) = found.map (·.id) :=
      List.map_congr_left fun a ha => (hid a ha).symm
    have hone : (found.map fun _ => row.1).Sublist [row.1] := by
      rw [hnames]
      refine sublist_singleton_of_nodup (hids.sublist (List.filter_sublist.map _)) fun id h => ?_
      obtain ⟨a, ha, rfl⟩ := List.mem_map.mp h
      exact hid a ha
    exact (List.filter_sublist.map _).trans hone
  · refine List.Nodup.sublist (List.filter_sublist.map _) ?_
    rw [Pipeline.group, List.map_map]
    exact (List.map_id _).symm ▸ List.nodup_dedup _

/-! ### The two views -/

/-- Where sums are exact, what balances say about accounts and what a reconciliation
says about all of them is the same. -/
theorem views_agree (hexact : ∀ xs : List Int, ServerSum.sum xs = xs.sum)
    (hids : (d.accounts.map (·.id)).Nodup)
    (hvalid : ∀ e ∈ d.ledgerEntries, ledgerEntryValidator e = true) {ws : List DbWrite}
    {ids : List ObjectId} {r : ReconciliationReport}
    (hrun : Progress d gatherReport ws ids (.done r)) :
    (∀ id, (computeBalance d id).balanceMinor =
        ((d.entriesOf id).map (·.signedAmountMinor)).sum ∧
      (computeBalance d id).balanceMinor =
        (computeBalance d id).totalCreditedMinor - (computeBalance d id).totalDebitedMinor ∧
      (d.entriesOf id = [] → computeBalance d id = zeroBalance)) ∧
    r.negativeUserAccounts.Nodup ∧
    (∀ id, id ∈ r.negativeUserAccounts ↔ ∃ a ∈ d.accounts, a.id = id ∧
      a.accountType = .user ∧ (computeBalance d id).balanceMinor < 0) ∧
    r.netSignedMinor = (r.perCurrencyNetMinor.map (·.2)).sum ∧
    r.netSignedMinor = (d.accountIds.map fun id => (computeBalance d id).balanceMinor).sum ∧
    r.totalEntries = (d.accountIds.map fun id => (computeBalance d id).entryCount).sum ∧
    (r.balanced = true ↔ ∀ row ∈ r.perCurrencyNetMinor, row.2 = 0) := by
  obtain ⟨checkedAt, rfl⟩ := report_of_progress hrun
  have hbalance : ∀ id, computeBalance d id =
      ⟨d.balance id, d.credited id, d.debited id, (d.entriesOf id).length⟩ :=
    fun id => computeBalance_eq (hexact _) (hexact _) (hexact _)
  have hsigned : ∀ e ∈ d.ledgerEntries, e.Signed := fun e he =>
    (ledgerEntryValidator_iff.mp (hvalid e he)).2.2.2.2
  have hnet : netOf d.ledgerEntries = signedSum d.ledgerEntries := hexact _
  have hcurrencies : signedSum d.ledgerEntries = ((netPerCurrency d).map (·.2)).sum := by
    rw [d.signedSum_currencies, netPerCurrency, Pipeline.group, List.map_map, List.map_map]
    exact congrArg List.sum (List.map_congr_left fun c _ => (hexact _).symm)
  simp only [Database.report, assembleReport, netAndCount_eq, hnet, hbalance]
  refine ⟨fun id => ⟨rfl, Database.balance_eq_sub hsigned id, fun hnil => ?_⟩,
    findNegativeUserAccounts_nodup hids, fun id => mem_findNegativeUserAccounts, hcurrencies,
    d.signedSum_accounts, d.length_accounts, ?_⟩
  · simp [Database.balance, Database.credited, Database.debited, hnil, zeroBalance]
  · simp only [Bool.and_eq_true, decide_eq_true_eq, List.all_eq_true]
    refine ⟨fun h => h.2, fun h => ⟨?_, h⟩⟩
    rw [hcurrencies]
    refine List.sum_eq_zero fun x hx => ?_
    obtain ⟨row, hrow, rfl⟩ := List.mem_map.mp hx
    exact h row hrow

end Views

section Example

open scoped Example

/-- On the funded database of the example both views are of 100 minor units. -/
theorem views_agree_funded : ∃ r, Progress (Example.fundedDb Example.stamp) gatherReport [] []
      (.done r) ∧ r.totalEntries = 2 ∧ r.netSignedMinor =
    ((Example.fundedDb Example.stamp).accountIds.map fun id =>
      (computeBalance (Example.fundedDb Example.stamp) id).balanceMinor).sum := by
  obtain ⟨checkedAt, hrun⟩ := gatherReport_runs (Example.fundedDb Example.stamp)
  have hvalid := Example.fundedDb_valid
  obtain ⟨-, -, -, -, haccounts, hcount, -⟩ :=
    views_agree (fun _ => rfl) (Database.account_ids_nodup hvalid.keys) hvalid.ledgerEntries hrun
  exact ⟨_, hrun, hcount, haccounts⟩

end Example

end Ledgerlock
