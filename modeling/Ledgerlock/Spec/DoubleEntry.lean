import Ledgerlock.Spec.Example

/-!
# Ledgerlock.Spec.DoubleEntry

The double-entry structure of every committed state: each transaction has its
debit and its credit and no other entry, the pair agrees with the header, and
there is no entry without a transaction.
-/

namespace Ledgerlock

open Mvcc

/-- Filtering blocks by a key that one of them has leaves that block. -/
theorem flatMap_of_unique_key {β γ κ : Type} [DecidableEq κ] {key : β → κ} {f : β → List γ}
    {l : List β} (hl : (l.map key).Nodup) {a : β} (ha : a ∈ l) :
    (l.flatMap fun b => if key b = key a then f b else []) = f a := by
  induction l with
  | nil => simp at ha
  | cons c l ih =>
      rw [List.map_cons, List.nodup_cons] at hl
      have hnone : ∀ b ∈ l, key b = key c → False := fun b hb h =>
        hl.1 (List.mem_map.mpr ⟨b, hb, h⟩)
      rw [List.flatMap_cons]
      rcases List.mem_cons.mp ha with rfl | ha'
      · have hrest : (l.flatMap fun b => if key b = key a then f b else []) = [] := by
          refine List.flatMap_eq_nil_iff.mpr fun b hb => ?_
          rw [if_neg fun h => hnone b hb h]
        rw [hrest, if_pos rfl, List.append_nil]
      · rw [if_neg fun h => hnone a ha' h.symm, List.nil_append]
        exact ih hl.2 ha'

theorem Represents.transactionIds_nodup {d : Database} {journal : List Posting}
    (hd : Represents d journal) : (journal.map fun p => p.stamp.transactionId).Nodup := by
  have hids := Database.transaction_ids_nodup hd.keys
  rw [hd.transactions, List.map_map] at hids
  exact hids

/-- The entries of a posting's transaction are its pair. -/
theorem Represents.entries_of {d : Database} {journal : List Posting}
    (hd : Represents d journal) {p : Posting} (hp : p ∈ journal) :
    (d.ledgerEntries.filter fun e => e.transactionId = p.stamp.transactionId) = p.entries := by
  have hblock : ∀ q : Posting,
      (q.entries.filter fun e => e.transactionId = p.stamp.transactionId) =
        if q.stamp.transactionId = p.stamp.transactionId then q.entries else [] := by
    intro q
    by_cases h : q.stamp.transactionId = p.stamp.transactionId <;>
      simp [Posting.entries, Posting.debit, Posting.credit, Stamp.debit, Stamp.credit, h]
  rw [hd.entries, List.filter_flatMap]
  simp only [hblock]
  exact flatMap_of_unique_key hd.transactionIds_nodup hp

/-- An entry that is one side of a transaction. -/
structure IsSide (t : Transaction) (side : EntryDirection) (e : LedgerEntry) : Prop where
  transactionId : e.transactionId = t.id
  direction : e.direction = side
  accountId : e.accountId = if side = .debit then t.sourceAccountId else t.destinationAccountId
  amountMinor : e.amountMinor = t.amountMinor
  signedAmountMinor : e.signedAmountMinor =
    if side = .debit then -t.amountMinor else t.amountMinor
  currency : e.currency = t.currency

/-- An account with this id and currency exists. -/
def Database.HasAccount (d : Database) (id : ObjectId) (currency : String) : Prop :=
  ∃ a ∈ d.accounts, a.id = id ∧ a.currency = currency

/-- A transaction document and its entries are a double-entry record. -/
structure WellPosted (d : Database) (t : Transaction) : Prop where
  status : t.status = .completed
  amount : 1 ≤ t.amountMinor
  distinct : t.sourceAccountId ≠ t.destinationAccountId
  source : d.HasAccount t.sourceAccountId t.currency
  destination : d.HasAccount t.destinationAccountId t.currency
  /-- These two, and no others. -/
  entries : ∃ debit credit, IsSide t .debit debit ∧ IsSide t .credit credit ∧
    (d.ledgerEntries.filter fun e => e.transactionId = t.id) = [debit, credit]

theorem Represents.hasAccount {d : Database} {journal : List Posting}
    (hd : Represents d journal) {id : ObjectId} {currency : String}
    (h : ∃ h, d.holder id = some h ∧ h.currency = currency) : d.HasAccount id currency := by
  obtain ⟨_, hh, hc⟩ := h
  obtain ⟨a, ha, hid, rfl⟩ := (Database.holder_iff hd.keys).mp hh
  exact ⟨a, ha, hid, hc⟩

theorem Represents.wellPosted {d : Database} {journal : List Posting}
    (hd : Represents d journal) {p : Posting} (hp : p ∈ journal) : WellPosted d p.header where
  status := rfl
  amount := p.amount_pos
  distinct := p.distinct
  source := hd.hasAccount (hd.source p hp)
  destination := hd.hasAccount (hd.destination p hp)
  entries := ⟨p.debit, p.credit, ⟨rfl, rfl, rfl, rfl, rfl, rfl⟩, ⟨rfl, rfl, rfl, rfl, rfl, rfl⟩,
    hd.entries_of hp⟩

/-- In every committed state every transaction is a double-entry record, and
every entry belongs to a transaction. -/
theorem doubleEntry {ν : Type} [DecidableEq ν] [ServerSum] (D : Deployment ν)
    {st : LedgerState ν} (h : Reachable D.system st) :
    (∀ t ∈ (D.db st).transactions, WellPosted (D.db st) t) ∧
      ∀ e ∈ (D.db st).ledgerEntries, ∃ t ∈ (D.db st).transactions, e.transactionId = t.id := by
  obtain ⟨journal, hjournal⟩ := D.represents h
  constructor
  · intro t ht
    rw [hjournal.transactions] at ht
    obtain ⟨p, hp, rfl⟩ := List.mem_map.mp ht
    exact hjournal.wellPosted hp
  · intro e he
    rw [hjournal.entries] at he
    obtain ⟨p, hp, he⟩ := List.mem_flatMap.mp he
    refine ⟨p.header, hjournal.transactions ▸ List.mem_map_of_mem hp, ?_⟩
    simp only [Posting.entries, List.mem_cons, List.not_mem_nil, or_false] at he
    rcases he with rfl | rfl <;> rfl

section Example

open scoped Example

/-- In the run of the example both transactions are double-entry records. -/
theorem doubleEntry_paid : ∃ st, ∃ x y : Stamp, Reachable Example.deployment.system st ∧
    (Example.deployment.db st).transactions =
      [x.header Example.funding, y.header Example.payment] ∧
    ∀ t ∈ (Example.deployment.db st).transactions, WellPosted (Example.deployment.db st) t := by
  obtain ⟨st, x, y, hst, hdb, -⟩ := Example.paid
  exact ⟨st, x, y, hst, by rw [hdb]; rfl, (doubleEntry _ hst).1⟩

end Example

end Ledgerlock
