import Ledgerlock.Spec.Privacy

/-!
# Ledgerlock.Spec.Visibility

Which transactions a user can read. `read_transaction` is meant for the owner of either
account involved, and looks for that account among the caller's: on the first page of
them only. So an owner is shown the transaction as long as one of its accounts is among
the first 200 the server returns (`readTransaction_eq_iff`), and a user with more
accounts than that is told that a transaction of theirs does not exist
(`Example.manyAccounts_hidden`).
-/

namespace Ledgerlock

/-- What a document that `TransactionDocument` accepts looks like from outside. -/
theorem TransactionPublic.ofStored_of_accepted {t : Transaction} (ht : t.refusedFields = []) :
    ofStored t = .ok (.fromDocument t) := by
  obtain ⟨-, -, hcurrency, -⟩ := TransactionDocument.refusedFields_eq_nil.mp ht
  simp [ofStored, hcurrency]

theorem Database.shownTo_iff {order : ServerSort} {d : Database} {user : ObjectId}
    {t : Transaction} : d.ShownTo order user t ↔
      ∃ n < 200, ∃ a, (order.sort (d.accountsOwnedBy user))[n]? = some a ∧
        (a.id = t.sourceAccountId ∨ a.id = t.destinationAccountId) := by
  constructor
  · intro hshown
    obtain ⟨a, ha, hid⟩ := hshown
    obtain ⟨n, hn⟩ := List.mem_iff_getElem?.mp ha
    obtain ⟨hlt, hn⟩ : n < 200 ∧ _ := by simpa [List.getElem?_take] using hn
    exact ⟨n, hlt, a, hn, hid⟩
  · intro hnth
    obtain ⟨n, hlt, a, hn, hid⟩ := hnth
    exact ⟨a, List.mem_iff_getElem?.mpr ⟨n, by simpa [List.getElem?_take, hlt] using hn⟩, hid⟩

section Read

variable (order : ServerSort) (c : Collections) (user : AuthenticatedUser) {t : Transaction}

/-- A committed transaction is shown, or it is not found. -/
theorem readTransaction_of_committed (ht : t ∈ c.transactions) (haccepted : t.refusedFields = []) :
    (c.ShownTo order user.id t ∧ readTransaction order c user t.id = .ok (.fromDocument t)) ∨
      (¬ c.ShownTo order user.id t ∧
        readTransaction order c user t.id = .error (.transactionNotFound t.id)) := by
  have hfind := Collections.getTransaction_of_mem ht
  by_cases hshown : c.ShownTo order user.id t
  · refine .inl ⟨hshown, ?_⟩
    rw [readTransaction_of_shown hfind hshown, TransactionPublic.ofStored_of_accepted haccepted]
    rfl
  · refine .inr ⟨hshown, readTransaction_of_not_shown fun t' ht' => ?_⟩
    rwa [← Option.some.inj (hfind.symm.trans ht')]

/-- The owner of an account involved, and nobody else, can read a committed transaction,
exactly when owning one means to have one among the first 200. -/
theorem readTransaction_eq_iff (ht : t ∈ c.transactions) (haccepted : t.refusedFields = []) :
    (readTransaction order c user t.id =
      if c.TakesPart user.id t then .ok (.fromDocument t)
      else .error (.transactionNotFound t.id)) ↔
    (c.TakesPart user.id t → ∃ n < 200, ∃ a,
      (order.sort (c.accountsOwnedBy user.id))[n]? = some a ∧
        (a.id = t.sourceAccountId ∨ a.id = t.destinationAccountId)) := by
  rw [← Database.shownTo_iff]
  rcases readTransaction_of_committed order c user ht haccepted with ⟨hshown, hread⟩ |
    ⟨hhidden, hread⟩
  · rw [hread, if_pos hshown.takesPart]
    exact iff_of_true rfl fun _ => hshown
  · rw [hread]
    by_cases htakes : c.TakesPart user.id t
    · rw [if_pos htakes]
      exact iff_of_false (fun h => nomatch h) fun h => hhidden (h htakes)
    · rw [if_neg htakes]
      exact iff_of_true rfl fun h => absurd h htakes

end Read

namespace Example

/-- A payment of Alice's can be read by her. -/
theorem readTransaction_alice : (readTransaction storedOrder withBob aliceUser 21 =
      if withBob.TakesPart aliceUser.id (fundingOf alice 21) then
        .ok (.fromDocument (fundingOf alice 21))
      else .error (.transactionNotFound 21)) ↔
    (withBob.TakesPart aliceUser.id (fundingOf alice 21) → ∃ n < 200, ∃ a,
      (storedOrder.sort (withBob.accountsOwnedBy aliceUser.id))[n]? = some a ∧
        (a.id = (fundingOf alice 21).sourceAccountId ∨
          a.id = (fundingOf alice 21).destinationAccountId)) :=
  readTransaction_eq_iff storedOrder withBob aliceUser (t := fundingOf alice 21) (by decide)
    (by decide)

/-- One account of Alice's for each instant. -/
def accountAt (n : Nat) : Account := { alice with id := n + 1, createdAt := n }

/-- Alice has opened 201 accounts, and funded the last. -/
def manyAccounts : Collections where
  accounts := boundary :: (List.range 201).map accountAt
  transactions := [fundingOf (accountAt 200) 300]
  ledgerEntries := [creditOf (accountAt 200) 300 301]
  users := [⟨11, "alice@example.com", ""⟩]
  revokedTokens := []
  account_ids := by
    rw [List.map_cons, List.map_map, List.nodup_cons]
    refine ⟨fun h => ?_, List.Nodup.map (fun _ _ => Nat.succ.inj) List.nodup_range⟩
    obtain ⟨n, -, hn⟩ := List.mem_map.mp h
    exact Nat.succ_ne_zero n hn
  transaction_ids := List.nodup_singleton _

/-- Her accounts come in the order she opened them. -/
theorem manyAccounts_sort (order : ServerSort) :
    order.sort (manyAccounts.accountsOwnedBy 11) = (List.range 201).map accountAt := by
  have hall : manyAccounts.accountsOwnedBy 11 = (List.range 201).map accountAt := by
    rw [Database.accountsOwnedBy, manyAccounts, List.filter_cons_of_neg (by decide)]
    refine List.filter_eq_self.mpr fun a ha => ?_
    obtain ⟨n, -, rfl⟩ := List.mem_map.mp ha
    rfl
  have hsorted : ((List.range 201).map accountAt).Pairwise fun a b => a.createdAt < b.createdAt :=
    List.pairwise_map.mpr List.pairwise_lt_range
  have hmap := order.map_key_sort ((List.range 201).map accountAt) storedOrder
  rw [hall]
  refine (order.perm _).eq_of_pairwise ?_ (order.sorted _)
    (hsorted.imp fun h => h.le)
  intro a b ha hb hab hba
  obtain ⟨m, -, rfl⟩ := List.mem_map.mp ((order.mem_sort _).mp ha)
  obtain ⟨n, -, rfl⟩ := List.mem_map.mp hb
  rw [show m = n from le_antisymm hab hba]

/-- Alice owns the account that was funded, and the transaction is not found: whatever
the order of accounts opened at the same time. -/
theorem manyAccounts_hidden : fundingOf (accountAt 200) 300 ∈ manyAccounts.transactions ∧
    (fundingOf (accountAt 200) 300).refusedFields = [] ∧
    manyAccounts.TakesPart aliceUser.id (fundingOf (accountAt 200) 300) ∧
    ∀ order, readTransaction order manyAccounts aliceUser 300 =
      .error (.transactionNotFound 300) := by
  refine ⟨List.mem_singleton_self _, by decide, ?_, fun order => ?_⟩
  · refine ⟨accountAt 200, Database.mem_accountsOwnedBy.mpr ⟨?_, rfl⟩, .inr rfl⟩
    exact List.mem_cons_of_mem _ (List.mem_map_of_mem (List.mem_range.mpr (by decide)))
  · refine readTransaction_of_not_shown fun t ht hshown => ?_
    obtain rfl : fundingOf (accountAt 200) 300 = t := Option.some.inj ht
    obtain ⟨a, ha, hid⟩ := hshown
    have hsort : order.sort (manyAccounts.accountsOwnedBy aliceUser.id) = _ :=
      manyAccounts_sort order
    rw [hsort, ← List.map_take, List.take_range] at ha
    obtain ⟨n, hn, rfl⟩ := List.mem_map.mp ha
    have hn : n < 200 := (List.mem_range.mp hn).trans_le (by decide)
    rcases hid with hid | hid
    · exact Nat.succ_ne_zero n hid
    · exact absurd (Nat.succ.inj hid) hn.ne

end Example

end Ledgerlock
