import Ledgerlock.Schema.Setup

/-!
# Ledgerlock.Schema.Keys

The server's unique indexes and the keys of `Ledgerlock.Db` are two accounts of one thing:
on the documents of the application the indexes hold exactly if no key occurs twice.
With the validators that makes an insert of the server the insert of the model
(`insert_entryDocument`, `insert_transactionDocument`).
-/

namespace Ledgerlock.Schema

open DocServer

/-! ### Keys of the indexes -/

/-- A unique index on all documents, over what they are made from. -/
theorem holds_map {α : Type} {idx : Index BsonDocument} {f : α → BsonDocument}
    {key : α → α → Prop} (hunique : idx.unique = true)
    (hall : ∀ a, idx.partialFilterExpression (f a) = true)
    (hkey : ∀ a b, (idx.keyOf (f a) == idx.keyOf (f b)) = false ↔ ¬ key a b) (l : List α) :
    idx.holds (l.map f) = true ↔ l.Pairwise fun a b => ¬ key a b := by
  have hfilter : (l.map f).filter idx.partialFilterExpression = l.map f := by
    refine List.filter_eq_self.2 ?_
    intro d hd
    obtain ⟨a, -, rfl⟩ := List.mem_map.1 hd
    exact hall a
  simp only [Index.holds, hunique, Bool.not_true, Bool.false_or, decide_eq_true_eq, hfilter,
    List.pairwise_map, hkey]

theorem nodup_keys {α : Type} {keys : α → List DbKey} {apart : α → α → Prop}
    (hnodup : ∀ a, (keys a).Nodup)
    (hdisjoint : ∀ a b, List.Disjoint (keys a) (keys b) ↔ apart a b) (l : List α) :
    (l.flatMap keys).Nodup ↔ l.Pairwise apart := by
  have hfun : Function.onFun List.Disjoint keys = apart := by
    funext a b
    exact propext (hdisjoint a b)
  rw [List.nodup_flatMap, hfun]
  exact and_iff_right fun a _ => hnodup a

theorem directionValue_injective : Function.Injective directionValue := by
  intro d d' h
  cases d <;> cases d' <;> first | rfl | exact absurd h (by decide)

/-! ### Ledger entries -/

theorem disjoint_keys_entries {e f : LedgerEntry} : List.Disjoint e.keys f.keys ↔
    ¬ e.id = f.id ∧ ¬ (e.transactionId = f.transactionId ∧ e.direction = f.direction) := by
  simp [LedgerEntry.keys, eq_comm]

/-- The unique indexes of `ledger_entries` hold if no key of an entry occurs twice. -/
theorem holds_entries (es : List LedgerEntry) :
    (initialIndexes "ledger_entries").all (·.holds (es.map entryDocument)) = true ↔
      (es.flatMap LedgerEntry.keys).Nodup := by
  have hid : ∀ e f : LedgerEntry,
      (idIndex.keyOf (entryDocument e) == idIndex.keyOf (entryDocument f)) = false ↔
        ¬ e.id = f.id := by
    intro e f
    show ([[Bson.objectId e.id]] == [[Bson.objectId f.id]]) = false ↔ _
    simp [Bson.equals]
  have hdirection : ∀ e f : LedgerEntry,
      (ledgerEntriesIndexes[1].keyOf (entryDocument e) ==
        ledgerEntriesIndexes[1].keyOf (entryDocument f)) = false ↔
        ¬ (e.transactionId = f.transactionId ∧ e.direction = f.direction) := by
    intro e f
    show ([[Bson.objectId e.transactionId], [.string (directionValue e.direction)]] ==
      [[Bson.objectId f.transactionId], [.string (directionValue f.direction)]]) = false ↔ _
    simp [Bson.equals, directionValue_injective.eq_iff]
  -- the index on accounts and dates is not unique
  have hindexes : (initialIndexes "ledger_entries").all (·.holds (es.map entryDocument)) =
      (idIndex.holds (es.map entryDocument) &&
        (ledgerEntriesIndexes[1].holds (es.map entryDocument) && true)) := rfl
  have hkeys : ∀ e : LedgerEntry, e.keys.Nodup := by
    intro e
    simp [LedgerEntry.keys]
  rw [hindexes, Bool.and_true, Bool.and_eq_true, holds_map rfl (fun _ => rfl) hid,
    holds_map rfl (fun _ => rfl) hdirection, ← List.pairwise_and_iff,
    nodup_keys hkeys fun _ _ => disjoint_keys_entries]

/-! ### Transactions -/

theorem disjoint_keys_transactions {t u : Transaction} : List.Disjoint t.keys u.keys ↔
    ¬ t.id = u.id ∧ ¬ t.idempotencyKey = u.idempotencyKey := by
  simp [Transaction.keys, eq_comm]

theorem holds_transactions (ts : List Transaction) :
    (initialIndexes "transactions").all (·.holds (ts.map transactionDocument)) = true ↔
      (ts.flatMap Transaction.keys).Nodup := by
  have hid : ∀ t u : Transaction,
      (idIndex.keyOf (transactionDocument t) == idIndex.keyOf (transactionDocument u)) = false ↔
        ¬ t.id = u.id := by
    intro t u
    show ([[Bson.objectId t.id]] == [[Bson.objectId u.id]]) = false ↔ _
    simp [Bson.equals]
  have hkey : ∀ t u : Transaction,
      (transactionsIndexes[0].keyOf (transactionDocument t) ==
        transactionsIndexes[0].keyOf (transactionDocument u)) = false ↔
        ¬ t.idempotencyKey = u.idempotencyKey := by
    intro t u
    show ([[Bson.string t.idempotencyKey]] == [[Bson.string u.idempotencyKey]]) = false ↔ _
    simp [Bson.equals]
  have hindexes :
      (initialIndexes "transactions").all (·.holds (ts.map transactionDocument)) =
        (idIndex.holds (ts.map transactionDocument) &&
          (transactionsIndexes[0].holds (ts.map transactionDocument) && true)) := rfl
  have hkeys : ∀ t : Transaction, t.keys.Nodup := by
    intro t
    simp [Transaction.keys]
  rw [hindexes, Bool.and_true, Bool.and_eq_true, holds_map rfl (fun _ => rfl) hid,
    holds_map rfl (fun _ => rfl) hkey, ← List.pairwise_and_iff,
    nodup_keys hkeys fun _ _ => disjoint_keys_transactions]

/-! ### Inserts -/

/-- An insert into a collection of such documents is refused for the document itself, or
for a key that is there already. -/
theorem insert_document {α : Type} {f : α → BsonDocument} {keys : α → List DbKey}
    {c : Collection BsonDocument} {xs : List α} {x : α} (hdocuments : c.documents = xs.map f)
    (hholds : ∀ ys : List α, c.indexes.all (·.holds (ys.map f)) = true ↔
      (ys.flatMap keys).Nodup)
    (hxs : (xs.flatMap keys).Nodup) (hx : (keys x).Nodup) :
    c.insert (f x) false =
      if c.validation.admits (f x) = false then .error .documentValidationFailure
      else if ∃ k ∈ keys x, k ∈ xs.flatMap keys then .error .duplicateKey
      else .ok { c with documents := (xs ++ [x]).map f } := by
  have hnext : c.documents ++ [f x] = (xs ++ [x]).map f := by
    rw [hdocuments, List.map_append, List.map_singleton]
  have hclash : c.indexes.all (·.holds ((xs ++ [x]).map f)) = true ↔
      ¬ ∃ k ∈ keys x, k ∈ xs.flatMap keys := by
    rw [hholds, List.flatMap_append, List.flatMap_singleton, List.nodup_append']
    simp only [hxs, hx, true_and, not_exists, not_and]
    exact ⟨fun h k hk hk' => h hk' hk, fun h k hk hk' => h k hk' hk⟩
  rw [Collection.insert, Collection.store, hnext]
  cases c.validation.admits (f x) with
  | false => rfl
  | true =>
      simp only [Bool.not_false, Bool.not_true, Bool.and_false, Bool.false_eq_true, if_false,
        reduceCtorEq]
      by_cases hk : ∃ k ∈ keys x, k ∈ xs.flatMap keys
      · rw [if_neg (by rw [hclash]; exact not_not.2 hk), if_pos hk]
      · rw [if_pos (hclash.2 hk), if_neg hk]

section Database

variable {d : Database} {c : Collection BsonDocument}

theorem repeatsKey_insertLedgerEntry {e : LedgerEntry} :
    (DbWrite.insertLedgerEntry e).repeatsKey d = true ↔
      ∃ k ∈ e.keys, k ∈ d.ledgerEntries.flatMap LedgerEntry.keys := by
  simp [repeatsKey_eq_true, DbWrite.newKeys, Database.mem_keys, LedgerEntry.keys, Account.keys,
    Transaction.keys]

theorem repeatsKey_insertTransaction {t : Transaction} :
    (DbWrite.insertTransaction t).repeatsKey d = true ↔
      ∃ k ∈ t.keys, k ∈ d.transactions.flatMap Transaction.keys := by
  simp [repeatsKey_eq_true, DbWrite.newKeys, Database.mem_keys, LedgerEntry.keys, Account.keys,
    Transaction.keys]

/-- The server takes or refuses an entry as the model does. -/
theorem insert_entryDocument (hd : d.keys.Nodup)
    (hvalidation : c.validation = initialValidation "ledger_entries")
    (hindexes : c.indexes = initialIndexes "ledger_entries")
    (hdocuments : c.documents = d.ledgerEntries.map entryDocument) {e : LedgerEntry}
    (hamount : FitsLong e.amountMinor) (hsigned : FitsLong e.signedAmountMinor) :
    c.insert (entryDocument e) false =
      if (DbWrite.insertLedgerEntry e).accepted = false then .error .documentValidationFailure
      else if (DbWrite.insertLedgerEntry e).repeatsKey d then .error .duplicateKey
      else .ok { c with
        documents := (d.write (.insertLedgerEntry e)).ledgerEntries.map entryDocument } := by
  have hadmits : c.validation.admits (entryDocument e) =
      (DbWrite.insertLedgerEntry e).accepted := by
    rw [hvalidation]
    exact matches_entryDocument hamount hsigned
  have hholds : ∀ es : List LedgerEntry, c.indexes.all (·.holds (es.map entryDocument)) = true ↔
      (es.flatMap LedgerEntry.keys).Nodup := by
    rw [hindexes]
    exact holds_entries
  rw [insert_document hdocuments hholds (Database.ledgerEntries_keys_nodup hd)
    (by simp [LedgerEntry.keys]), hadmits]
  simp only [repeatsKey_insertLedgerEntry]
  rfl

/-- A transaction is inserted, refused by the check, or refused by an index, as the model says. -/
theorem insert_transactionDocument (hd : d.keys.Nodup)
    (hvalidation : c.validation = initialValidation "transactions")
    (hindexes : c.indexes = initialIndexes "transactions")
    (hdocuments : c.documents = d.transactions.map transactionDocument) {t : Transaction}
    (hamount : FitsLong t.amountMinor) :
    c.insert (transactionDocument t) false =
      if (DbWrite.insertTransaction t).accepted = false then .error .documentValidationFailure
      else if (DbWrite.insertTransaction t).repeatsKey d then .error .duplicateKey
      else .ok { c with
        documents := (d.write (.insertTransaction t)).transactions.map transactionDocument } := by
  have hadmits : c.validation.admits (transactionDocument t) =
      (DbWrite.insertTransaction t).accepted := by
    rw [hvalidation]
    exact matches_transactionDocument hamount
  have hholds : ∀ ts : List Transaction,
      c.indexes.all (·.holds (ts.map transactionDocument)) = true ↔
        (ts.flatMap Transaction.keys).Nodup := by
    rw [hindexes]
    exact holds_transactions
  rw [insert_document hdocuments hholds (Database.transactions_keys_nodup hd)
    (by simp [Transaction.keys]), hadmits]
  simp only [repeatsKey_insertTransaction]
  rfl

end Database

end Ledgerlock.Schema
