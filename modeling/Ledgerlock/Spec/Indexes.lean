import Ledgerlock.Db
import Ledgerlock.Mvcc.History
import Mathlib.Data.List.Induction

/-!
# Ledgerlock.Spec.Indexes

The unique indexes hold in every committed state of every run, whatever the
programs are: an attempt's keys are new to its snapshot because the server
checked them, and new to every commit after it because it holds locks on them.
The part of an account document that no write changes (`Holder`) survives every
run for a simpler reason, that inserts come after it in the collection.
-/

namespace Ledgerlock

open Mvcc

/-! ### What one write adds -/

namespace Database

theorem keys_updateAccount (d : Database) (id : ObjectId) {f : Account → Account}
    (hf : ∀ a, (f a).keys = a.keys) : (d.updateAccount id f).keys = d.keys := by
  have : d.accounts.flatMap ((fun a => Account.keys (if a.id = id then f a else a))) =
      d.accounts.flatMap Account.keys := by
    congr 1
    funext a
    split
    · exact hf a
    · rfl
  simp [keys, updateAccount, List.flatMap_map, this]

theorem keys_write (d : Database) (w : DbWrite) :
    (d.write w).keys.Perm (d.keys ++ w.newKeys) := by
  cases w with
  | incDebitSerialisationCounter id =>
      have h := d.keys_updateAccount id (f := incCounter) fun _ => rfl
      simp [write, DbWrite.newKeys, h]
  | setStatus id status =>
      have h := d.keys_updateAccount id (f := fun a => { a with status }) fun _ => rfl
      simp [write, DbWrite.newKeys, h]
  | insertAccount a =>
      simp only [write, keys, DbWrite.newKeys, List.flatMap_append, List.flatMap_singleton,
        List.append_assoc]
      refine List.Perm.append_left _ ?_
      have h := @List.perm_append_comm _ a.keys
        (d.transactions.flatMap Transaction.keys ++ d.ledgerEntries.flatMap LedgerEntry.keys)
      simpa only [List.append_assoc] using h
  | insertTransaction t =>
      simp only [write, keys, DbWrite.newKeys, List.flatMap_append, List.flatMap_singleton,
        List.append_assoc]
      exact (List.perm_append_comm.append_left _).append_left _
  | insertLedgerEntry e => simp [write, keys, DbWrite.newKeys, List.flatMap_append]

end Database

theorem DbWrite.newKeys_subset (w : DbWrite) : ∀ k ∈ w.newKeys, k ∈ w.footprint := by
  cases w <;> simp [newKeys, footprint]

/-- The keys a list of writes adds. -/
def newKeysOf (ws : List DbWrite) : List DbKey := ws.flatMap DbWrite.newKeys

@[simp] theorem newKeysOf_nil : newKeysOf [] = [] := rfl

@[simp] theorem newKeysOf_cons (w : DbWrite) (ws : List DbWrite) :
    newKeysOf (w :: ws) = w.newKeys ++ newKeysOf ws := by
  simp [newKeysOf]

theorem keys_view (d : Database) (ws : List DbWrite) :
    (view d ws).keys.Perm (d.keys ++ newKeysOf ws) := by
  induction ws generalizing d with
  | nil => simp
  | cons w ws ih =>
      refine (ih (d.write w)).trans ?_
      rw [newKeysOf_cons, ← List.append_assoc]
      exact (d.keys_write w).append_right _

theorem mem_keys_view {d : Database} {ws : List DbWrite} {k : DbKey} :
    k ∈ (view d ws).keys ↔ k ∈ d.keys ∨ k ∈ newKeysOf ws := by
  rw [(keys_view d ws).mem_iff, List.mem_append]

section Replay

variable {ν : Type}

/-- The keys in a committed state are those it started with and those its
commits added. -/
theorem mem_keys_replay {d : Database} {log : List (Commit ν DbWrite ObjectId)} {k : DbKey} :
    k ∈ (replay d log).keys ↔ k ∈ d.keys ∨ ∃ c ∈ log, k ∈ newKeysOf c.writes := by
  induction log using List.reverseRecOn with
  | nil => simp
  | append_singleton log c ih =>
      rw [replay_concat, mem_keys_view, ih]
      simp only [List.mem_append, List.mem_singleton, or_and_right, exists_or, exists_eq_left,
        or_assoc]

theorem newKeysOf_subset_footprint {c : Commit ν DbWrite ObjectId} {k : DbKey}
    (h : k ∈ newKeysOf c.writes) : k ∈ c.footprint := by
  obtain ⟨w, hw, hk⟩ := List.mem_flatMap.mp h
  exact List.mem_flatMap.mpr ⟨w, hw, w.newKeys_subset k hk⟩

end Replay

section Inserted

variable {β ν : Type} {documents : Database → List β} {insertion : β → DbWrite} {x : β}
  {d : Database}

/-- The documents of a collection after a list of writes are those before it and those
the writes insert. -/
theorem mem_view_iff (hwrite : ∀ (d : Database) w,
      x ∈ documents (d.write w) ↔ x ∈ documents d ∨ insertion x = w) {ws : List DbWrite} :
    x ∈ documents (view d ws) ↔ x ∈ documents d ∨ insertion x ∈ ws := by
  induction ws generalizing d with
  | nil => simp
  | cons w ws ih =>
      rw [view_cons, ih, List.mem_cons, ← or_assoc]
      exact or_congr_left (hwrite d w)

/-- A document in a committed state was there to start with or was inserted by a
commit. -/
theorem mem_replay_iff (hwrite : ∀ (d : Database) w,
      x ∈ documents (d.write w) ↔ x ∈ documents d ∨ insertion x = w)
    {log : List (Commit ν DbWrite ObjectId)} :
    x ∈ documents (replay d log) ↔ x ∈ documents d ∨ ∃ c ∈ log, insertion x ∈ c.writes := by
  induction log using List.reverseRecOn with
  | nil => simp
  | append_singleton log c ih =>
      rw [replay_concat, mem_view_iff hwrite, ih]
      simp only [List.mem_append, List.mem_singleton, or_and_right, exists_or, exists_eq_left,
        or_assoc]

end Inserted

theorem mem_transactions_write (t : Transaction) (d : Database) (w : DbWrite) :
    t ∈ (d.write w).transactions ↔ t ∈ d.transactions ∨ .insertTransaction t = w := by
  cases w <;> simp [Database.write, Database.updateAccount]

theorem mem_ledgerEntries_write (e : LedgerEntry) (d : Database) (w : DbWrite) :
    e ∈ (d.write w).ledgerEntries ↔ e ∈ d.ledgerEntries ∨ .insertLedgerEntry e = w := by
  cases w <;> simp [Database.write, Database.updateAccount]

theorem mem_transactions_replay {ν : Type} {d : Database}
    {log : List (Commit ν DbWrite ObjectId)} {t : Transaction} :
    t ∈ (replay d log).transactions ↔
      t ∈ d.transactions ∨ ∃ c ∈ log, .insertTransaction t ∈ c.writes :=
  mem_replay_iff (mem_transactions_write t)

theorem mem_ledgerEntries_replay {ν : Type} {d : Database}
    {log : List (Commit ν DbWrite ObjectId)} {e : LedgerEntry} :
    e ∈ (replay d log).ledgerEntries ↔
      e ∈ d.ledgerEntries ∨ ∃ c ∈ log, .insertLedgerEntry e ∈ c.writes :=
  mem_replay_iff (mem_ledgerEntries_write e)

/-- No transaction is ever lost. -/
theorem transactions_since {ν : Type} {d : Database} {log : List (Commit ν DbWrite ObjectId)}
    {n : Nat} {t : Transaction} (h : t ∈ (replay d (log.take n)).transactions) :
    t ∈ (replay d log).transactions := by
  rw [mem_transactions_replay] at h ⊢
  exact h.imp_right fun ⟨c, hc, ht⟩ => ⟨c, List.mem_of_mem_take hc, ht⟩

/-! ### The indexes hold -/

variable {ν ε α : Type}

theorem DbWrite.newKeys_nodup (w : DbWrite) : w.newKeys.Nodup := by
  cases w with
  | insertAccount a =>
      by_cases h : a.accountType = .system <;> simp [newKeys, Account.keys, h]
  | _ => simp [newKeys, Transaction.keys, LedgerEntry.keys]

/-- An attempt keeps the indexes on its own view. -/
theorem keys_nodup_of_progress {d : Database} {body p : Tx Database DbWrite ObjectId ε α}
    {ws : List DbWrite} {ids : List ObjectId} (hd : d.keys.Nodup)
    (h : Progress d body ws ids p) : (view d ws).keys.Nodup := by
  induction h with
  | start => simpa using hd
  | read _ ih => exact ih
  | @write ws ids w k _ _ hclash ih =>
      rw [view_append, view_cons, view_nil]
      refine ((view d ws).keys_write w).nodup_iff.mpr ?_
      refine List.Nodup.append ih w.newKeys_nodup fun k hk hk' => ?_
      exact repeatsKey_eq_false.mp hclash k hk' hk
  | newId _ _ ih => exact ih
  | now _ _ ih => exact ih

variable {S : System ν Database DbWrite ObjectId ε α} {log : List (Commit ν DbWrite ObjectId)}

/-- A key in a committed state was there at an earlier snapshot or was added by
a commit since. -/
theorem mem_keys_since {d : Database} {n : Nat} {k : DbKey} (h : k ∈ (replay d log).keys) :
    k ∈ (replay d (log.take n)).keys ∨ ∃ c ∈ log.drop n, k ∈ newKeysOf c.writes := by
  rw [mem_keys_replay, ← List.take_append_drop n log] at h
  rw [mem_keys_replay]
  rcases h with h | ⟨c, hc, hk⟩
  · exact .inl (.inl h)
  · rcases List.mem_append.mp hc with hc | hc
    · exact .inl (.inr ⟨c, hc, hk⟩)
    · exact .inr ⟨c, hc, hk⟩

/-- A commit adds keys that the state before it does not hold. -/
theorem keys_nodup_of_follows {c : Commit ν DbWrite ObjectId} (h : Follows S log c)
    (hall : ∀ n, (replay S.initial (log.take n)).keys.Nodup) :
    (view (replay S.initial log) c.writes).keys.Nodup := by
  have hlog : (replay S.initial log).keys.Nodup := by simpa using hall log.length
  refine (keys_view _ _).nodup_iff.mpr ?_
  cases h with
  | txn _ _ _ hdisjoint hprog _ =>
      have hview := (keys_view _ _).nodup_iff.mp (keys_nodup_of_progress (hall _) hprog)
      obtain ⟨-, hnew, hfresh⟩ := List.nodup_append'.mp hview
      refine List.Nodup.append hlog hnew fun k hk hk' => ?_
      rcases mem_keys_since hk with hk | ⟨d, hd, hk⟩
      · exact hfresh hk hk'
      · exact hdisjoint d hd (newKeysOf_subset_footprint hk') (newKeysOf_subset_footprint hk)
  | @direct st w _ _ _ hclash _ =>
      rw [newKeysOf_cons, newKeysOf_nil, List.append_nil]
      refine List.Nodup.append hlog w.newKeys_nodup fun k hk hk' => ?_
      exact repeatsKey_eq_false.mp hclash k hk' hk

/-- The unique indexes hold in every committed state. -/
theorem History.keys_nodup (h : History S log) (h₀ : S.initial.keys.Nodup) :
    (replay S.initial log).keys.Nodup := by
  refine h.invariant (P := fun d => d.keys.Nodup) h₀ fun log c _ hc hall => ?_
  rw [replay_concat]
  exact keys_nodup_of_follows hc hall

/-! ### Keys identify documents -/

/-- In a list without repeated keys a key belongs to one element. -/
theorem eq_of_mem_keys {β : Type} {f : β → List DbKey} {l : List β} (h : (l.flatMap f).Nodup)
    {a b : β} (ha : a ∈ l) (hb : b ∈ l) {k : DbKey} (hka : k ∈ f a) (hkb : k ∈ f b) :
    a = b := by
  induction l with
  | nil => simp at ha
  | cons c l ih =>
      rw [List.flatMap_cons] at h
      obtain ⟨-, hl, hdisjoint⟩ := List.nodup_append'.mp h
      have hrest : ∀ x ∈ l, k ∈ f x → k ∈ l.flatMap f :=
        fun x hx hk => List.mem_flatMap.mpr ⟨x, hx, hk⟩
      rcases List.mem_cons.mp ha with rfl | ha'
      · rcases List.mem_cons.mp hb with rfl | hb'
        · rfl
        · exact absurd (hrest b hb' hkb) (hdisjoint hka)
      · rcases List.mem_cons.mp hb with rfl | hb'
        · exact absurd (hrest a ha' hka) (hdisjoint hkb)
        · exact ih hl ha' hb'

/-- One key of each element makes a list without repetitions. -/
theorem nodup_map_of_keys {β : Type} {f : β → List DbKey} {l : List β}
    (h : (l.flatMap f).Nodup) {g : β → DbKey} (hg : ∀ a, g a ∈ f a) : (l.map g).Nodup := by
  induction l with
  | nil => simp
  | cons c l ih =>
      rw [List.flatMap_cons] at h
      obtain ⟨-, hl, hdisjoint⟩ := List.nodup_append'.mp h
      rw [List.map_cons, List.nodup_cons]
      refine ⟨fun hc => ?_, ih hl⟩
      obtain ⟨a, ha, hac⟩ := List.mem_map.mp hc
      exact hdisjoint (hg c) (List.mem_flatMap.mpr ⟨a, ha, hac ▸ hg a⟩)

/-- A list without repetitions that holds one value is a singleton. -/
theorem eq_singleton_of_nodup {β : Type} {l : List β} {a : β} (hl : l.Nodup) (ha : a ∈ l)
    (h : ∀ b ∈ l, b = a) : l = [a] := by
  rw [List.eq_replicate_of_mem h] at hl ⊢
  have hle := List.nodup_replicate.mp hl
  have hpos := List.length_pos_of_mem ha
  rw [show l.length = 1 by omega]
  rfl

namespace Database

variable {d : Database}

theorem account_ids_nodup (h : d.keys.Nodup) : (d.accounts.map (·.id)).Nodup := by
  refine List.Nodup.of_map DbKey.account ?_
  rw [List.map_map]
  exact nodup_map_of_keys (accounts_keys_nodup h) fun a => by simp [Account.keys]

theorem transaction_ids_nodup (h : d.keys.Nodup) : (d.transactions.map (·.id)).Nodup := by
  refine List.Nodup.of_map DbKey.transaction ?_
  rw [List.map_map]
  exact nodup_map_of_keys (transactions_keys_nodup h) fun t => by simp [Transaction.keys]

theorem account_eq (h : d.keys.Nodup) {a b : Account} (ha : a ∈ d.accounts)
    (hb : b ∈ d.accounts) (hid : a.id = b.id) : a = b :=
  eq_of_mem_keys (accounts_keys_nodup h) ha hb (k := .account a.id) (by simp [Account.keys])
    (by simp [Account.keys, hid])

/-- A currency has one SYSTEM account. -/
theorem systemAccount_eq (h : d.keys.Nodup) {a b : Account} (ha : a ∈ d.accounts)
    (hb : b ∈ d.accounts) (hatype : a.accountType = .system) (hbtype : b.accountType = .system)
    (hcurrency : a.currency = b.currency) : a = b :=
  eq_of_mem_keys (accounts_keys_nodup h) ha hb (k := .systemAccount a.currency)
    (by simp [Account.keys, hatype]) (by simp [Account.keys, hbtype, hcurrency])

/-- A transaction is found by its idempotency key. -/
theorem transaction_eq_of_idempotencyKey (h : d.keys.Nodup) {t u : Transaction}
    (ht : t ∈ d.transactions) (hu : u ∈ d.transactions)
    (hkey : t.idempotencyKey = u.idempotencyKey) : t = u :=
  eq_of_mem_keys (transactions_keys_nodup h) ht hu (k := .idempotencyKey t.idempotencyKey)
    (by simp [Transaction.keys]) (by simp [Transaction.keys, hkey])

theorem findAccount_of_mem (h : d.keys.Nodup) {a : Account} (ha : a ∈ d.accounts) :
    d.findAccount a.id = some a := by
  cases hfind : d.findAccount a.id with
  | none => exact absurd (List.find?_eq_none.mp hfind a ha) (by simp)
  | some b =>
      obtain ⟨hb, hid⟩ := findAccount_some hfind
      rw [account_eq h hb ha hid]

end Database

/-! ### What an account keeps -/

/-- The part of an account document that nothing changes. -/
structure Holder where
  ownerId : Option ObjectId
  currency : String
  accountType : AccountType
  deriving Repr, DecidableEq

def Account.holder (a : Account) : Holder := ⟨a.ownerId, a.currency, a.accountType⟩

namespace Database

def holder (d : Database) (id : ObjectId) : Option Holder := (d.findAccount id).map Account.holder

theorem holder_of_findAccount {d : Database} {id : ObjectId} {a : Account}
    (h : d.findAccount id = some a) : d.holder id = some a.holder := by
  rw [holder, h, Option.map_some]

/-- Holders are found exactly for the account documents there are. -/
theorem holder_iff {d : Database} (hd : d.keys.Nodup) {id : ObjectId} {h : Holder} :
    d.holder id = some h ↔ ∃ a ∈ d.accounts, a.id = id ∧ a.holder = h := by
  constructor
  · intro hh
    obtain ⟨a, ha, rfl⟩ := Option.map_eq_some_iff.mp hh
    obtain ⟨hmem, hid⟩ := findAccount_some ha
    exact ⟨a, hmem, hid, rfl⟩
  · intro hheld
    obtain ⟨a, ha, rfl, rfl⟩ := hheld
    exact holder_of_findAccount (findAccount_of_mem hd ha)

theorem findAccount_updateAccount (d : Database) (id id' : ObjectId) {f : Account → Account}
    (hf : ∀ a, (f a).id = a.id) : (d.updateAccount id f).findAccount id' =
      (d.findAccount id').map fun a => if a.id = id then f a else a :=
  findAccount_map (fun a => by split <;> simp [hf]) d.accounts id'

theorem holder_updateAccount (d : Database) (id id' : ObjectId) {f : Account → Account}
    (hid : ∀ a, (f a).id = a.id) (hf : ∀ a, (f a).holder = a.holder) :
    (d.updateAccount id f).holder id' = d.holder id' := by
  rw [holder, holder, findAccount_updateAccount d id id' hid, Option.map_map]
  congr 1
  funext a
  by_cases h : a.id = id <;> simp [h, hf]

/-- Only opening an account changes who holds what. -/
theorem holder_write_eq {d : Database} {w : DbWrite} (hw : ∀ a, w ≠ .insertAccount a)
    (id : ObjectId) : (d.write w).holder id = d.holder id := by
  cases w with
  | incDebitSerialisationCounter id' =>
      exact d.holder_updateAccount id' id (f := incCounter) (fun _ => rfl) fun _ => rfl
  | setStatus id' status =>
      exact d.holder_updateAccount id' id (f := fun a => { a with status })
        (fun _ => rfl) fun _ => rfl
  | insertAccount a => exact absurd rfl (hw a)
  | insertTransaction t => rfl
  | insertLedgerEntry e => rfl

/-- A new account is found where none was. -/
theorem holder_insertAccount (d : Database) (a : Account) (id : ObjectId) :
    (d.write (.insertAccount a)).holder id =
      (d.holder id).or (if a.id = id then some a.holder else none) := by
  show ((d.accounts ++ [a]).find? _).map Account.holder = _
  rw [List.find?_append, holder, findAccount]
  cases d.accounts.find? fun b => b.id = id with
  | some b => rfl
  | none => by_cases h : a.id = id <;> simp [h]

/-- No write takes an account away or changes its holder. -/
theorem holder_write {d : Database} {id : ObjectId} {h : Holder} (w : DbWrite)
    (hd : d.holder id = some h) : (d.write w).holder id = some h := by
  by_cases hw : ∃ a, w = .insertAccount a
  · obtain ⟨a, rfl⟩ := hw
    obtain ⟨b, hb, rfl⟩ := Option.map_eq_some_iff.mp hd
    refine holder_of_findAccount ?_
    simpa [findAccount, write] using .inl hb
  · rw [holder_write_eq (not_exists.mp hw)]
    exact hd

/-- A list of writes that opens no account changes no holder. -/
theorem holder_view_eq {d : Database} {ws : List DbWrite}
    (hws : ∀ w ∈ ws, ∀ a, w ≠ .insertAccount a) (id : ObjectId) :
    (view d ws).holder id = d.holder id := by
  induction ws generalizing d with
  | nil => rfl
  | cons w ws ih =>
      rw [view_cons, ih fun v hv => hws v (List.mem_cons_of_mem w hv)]
      exact holder_write_eq (hws w List.mem_cons_self) id

theorem holder_view {d : Database} {id : ObjectId} {h : Holder} (ws : List DbWrite)
    (hd : d.holder id = some h) : (view d ws).holder id = some h := by
  induction ws generalizing d with
  | nil => exact hd
  | cons w ws ih => exact ih (holder_write w hd)

end Database

/-- An account seen at a snapshot is still there later, with the same holder. -/
theorem holder_since {d : Database} {log : List (Commit ν DbWrite ObjectId)} {n : Nat}
    {id : ObjectId} {h : Holder} (hd : (replay d (log.take n)).holder id = some h) :
    (replay d log).holder id = some h := by
  rw [← List.take_append_drop n log]
  generalize log.drop n = later
  induction later using List.reverseRecOn with
  | nil => simpa using hd
  | append_singleton later c ih =>
      rw [← List.append_assoc, replay_concat]
      exact Database.holder_view _ ih

end Ledgerlock
