import Ledgerlock.Errors
import Ledgerlock.Mvcc.Program
import Mathlib.Algebra.Ring.Int.Defs

/-!
# Ledgerlock.Db

The database of `app/core/db.py`: the three collections the ledger lives in,
the writes the application makes to them, and what the server enforces by
itself, namely the collection validators and the unique indexes. The instance
`DocStore DbWrite` hands these to the transaction library.

Integers are stored in 64 bits, so a value outside `FitsLong` cannot be encoded
at all, and the server's `$sum` is exact only while the result fits
(`ServerSum`): beyond that it becomes a double. The model takes the accumulator
as a parameter with just that promise.
-/

namespace Ledgerlock

/-! ### Integers in the database -/

/-- The value has a 64-bit representation. -/
def FitsLong (n : Int) : Prop := -9223372036854775808 ≤ n ∧ n ≤ 9223372036854775807

instance (n : Int) : Decidable (FitsLong n) := inferInstanceAs (Decidable (_ ∧ _))

/-- The server's `$sum` over int and long values: exact while the sum fits, and
otherwise some value on the same side of the representable range. -/
class ServerSum where
  sum : List Int → Int
  sum_of_fits : ∀ xs : List Int, FitsLong xs.sum → sum xs = xs.sum
  lt_sum_of_lt : ∀ xs : List Int, 9223372036854775807 < xs.sum → 9223372036854775807 < sum xs
  sum_le_of_lt : ∀ xs : List Int, xs.sum < -9223372036854775808 → sum xs ≤ -9223372036854775808

namespace ServerSum

/-- Sums taken as exact integers, whatever their size. -/
@[reducible] def exact : ServerSum where
  sum xs := xs.sum
  sum_of_fits _ _ := rfl
  lt_sum_of_lt _ h := h
  sum_le_of_lt _ h := h.le

/-- The magnitude with 53 significant bits next to `n`, the even one of two that are
as near. -/
def roundMagnitude (n : Nat) : Nat :=
  let unit := 2 ^ (n.log2 - 52)
  let below := n / unit
  let rest := n % unit
  if unit < 2 * rest ∨ unit = 2 * rest ∧ below % 2 = 1 then (below + 1) * unit else below * unit

/-- Rounding does not fall below the leading bit. -/
theorem le_roundMagnitude {n k : Nat} (h : 2 ^ k ≤ n) : 2 ^ k ≤ roundMagnitude n := by
  have hne : n ≠ 0 := (Nat.lt_of_lt_of_le (Nat.two_pow_pos k) h).ne'
  have hlead : 2 ^ n.log2 ≤ n / 2 ^ (n.log2 - 52) * 2 ^ (n.log2 - 52) := by
    have hdvd : 2 ^ (n.log2 - 52) ∣ 2 ^ n.log2 := Nat.pow_dvd_pow 2 (Nat.sub_le _ _)
    calc 2 ^ n.log2 = 2 ^ n.log2 / 2 ^ (n.log2 - 52) * 2 ^ (n.log2 - 52) :=
          (Nat.div_mul_cancel hdvd).symm
      _ ≤ n / 2 ^ (n.log2 - 52) * 2 ^ (n.log2 - 52) :=
          Nat.mul_le_mul_right _ (Nat.div_le_div_right (Nat.log2_self_le hne))
  have hk : 2 ^ k ≤ 2 ^ n.log2 :=
    Nat.pow_le_pow_right (by decide) ((Nat.le_log2 hne).mpr h)
  simp only [roundMagnitude]
  split
  · exact (hk.trans hlead).trans (Nat.mul_le_mul_right _ (Nat.le_succ _))
  · exact hk.trans hlead

/-- The integer itself where it fits, and otherwise a double. -/
def toLongOrDouble (n : Int) : Int :=
  if FitsLong n then n else n.sign * roundMagnitude n.natAbs

theorem lt_toLongOrDouble {n : Int} (h : 9223372036854775807 < n) :
    9223372036854775807 < toLongOrDouble n := by
  have hround := le_roundMagnitude (n := n.natAbs) (k := 63) (by omega)
  rw [toLongOrDouble, if_neg fun hfits => absurd hfits.2 (by omega),
    Int.sign_eq_one_of_pos (by omega)]
  omega

theorem toLongOrDouble_le {n : Int} (h : n < -9223372036854775808) :
    toLongOrDouble n ≤ -9223372036854775808 := by
  have hround := le_roundMagnitude (n := n.natAbs) (k := 63) (by omega)
  rw [toLongOrDouble, if_neg fun hfits => absurd hfits.1 (by omega),
    Int.sign_eq_neg_one_of_neg (by omega)]
  omega

/-- Sums that become a double where they do not fit. -/
@[reducible] def double : ServerSum where
  sum xs := toLongOrDouble xs.sum
  sum_of_fits _ h := if_pos h
  lt_sum_of_lt _ h := lt_toLongOrDouble h
  sum_le_of_lt _ h := toLongOrDouble_le h

variable [ServerSum]

@[simp] theorem sum_nil : sum [] = 0 := sum_of_fits [] (by decide)

/-- The sum is exact, or both are beyond the range on the same side. -/
theorem sum_cases (xs : List Int) : sum xs = xs.sum ∨
    9223372036854775807 < xs.sum ∧ 9223372036854775807 < sum xs ∨
    xs.sum < -9223372036854775808 ∧ sum xs ≤ -9223372036854775808 := by
  rcases Int.lt_or_le 9223372036854775807 xs.sum with h | h
  · exact .inr (.inl ⟨h, lt_sum_of_lt xs h⟩)
  rcases Int.lt_or_le xs.sum (-9223372036854775808) with h' | h'
  · exact .inr (.inr ⟨h', sum_le_of_lt xs h'⟩)
  · exact .inl (sum_of_fits xs ⟨h', h⟩)

/-- Comparing a sum with a storable amount is exact, even when the sum is not. -/
theorem sum_lt_iff {xs : List Int} {n : Int} (hn : 0 ≤ n) (hfits : FitsLong n) :
    sum xs < n ↔ xs.sum < n := by
  obtain ⟨-, hle⟩ := hfits
  have := sum_cases xs
  omega

/-- A sum is reported as zero only when it is zero. -/
theorem sum_eq_zero_iff {xs : List Int} : sum xs = 0 ↔ xs.sum = 0 := by
  have := sum_cases xs
  omega

/-- A sum is reported as negative only when it is negative. -/
theorem sum_neg_iff {xs : List Int} : sum xs < 0 ↔ xs.sum < 0 :=
  sum_lt_iff le_rfl (by decide)

end ServerSum

/-! ### Collections and writes -/

structure Database where
  accounts : List Account
  transactions : List Transaction
  ledgerEntries : List LedgerEntry
  deriving Repr, DecidableEq

/-- The writes the application and its operators make. -/
inductive DbWrite
  /-- `$inc` of `debit_serialisation_counter` on one account. -/
  | incDebitSerialisationCounter (accountId : ObjectId)
  /-- `$set` of `status` on one account, by an operator. -/
  | setStatus (accountId : ObjectId) (status : AccountStatus)
  | insertAccount (account : Account)
  | insertTransaction (transaction : Transaction)
  | insertLedgerEntry (entry : LedgerEntry)
  deriving Repr, DecidableEq

/-- What a write locks: the document, and the entries it makes in unique
indexes. -/
inductive DbKey
  | account (id : ObjectId)
  | transaction (id : ObjectId)
  | ledgerEntry (id : ObjectId)
  /-- `uq_system_account_per_currency` -/
  | systemAccount (currency : String)
  /-- `uq_idempotency_key` -/
  | idempotencyKey (key : String)
  /-- `uq_one_entry_per_direction_per_transaction` -/
  | entryPerDirection (transactionId : ObjectId) (direction : EntryDirection)
  deriving Repr, DecidableEq

/-- The ids a key is made of. -/
def DbKey.ids : DbKey → List ObjectId
  | .account id | .transaction id | .ledgerEntry id | .entryPerDirection id _ => [id]
  | .systemAccount _ | .idempotencyKey _ => []

namespace Database

/-- `accounts.find_one({"_id": id})` -/
def findAccount (d : Database) (id : ObjectId) : Option Account :=
  d.accounts.find? fun a => a.id = id

/-- `transactions.find_one({"idempotency_key": key})` -/
def findByIdempotencyKey (d : Database) (key : String) : Option Transaction :=
  d.transactions.find? fun t => t.idempotencyKey = key

/-- `accounts.update_one({"_id": id}, ...)`; the `_id` index makes the match
unique. -/
def updateAccount (d : Database) (id : ObjectId) (f : Account → Account) : Database :=
  { d with accounts := d.accounts.map fun a => if a.id = id then f a else a }

def incCounter (a : Account) : Account :=
  { a with debitSerialisationCounter := some (a.debitSerialisationCounter.getD 0 + 1) }

/-- The effect of one write. -/
def write (d : Database) : DbWrite → Database
  | .incDebitSerialisationCounter id => d.updateAccount id incCounter
  | .setStatus id status => d.updateAccount id fun a => { a with status }
  | .insertAccount a => { d with accounts := d.accounts ++ [a] }
  | .insertTransaction t => { d with transactions := d.transactions ++ [t] }
  | .insertLedgerEntry e => { d with ledgerEntries := d.ledgerEntries ++ [e] }

end Database

/-! ### Collection validators -/

/-- The server's reading of the pattern `^[A-Z]{3}$`, whose `$` also matches in
front of a final newline. -/
def matchesCurrencyPattern (s : String) : Bool :=
  decide (3 ≤ s.toList.length) && (s.toList.take 3).all isUpperAscii
    && (s.toList.drop 3 == [] || s.toList.drop 3 == [Char.ofNat 10])

/-- `_ledger_entry_validator`: the shape the fields' types leave open, and the
sign convention. -/
def ledgerEntryValidator (e : LedgerEntry) : Bool :=
  decide (FitsLong e.amountMinor) && decide (1 ≤ e.amountMinor)
    && decide (FitsLong e.signedAmountMinor) && matchesCurrencyPattern e.currency
    && decide (e.signedAmountMinor =
        if e.direction = .credit then e.amountMinor else e.amountMinor * -1)

/-- `_transaction_validator`. -/
def transactionValidator (t : Transaction) : Bool :=
  decide (8 ≤ t.idempotencyKey.toList.length) && decide (t.idempotencyKey.toList.length ≤ 128)
    && decide (FitsLong t.amountMinor) && decide (1 ≤ t.amountMinor)
    && matchesCurrencyPattern t.currency
    && decide (t.description.toList.length ≤ maxDescriptionLength)

theorem ledgerEntryValidator_iff {e : LedgerEntry} : ledgerEntryValidator e = true ↔
    FitsLong e.amountMinor ∧ 1 ≤ e.amountMinor ∧ FitsLong e.signedAmountMinor ∧
      matchesCurrencyPattern e.currency = true ∧
      e.signedAmountMinor = if e.direction = .credit then e.amountMinor else -e.amountMinor := by
  simp [ledgerEntryValidator, and_assoc]

/-- The server's pattern is the weaker one. -/
theorem matchesCurrencyPattern_of_isCurrencyCode {s : String} (h : isCurrencyCode s = true) :
    matchesCurrencyPattern s = true := by
  simp only [isCurrencyCode, Bool.and_eq_true, beq_iff_eq] at h
  simp [matchesCurrencyPattern, h.1.ge, h.1.le, List.take_of_length_le, List.drop_of_length_le,
    h.2]

theorem transactionValidator_iff {t : Transaction} : transactionValidator t = true ↔
    8 ≤ t.idempotencyKey.toList.length ∧ t.idempotencyKey.toList.length ≤ 128 ∧
      FitsLong t.amountMinor ∧ 1 ≤ t.amountMinor ∧
      matchesCurrencyPattern t.currency = true ∧
      t.description.toList.length ≤ maxDescriptionLength := by
  simp [transactionValidator, and_assoc]

/-- The validator of the collection a write goes to. `accounts` has none. -/
def DbWrite.accepted : DbWrite → Bool
  | .insertTransaction t => transactionValidator t
  | .insertLedgerEntry e => ledgerEntryValidator e
  | _ => true

/-! ### Unique indexes -/

/-- The keys an account occupies in the unique indexes of `accounts`. -/
def Account.keys (a : Account) : List DbKey :=
  .account a.id :: if a.accountType = .system then [.systemAccount a.currency] else []

def Transaction.keys (t : Transaction) : List DbKey :=
  [.transaction t.id, .idempotencyKey t.idempotencyKey]

def LedgerEntry.keys (e : LedgerEntry) : List DbKey :=
  [.ledgerEntry e.id, .entryPerDirection e.transactionId e.direction]

/-- Every key the unique indexes hold. -/
def Database.keys (d : Database) : List DbKey :=
  d.accounts.flatMap Account.keys ++ d.transactions.flatMap Transaction.keys
    ++ d.ledgerEntries.flatMap LedgerEntry.keys

namespace DbWrite

/-- The keys a write adds to the unique indexes. -/
def newKeys : DbWrite → List DbKey
  | insertAccount a => a.keys
  | insertTransaction t => t.keys
  | insertLedgerEntry e => e.keys
  | _ => []

/-- The documents and index entries a write locks. -/
def footprint : DbWrite → List DbKey
  | incDebitSerialisationCounter id => [.account id]
  | setStatus id _ => [.account id]
  | w => w.newKeys

def creates : DbWrite → List ObjectId
  | insertAccount a => [a.id]
  | insertTransaction t => [t.id]
  | insertLedgerEntry e => [e.id]
  | _ => []

/-- Does a unique index hold one of the new keys already? -/
def repeatsKey (d : Database) (w : DbWrite) : Bool :=
  w.newKeys.any fun k => decide (k ∈ d.keys)

end DbWrite

instance : Mvcc.DocStore DbWrite Database DbKey ObjectId where
  apply := Database.write
  footprint := DbWrite.footprint
  creates := DbWrite.creates
  accepts := DbWrite.accepted
  clashes := DbWrite.repeatsKey

theorem repeatsKey_eq_false {d : Database} {w : DbWrite} :
    w.repeatsKey d = false ↔ ∀ k ∈ w.newKeys, k ∉ d.keys := by
  simp [DbWrite.repeatsKey]

theorem repeatsKey_eq_true {d : Database} {w : DbWrite} :
    w.repeatsKey d = true ↔ ∃ k ∈ w.newKeys, k ∈ d.keys := by
  simp [DbWrite.repeatsKey]

/-! ### What a write changes -/

namespace Database

variable (d : Database)

@[simp] theorem updateAccount_transactions (id : ObjectId) (f : Account → Account) :
    (d.updateAccount id f).transactions = d.transactions := rfl

@[simp] theorem updateAccount_ledgerEntries (id : ObjectId) (f : Account → Account) :
    (d.updateAccount id f).ledgerEntries = d.ledgerEntries := rfl

variable {d}

theorem findAccount_some {id : ObjectId} {a : Account} (h : d.findAccount id = some a) :
    a ∈ d.accounts ∧ a.id = id :=
  ⟨List.mem_of_find?_eq_some h, by simpa using List.find?_some h⟩

theorem findByIdempotencyKey_some {key : String} {t : Transaction}
    (h : d.findByIdempotencyKey key = some t) :
    t ∈ d.transactions ∧ t.idempotencyKey = key :=
  ⟨List.mem_of_find?_eq_some h, by simpa using List.find?_some h⟩

theorem findByIdempotencyKey_eq_none {key : String} :
    d.findByIdempotencyKey key = none ↔ ∀ t ∈ d.transactions, t.idempotencyKey ≠ key := by
  simp [findByIdempotencyKey]

/-- Updating accounts in place, ids untouched, is seen by a lookup as the update
of the document found. -/
theorem findAccount_map {f : Account → Account} (hf : ∀ a, (f a).id = a.id)
    (accounts : List Account) (id : ObjectId) :
    (accounts.map f).find? (fun a => a.id = id) =
      (accounts.find? (fun a => a.id = id)).map f := by
  induction accounts with
  | nil => rfl
  | cons a rest ih =>
      by_cases h : a.id = id
      · simp [h, hf]
      · simp [h, hf, ih]

theorem accounts_keys_nodup (h : d.keys.Nodup) : (d.accounts.flatMap Account.keys).Nodup :=
  (List.nodup_append.mp (List.nodup_append.mp h).1).1

theorem transactions_keys_nodup (h : d.keys.Nodup) :
    (d.transactions.flatMap Transaction.keys).Nodup :=
  (List.nodup_append.mp (List.nodup_append.mp h).1).2.1

theorem ledgerEntries_keys_nodup (h : d.keys.Nodup) :
    (d.ledgerEntries.flatMap LedgerEntry.keys).Nodup :=
  (List.nodup_append.mp h).2.1

theorem mem_keys {k : DbKey} : k ∈ d.keys ↔ (∃ a ∈ d.accounts, k ∈ a.keys) ∨
    (∃ t ∈ d.transactions, k ∈ t.keys) ∨ ∃ e ∈ d.ledgerEntries, k ∈ e.keys := by
  simp only [keys, List.mem_append, List.mem_flatMap, or_assoc]

theorem mem_keys_idempotencyKey {key : String} :
    DbKey.idempotencyKey key ∈ d.keys ↔ ∃ t ∈ d.transactions, t.idempotencyKey = key := by
  rw [mem_keys]
  constructor
  · intro hheld
    rcases hheld with ⟨a, -, ha⟩ | ⟨t, ht, hk⟩ | ⟨e, -, he⟩
    · simp [Account.keys] at ha
    · exact ⟨t, ht, by simpa [Transaction.keys, eq_comm] using hk⟩
    · simp [LedgerEntry.keys] at he
  · intro hheld
    obtain ⟨t, ht, rfl⟩ := hheld
    exact .inr (.inl ⟨t, ht, by simp [Transaction.keys]⟩)

end Database

end Ledgerlock
