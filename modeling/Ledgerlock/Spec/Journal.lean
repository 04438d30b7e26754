import Ledgerlock.Bookkeeping.Journal
import Ledgerlock.Deployment
import Ledgerlock.Spec.Indexes
import Ledgerlock.Spec.Judge
import Mathlib.Algebra.Order.Ring.Int

/-!
# Ledgerlock.Spec.Journal

What the three collections are for: a **journal** of double-entry postings.

A `Posting` is one accepted transfer; a database `Represents` a journal when its
transactions are the postings' headers, its entries are the postings' pairs, both
in order, and the accounts are good for it. This is the invariant of the ledger:
the initial database represents the empty journal, a transfer that commits adds
one posting, and nothing else a run does touches the journal.
-/

namespace Ledgerlock

open Mvcc

/-- A transfer that was written: two different accounts and a positive amount. -/
structure Posting where
  args : TransferArgs
  stamp : Stamp
  distinct : args.sourceAccountId ≠ args.destinationAccountId
  amount_pos : 0 < args.amountMinor

namespace Posting

def header (p : Posting) : Transaction := p.stamp.header p.args

def debit (p : Posting) : LedgerEntry := p.stamp.debit p.args

def credit (p : Posting) : LedgerEntry := p.stamp.credit p.args

def entries (p : Posting) : List LedgerEntry := [p.debit, p.credit]

/-- The posting as a transfer between accounts. -/
def transfer (p : Posting) : Bookkeeping.Transfer ObjectId Int where
  source := p.args.sourceAccountId
  destination := p.args.destinationAccountId
  amount := p.args.amountMinor
  distinct := p.distinct
  pos := p.amount_pos

end Posting

/-- The balance of an account according to a journal. -/
def journalBalance (journal : List Posting) (accountId : ObjectId) : Int :=
  Bookkeeping.balance (journal.map Posting.transfer) accountId

/-- A database that is the record of a journal. -/
structure Represents (d : Database) (journal : List Posting) : Prop where
  transactions : d.transactions = journal.map Posting.header
  entries : d.ledgerEntries = journal.flatMap Posting.entries
  keys : d.keys.Nodup
  source : ∀ p ∈ journal, ∃ h, d.holder p.args.sourceAccountId = some h ∧
    h.currency = p.args.currency
  destination : ∀ p ∈ journal, ∃ h, d.holder p.args.destinationAccountId = some h ∧
    h.currency = p.args.currency
  solvent : ∀ id h, d.holder id = some h → h.accountType = .user → 0 ≤ d.balance id

/-! ### Balances -/

/-- The pair of a posting is worth what the posting is. -/
theorem Posting.sum_entries (p : Posting) (id : ObjectId) :
    ((p.entries.filter fun e => e.accountId = id).map (·.signedAmountMinor)).sum =
      p.transfer.effect id := by
  by_cases hs : p.args.sourceAccountId = id
  · have hd : p.args.destinationAccountId ≠ id := fun h => p.distinct (hs.trans h.symm)
    simp [entries, debit, credit, Stamp.debit, Stamp.credit, transfer,
      Bookkeeping.Transfer.effect, hs, hd]
  · have hs' : id ≠ p.args.sourceAccountId := Ne.symm hs
    by_cases hd : p.args.destinationAccountId = id
    · simp [entries, debit, credit, Stamp.debit, Stamp.credit, transfer,
        Bookkeeping.Transfer.effect, hs, hd, hs']
    · simp [entries, debit, credit, Stamp.debit, Stamp.credit, transfer,
        Bookkeeping.Transfer.effect, hs, hd, hs', Ne.symm hd]

/-- Summing the signed entries of an account is reading its balance off the
journal. -/
theorem balance_of_entries {d : Database} {journal : List Posting}
    (h : d.ledgerEntries = journal.flatMap Posting.entries) (id : ObjectId) :
    d.balance id = journalBalance journal id := by
  rw [Database.balance, Database.entriesOf, h, journalBalance]
  clear h
  induction journal with
  | nil => rfl
  | cons p journal ih =>
      rw [List.flatMap_cons, List.filter_append, List.map_append, List.sum_append, ih,
        List.map_cons, Bookkeeping.balance_cons, p.sum_entries]

theorem Represents.balance {d : Database} {journal : List Posting} (h : Represents d journal)
    (id : ObjectId) : d.balance id = journalBalance journal id :=
  balance_of_entries h.entries id

theorem Deployment.opening_represents (D : Deployment ν) : Represents D.opening [] where
  transactions := rfl
  entries := rfl
  keys := D.opening_keys
  source := by simp
  destination := by simp
  solvent := by simp [opening, Database.balance, Database.entriesOf]

/-! ### One commit -/

/-- Writing a transfer appends its header and its pair. -/
theorem transferWrites_view (d : Database) (source : Account) (args : TransferArgs) (x : Stamp) :
    (view d (transferWrites source args x)).transactions = d.transactions ++ [x.header args] ∧
      (view d (transferWrites source args x)).ledgerEntries =
        d.ledgerEntries ++ [x.debit args, x.credit args] := by
  obtain ⟨ht, he⟩ := lockWrites_view d source
  simp only [transferWrites, view_append, view_cons, view_nil]
  constructor
  · rw [← ht]
    rfl
  · rw [← he]
    exact List.append_assoc _ [_] [_]

/-- A transfer is worth to each account what its posting is. -/
theorem balance_transferWrites (d : Database) (p : Posting) (source : Account) (id : ObjectId) :
    (view d (transferWrites source p.args p.stamp)).balance id =
      d.balance id + p.transfer.effect id := by
  have he : (view d (transferWrites source p.args p.stamp)).ledgerEntries =
      d.ledgerEntries ++ p.entries := (transferWrites_view d source p.args p.stamp).2
  rw [Database.balance, Database.entriesOf, he, List.filter_append, List.map_append,
    List.sum_append, p.sum_entries]
  rfl

/-- A transfer opens no account. -/
theorem not_insertAccount_transferWrites {source : Account} {args : TransferArgs} {x : Stamp}
    {w : DbWrite} (hw : w ∈ transferWrites source args x) (a : Account) :
    w ≠ .insertAccount a := by
  intro hinsert
  subst hinsert
  rcases List.mem_append.mp hw with hw | hw
  · unfold lockWrites at hw
    split at hw <;> simp at hw
  · simp at hw

/-- A transfer changes no account but by its counter. -/
theorem transferWrites_holder (d : Database) (source : Account) (args : TransferArgs)
    (x : Stamp) (id : ObjectId) :
    (view d (transferWrites source args x)).holder id = d.holder id :=
  Database.holder_view_eq (fun _ => not_insertAccount_transferWrites) id

/-- The accounts are good for a transfer: everything an accepted transfer was
checked for, except the status of the accounts. -/
structure GoodFor (d : Database) (args : TransferArgs) : Prop where
  newKey : ∀ t ∈ d.transactions, t.idempotencyKey ≠ args.idempotencyKey
  source : ∃ h, d.holder args.sourceAccountId = some h ∧ h.currency = args.currency ∧
    (h.accountType = .user → args.amountMinor ≤ d.balance args.sourceAccountId)
  destination : ∃ h, d.holder args.destinationAccountId = some h ∧ h.currency = args.currency

/-- A transfer that the accounts are good for adds one posting to the journal. -/
theorem Represents.post {d : Database} {journal : List Posting} (hd : Represents d journal)
    (p : Posting) {source : Account} (hgood : GoodFor d p.args)
    (hkeys : (view d (transferWrites source p.args p.stamp)).keys.Nodup) :
    Represents (view d (transferWrites source p.args p.stamp)) (journal ++ [p]) := by
  obtain ⟨ht, he⟩ := transferWrites_view d source p.args p.stamp
  have hholder := transferWrites_holder d source p.args p.stamp
  have hentries : (view d (transferWrites source p.args p.stamp)).ledgerEntries =
      (journal ++ [p]).flatMap Posting.entries := by
    rw [he, hd.entries, List.flatMap_append, List.flatMap_singleton]
    rfl
  obtain ⟨hs, hsfound, hscurrency, hfunds⟩ := hgood.source
  refine ⟨?_, hentries, hkeys, fun q hq => ?_, fun q hq => ?_, fun id h hh huser => ?_⟩
  · rw [ht, hd.transactions, List.map_append]
    rfl
  · rw [hholder]
    rcases List.mem_append.mp hq with hq | hq
    · exact hd.source q hq
    · rw [List.mem_singleton.mp hq]
      exact ⟨hs, hsfound, hscurrency⟩
  · rw [hholder]
    rcases List.mem_append.mp hq with hq | hq
    · exact hd.destination q hq
    · rw [List.mem_singleton.mp hq]
      exact hgood.destination
  · rw [hholder] at hh
    have hbalance := hd.balance id
    rw [balance_of_entries hentries, journalBalance, List.map_append, List.map_singleton]
    refine Bookkeeping.balance_concat_nonneg ?_ fun hid => ?_
    · exact (hd.solvent id h hh huser).trans_eq hbalance
    · -- the source was good for the amount
      obtain rfl : id = p.args.sourceAccountId := hid
      obtain rfl : h = hs := by simpa [hh] using hsfound
      exact (hfunds huser).trans_eq hbalance

/-- A write to `accounts` leaves the other collections as they are. -/
theorem accountWrite_rest {w : DbWrite} (hw : AccountWrite w) (d : Database) :
    (d.write w).transactions = d.transactions ∧
      (d.write w).ledgerEntries = d.ledgerEntries := by
  rcases hw.cases_write with ⟨a, rfl⟩ | ⟨id, status, rfl⟩ <;> exact ⟨rfl, rfl⟩

theorem accountWrite_balance {w : DbWrite} (hw : AccountWrite w) (d : Database)
    (id : ObjectId) : (d.write w).balance id = d.balance id := by
  simp only [Database.balance, Database.entriesOf, (accountWrite_rest hw d).2]

/-- A write to `accounts` leaves the journal as it is. -/
theorem Represents.accountWrite {d : Database} {journal : List Posting}
    (hd : Represents d journal) {w : DbWrite} (hw : AccountWrite w)
    (hclash : w.repeatsKey d = false) : Represents (d.write w) journal := by
  have hkeys : (d.write w).keys.Nodup := by
    refine (d.keys_write w).nodup_iff.mpr ?_
    refine List.Nodup.append hd.keys w.newKeys_nodup fun k hk hk' => ?_
    exact repeatsKey_eq_false.mp hclash k hk' hk
  have hholder : ∀ id h, d.holder id = some h → (d.write w).holder id = some h :=
    fun id h => Database.holder_write w
  have hrest := accountWrite_rest hw d
  refine ⟨hrest.1.trans hd.transactions, hrest.2.trans hd.entries, hkeys, fun p hp => ?_,
    fun p hp => ?_, fun id h hh huser => ?_⟩
  · obtain ⟨h, hh, hc⟩ := hd.source p hp
    exact ⟨h, hholder _ _ hh, hc⟩
  · obtain ⟨h, hh, hc⟩ := hd.destination p hp
    exact ⟨h, hholder _ _ hh, hc⟩
  · rw [accountWrite_balance hw]
    cases hid : d.holder id with
    | some h' =>
        obtain rfl : h' = h := by simpa [hholder _ _ hid] using hh
        exact hd.solvent id h' hid huser
    | none =>
        -- a new account takes no part in the journal
        rw [hd.balance, journalBalance, Bookkeeping.balance_eq_zero]
        intro t ht
        obtain ⟨p, hp, rfl⟩ := List.mem_map.mp ht
        obtain ⟨hs, hsource, -⟩ := hd.source p hp
        obtain ⟨hd', hdestination, -⟩ := hd.destination p hp
        constructor
        · intro heq
          subst heq
          exact absurd (hid.symm.trans hsource) (by simp)
        · intro heq
          subst heq
          exact absurd (hid.symm.trans hdestination) (by simp)

end Ledgerlock
