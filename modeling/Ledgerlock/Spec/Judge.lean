import Ledgerlock.Services.Ledger

/-!
# Ledgerlock.Spec.Judge

What one attempt of a transfer comes to on the snapshot it runs on.

`judge d args` is the decision as a function of the database state alone: the
rejection `applyTransfer` raises on `d`, or the source account of a transfer it
accepts. `transferWrites` is what it then writes, given the ids and clock
readings it drew (`Stamp`). `applyTransfer_wp` connects the two to the program,
and is the only place downstream proofs need the program's text for.
-/

namespace Ledgerlock

open Mvcc (Tx Post)

/-- The ids and clock readings one attempt draws. -/
structure Stamp where
  transactionId : ObjectId
  debitEntryId : ObjectId
  creditEntryId : ObjectId
  createdAt : Timestamp
  debitedAt : Timestamp
  creditedAt : Timestamp

namespace Stamp

def ids (x : Stamp) : List ObjectId := [x.transactionId, x.debitEntryId, x.creditEntryId]

/-- The header of the transfer. -/
def header (x : Stamp) (args : TransferArgs) : Transaction :=
  (transactionDocument args x.createdAt).toBson x.transactionId

/-- The entry on the source account. -/
def debit (x : Stamp) (args : TransferArgs) : LedgerEntry where
  id := x.debitEntryId
  transactionId := x.transactionId
  accountId := args.sourceAccountId
  direction := .debit
  amountMinor := args.amountMinor
  signedAmountMinor := -args.amountMinor
  currency := args.currency
  createdAt := x.debitedAt

/-- The entry on the destination account. -/
def credit (x : Stamp) (args : TransferArgs) : LedgerEntry where
  id := x.creditEntryId
  transactionId := x.transactionId
  accountId := args.destinationAccountId
  direction := .credit
  amountMinor := args.amountMinor
  signedAmountMinor := args.amountMinor
  currency := args.currency
  createdAt := x.creditedAt

end Stamp

/-- The write that serialises debits of a USER account. -/
def lockWrites (source : Account) : List DbWrite :=
  if source.accountType = .user then [.incDebitSerialisationCounter source.id] else []

/-- Everything an accepted transfer writes, in order. -/
def transferWrites (source : Account) (args : TransferArgs) (x : Stamp) : List DbWrite :=
  lockWrites source ++ [.insertTransaction (x.header args), .insertLedgerEntry (x.debit args),
    .insertLedgerEntry (x.credit args)]

/-- A transfer inserts its header. -/
theorem eq_header_of_mem {source : Account} {args : TransferArgs} {x : Stamp} {t : Transaction}
    (h : .insertTransaction t ∈ transferWrites source args x) : t = x.header args := by
  unfold transferWrites lockWrites at h
  split at h <;> simpa using h

/-- A transfer inserts its pair of entries. -/
theorem mem_transferWrites {source : Account} {args : TransferArgs} {x : Stamp}
    {e : LedgerEntry} : DbWrite.insertLedgerEntry e ∈ transferWrites source args x ↔
      e = x.debit args ∨ e = x.credit args := by
  unfold transferWrites lockWrites
  split <;> simp

section Decision

variable [ServerSum]

/-- The decision on the state `d`, in the order the source makes its checks. -/
def judge (d : Database) (args : TransferArgs) : Except Raised Account :=
  match d.findByIdempotencyKey args.idempotencyKey with
  | some existing =>
      .error (.ledgerlock (.duplicateSubmission args.idempotencyKey (.preCheck existing.id)))
  | none =>
    match validateParticipants (d.findAccount args.sourceAccountId)
        (d.findAccount args.destinationAccountId) args.sourceAccountId
        args.destinationAccountId args.currency with
    | .error e => .error (.ledgerlock e)
    | .ok () =>
      match d.findAccount args.sourceAccountId with
      | none => .error (.python .assertionError)
      | some source =>
        let balance := (computeBalance d args.sourceAccountId).balanceMinor
        if source.accountType = .user ∧ balance < args.amountMinor then
          .error (.ledgerlock (.insufficientFunds args.sourceAccountId balance args.amountMinor
            (args.amountMinor - balance)))
        else if (transactionDocument args 0).refusedFields ≠ [] then
          .error (.python (.validationError (transactionDocument args 0).refusedFields))
        else if ¬ FitsLong args.amountMinor then .error (.python .overflowError)
        else .ok source

/-- What a state that accepts a transfer satisfies. -/
structure Accepts (d : Database) (args : TransferArgs) (source destination : Account) :
    Prop where
  newKey : ∀ t ∈ d.transactions, t.idempotencyKey ≠ args.idempotencyKey
  sourceFound : d.findAccount args.sourceAccountId = some source
  destinationFound : d.findAccount args.destinationAccountId = some destination
  sourceActive : source.status = .active
  destinationActive : destination.status = .active
  sourceCurrency : source.currency = args.currency
  destinationCurrency : destination.currency = args.currency
  funds : source.accountType = .user → args.amountMinor ≤ d.balance args.sourceAccountId
  goodKey : isIdempotencyKey args.idempotencyKey = true
  amount_pos : 0 < args.amountMinor
  goodCurrency : isCurrencyCode args.currency = true
  goodDescription : args.description.toList.length ≤ maxDescriptionLength
  amount_fits : FitsLong args.amountMinor

/-- A transfer is accepted exactly when every check passes; the sufficiency
check is about the exact balance, whatever the server's sums do. -/
theorem judge_eq_ok {d : Database} {args : TransferArgs} {source : Account} :
    judge d args = .ok source ↔ ∃ destination, Accepts d args source destination := by
  unfold judge
  cases hkey : d.findByIdempotencyKey args.idempotencyKey with
  | some t =>
      obtain ⟨ht, htk⟩ := Database.findByIdempotencyKey_some hkey
      simp only [reduceCtorEq, false_iff, not_exists]
      exact fun _ h => h.newKey t ht htk
  | none =>
    have hnew := Database.findByIdempotencyKey_eq_none.mp hkey
    cases hpart : validateParticipants (d.findAccount args.sourceAccountId)
        (d.findAccount args.destinationAccountId) args.sourceAccountId
        args.destinationAccountId args.currency with
    | error e =>
        simp only [reduceCtorEq, false_iff, not_exists]
        intro dst h
        have : validateParticipants (d.findAccount args.sourceAccountId)
            (d.findAccount args.destinationAccountId) args.sourceAccountId
            args.destinationAccountId args.currency = .ok () :=
          validateParticipants_eq_ok.mpr ⟨source, dst, h.sourceFound, h.destinationFound,
            h.sourceActive, h.destinationActive, h.sourceCurrency, h.destinationCurrency⟩
        rw [this] at hpart
        cases hpart
    | ok u =>
        obtain ⟨s, dst, hs, hd, hsa, hda, hsc, hdc⟩ := validateParticipants_eq_ok.mp hpart
        have hrefused := TransactionDocument.refusedFields_eq_nil (d := transactionDocument args 0)
        simp only [hs]
        constructor
        · intro h
          split_ifs at h with hfunds hdoc hfits
          obtain rfl : s = source := by simpa using h
          obtain ⟨hk, hpos, hc, hlen⟩ := hrefused.mp (not_not.mp hdoc)
          have hpos : 0 < args.amountMinor := hpos
          refine ⟨dst, hnew, hs, hd, hsa, hda, hsc, hdc, fun huser => ?_, hk, hpos, hc, hlen,
            hfits⟩
          have := fun hlt => hfunds ⟨huser, hlt⟩
          rw [computeBalance_balanceMinor, ServerSum.sum_lt_iff hpos.le hfits] at this
          exact not_lt.mp this
        · intro haccepts
          obtain ⟨dst', h⟩ := haccepts
          obtain rfl : s = source := by simpa [hs] using h.sourceFound
          have hfunds : ¬ (s.accountType = .user ∧
              (computeBalance d args.sourceAccountId).balanceMinor < args.amountMinor) := by
            intro hshort
            obtain ⟨huser, hlt⟩ := hshort
            rw [computeBalance_balanceMinor,
              ServerSum.sum_lt_iff h.amount_pos.le h.amount_fits] at hlt
            exact absurd (h.funds huser) (not_le.mpr hlt)
          have hdoc := hrefused.mpr
            ⟨h.goodKey, h.amount_pos, h.goodCurrency, h.goodDescription⟩
          simp [hfunds, hdoc, h.amount_fits]

end Decision

/-- A key that is there already is a duplicate, whatever else is wrong. -/
theorem judge_of_repeated [ServerSum] {d : Database} {args : TransferArgs}
    (h : ∃ t ∈ d.transactions, t.idempotencyKey = args.idempotencyKey) :
    ∃ id, judge d args =
      .error (.ledgerlock (.duplicateSubmission args.idempotencyKey (.preCheck id))) := by
  obtain ⟨t, ht, hkey⟩ := h
  cases hfind : d.findByIdempotencyKey args.idempotencyKey with
  | none => exact absurd hkey (Database.findByIdempotencyKey_eq_none.mp hfind t ht)
  | some t' => exact ⟨t'.id, by rw [judge, hfind]⟩

/-- Nothing else is called a duplicate. -/
theorem repeated_of_judge [ServerSum] {d : Database} {args : TransferArgs} {key : String}
    {detectedBy : DetectedBy}
    (h : judge d args = .error (.ledgerlock (.duplicateSubmission key detectedBy))) :
    ∃ t ∈ d.transactions, t.idempotencyKey = args.idempotencyKey := by
  cases hfind : d.findByIdempotencyKey args.idempotencyKey with
  | some t => exact ⟨t, Database.findByIdempotencyKey_some hfind⟩
  | none =>
      unfold judge at h
      simp only [hfind] at h
      cases hpart : validateParticipants (d.findAccount args.sourceAccountId)
          (d.findAccount args.destinationAccountId) args.sourceAccountId
          args.destinationAccountId args.currency with
      | error e =>
          rw [hpart] at h
          obtain rfl : e = .duplicateSubmission key detectedBy := by simpa using h
          exact absurd hpart validateParticipants_ne_duplicate
      | ok u =>
          rw [hpart] at h
          cases hs : d.findAccount args.sourceAccountId with
          | none => simp [hs] at h
          | some s =>
              simp only [hs] at h
              split_ifs at h <;> simp at h

/-- No decision is a conflict, or a failure of the server. -/
theorem judge_error_class [ServerSum] {d : Database} {args : TransferArgs} {e : Raised}
    (h : judge d args = .error e) :
    e.errorClass ≠ .ledgerlock .writeConflict ∧ e.errorClass ≠ .operationFailure := by
  unfold judge at h
  split at h
  · obtain rfl := Except.error.inj h
    simp [Raised.errorClass, LedgerlockError.code]
  split at h
  · rename_i e' hpart
    obtain rfl := Except.error.inj h
    simp only [Raised.errorClass, ne_eq, reduceCtorEq, not_false_eq_true, and_true]
    unfold validateParticipants at hpart
    split at hpart
    · obtain rfl := Except.error.inj hpart
      simp [LedgerlockError.code]
    · obtain rfl := Except.error.inj hpart
      simp [LedgerlockError.code]
    · split_ifs at hpart <;> obtain rfl := Except.error.inj hpart <;> simp [LedgerlockError.code]
  split at h
  · obtain rfl := Except.error.inj h
    simp [Raised.errorClass, PyError.errorClass]
  · simp only at h
    split_ifs at h <;> obtain rfl := Except.error.inj h <;>
      simp [Raised.errorClass, PyError.errorClass, LedgerlockError.code]

/-- Only a short balance is called insufficient, as long as the server can hold the
balance or the amount. -/
theorem balance_lt_of_judge [ServerSum] {d : Database} {args : TransferArgs}
    {accountId : ObjectId} {balance requested shortfall : Int}
    (hexact : FitsLong (d.balance args.sourceAccountId) ∨
      0 ≤ args.amountMinor ∧ FitsLong args.amountMinor)
    (h : judge d args = .error
      (.ledgerlock (.insufficientFunds accountId balance requested shortfall))) :
    d.balance args.sourceAccountId < args.amountMinor := by
  unfold judge at h
  split at h
  · cases h
  split at h
  · rename_i e hpart
    obtain rfl : e = .insufficientFunds accountId balance requested shortfall := by simpa using h
    unfold validateParticipants at hpart
    split at hpart
    · cases hpart
    · cases hpart
    · split_ifs at hpart <;> cases hpart
  split at h
  · cases h
  · simp only at h
    split_ifs at h with hshort
    · obtain ⟨-, hlt⟩ := hshort
      rw [computeBalance_balanceMinor] at hlt
      rcases hexact with hbalance | ⟨hpos, hamount⟩
      · rwa [ServerSum.sum_of_fits _ hbalance] at hlt
      · rwa [ServerSum.sum_lt_iff hpos hamount] at hlt
    · cases h
    · cases h

/-! ### The program makes that decision -/

/-- The serialising write touches accounts only. -/
theorem lockWrites_view (d : Database) (source : Account) :
    (Mvcc.view d (lockWrites source)).transactions = d.transactions ∧
      (Mvcc.view d (lockWrites source)).ledgerEntries = d.ledgerEntries := by
  unfold lockWrites
  split <;> exact ⟨rfl, rfl⟩

/-- A write an attempt comes to: the idempotency check has passed, the validator
accepts the write, and a key it adds to a unique index is the call's idempotency
key or made of ids the attempt drew; by then every check has passed. The one document
it locks without adding it is a USER source. -/
structure Intends [ServerSum] (d : Database) (args : TransferArgs) (ws : List DbWrite)
    (ids : List ObjectId) (w : DbWrite) : Prop where
  checked : ∀ t ∈ d.transactions, t.idempotencyKey ≠ args.idempotencyKey
  accepted : w.accepted = true
  judged : w.newKeys ≠ [] → ∃ source, judge d args = .ok source
  keys : ∀ k ∈ w.newKeys,
    k = .idempotencyKey args.idempotencyKey ∨ k.ids ≠ [] ∧ ∀ x ∈ k.ids, x ∈ ids
  apart : ∀ v ∈ ws, v.newKeys.Disjoint w.newKeys
  locks : ∀ k ∈ w.footprint, k ∈ w.newKeys ∨ k = .account args.sourceAccountId ∧
    ∃ source, d.findAccount args.sourceAccountId = some source ∧ source.accountType = .user

/-- What is asked of one attempt on the snapshot `d`. -/
def attemptPost [ServerSum] (d : Database) (attempts : Nat) (args : TransferArgs) :
    Post DbWrite ObjectId Raised LedgerWriteResult where
  done r ws ids := ∃ source x, judge d args = .ok source ∧
    ws = transferWrites source args x ∧ ids = x.ids ∧ x.ids.Nodup ∧
    r = ⟨x.header args, x.debitEntryId, x.creditEntryId, attempts⟩
  raise e := judge d args = .error e
  write := Intends d args

section Wp

variable {d : Database} {ws : List DbWrite} {ids : List ObjectId}

theorem insertTransaction_wp {P : Post DbWrite ObjectId Raised Unit} {t : Transaction}
    (hok : FitsLong t.amountMinor → P.write ws ids (.insertTransaction t) ∧
      P.done () (ws ++ [.insertTransaction t]) ids)
    (hbad : ¬ FitsLong t.amountMinor → P.raise (.python .overflowError)) :
    (insertTransaction t).wp d P ws ids := by
  unfold insertTransaction
  split_ifs with h
  · exact ⟨(hok h).1, fun _ _ => (hok h).2⟩
  · exact hbad h

theorem insertLedgerEntry_wp {P : Post DbWrite ObjectId Raised Unit} {e : LedgerEntry}
    (hamount : FitsLong e.amountMinor) (hsigned : FitsLong e.signedAmountMinor)
    (hwrite : P.write ws ids (.insertLedgerEntry e))
    (hok : P.done () (ws ++ [.insertLedgerEntry e]) ids) :
    (insertLedgerEntry e).wp d P ws ids := by
  rw [insertLedgerEntry, if_pos ⟨hamount, hsigned⟩]
  exact ⟨hwrite, fun _ _ => hok⟩

end Wp

/-- The model of the header refuses a fixed set of fields, whenever it is built. -/
theorem transactionDocument_create_eq_error {args : TransferArgs} {t : Timestamp}
    {e : Raised} (h : liftPy (transactionDocument args t).create = .error e) :
    (transactionDocument args 0).refusedFields ≠ [] ∧
      e = .python (.validationError (transactionDocument args 0).refusedFields) := by
  change liftPy (validated (transactionDocument args 0).refusedFields _) = _ at h
  unfold validated at h
  split_ifs at h with hrefused
  · cases h
  · exact ⟨hrefused, by simpa [liftPy, eq_comm] using h⟩

/-- The documents of a transfer whose header the model accepts pass the
validators. -/
theorem accepted_of_refusedFields {args : TransferArgs} (x : Stamp)
    (h : (transactionDocument args 0).refusedFields = []) (hfits : FitsLong args.amountMinor) :
    (DbWrite.insertTransaction (x.header args)).accepted = true ∧
      (DbWrite.insertLedgerEntry (x.debit args)).accepted = true ∧
      (DbWrite.insertLedgerEntry (x.credit args)).accepted = true := by
  obtain ⟨hkey, hpos, hcurrency, hlen⟩ := TransactionDocument.refusedFields_eq_nil.mp h
  have hpos : 1 ≤ args.amountMinor := hpos
  have hpattern : matchesCurrencyPattern args.currency = true :=
    matchesCurrencyPattern_of_isCurrencyCode hcurrency
  have hneg : FitsLong (-args.amountMinor) := by
    obtain ⟨hlo, hhi⟩ : FitsLong args.amountMinor := hfits
    constructor <;> omega
  refine ⟨transactionValidator_iff.mpr ?_, ledgerEntryValidator_iff.mpr ?_,
    ledgerEntryValidator_iff.mpr ?_⟩
  · simp only [isIdempotencyKey, Bool.and_eq_true, decide_eq_true_eq] at hkey
    exact ⟨hkey.1.1, hkey.1.2, hfits, hpos, hpattern, hlen⟩
  · exact ⟨hfits, hpos, hneg, hpattern, rfl⟩
  · exact ⟨hfits, hpos, hfits, hpattern, rfl⟩

/-- The serialising write adds no key to an index. -/
theorem lockWrites_newKeys {source : Account} :
    ∀ v ∈ lockWrites source, v.newKeys = [] := by
  unfold lockWrites
  split <;> simp [DbWrite.newKeys]

section Program

variable [ServerSum]

/-- The header is written under the idempotency key and a fresh id. -/
theorem Intends.header {d : Database} {args : TransferArgs} {source : Account}
    {x : Stamp} {ids : List ObjectId} (hjudge : judge d args = .ok source)
    (hacc : (DbWrite.insertTransaction (x.header args)).accepted = true)
    (hid : x.transactionId ∈ ids) :
    Intends d args (lockWrites source) ids (.insertTransaction (x.header args)) where
  checked := (judge_eq_ok.mp hjudge).choose_spec.newKey
  accepted := hacc
  judged := fun _ => ⟨source, hjudge⟩
  keys := by
    simpa [DbWrite.newKeys, Transaction.keys, DbKey.ids, Stamp.header, transactionDocument]
      using hid
  apart := by
    intro v hv
    simp [lockWrites_newKeys v hv]
  locks := fun _ => .inl

/-- An entry is written under fresh ids. -/
theorem Intends.entry {d : Database} {args : TransferArgs} {source : Account}
    {e : LedgerEntry} {ws : List DbWrite} {ids : List ObjectId}
    (hjudge : judge d args = .ok source)
    (hacc : (DbWrite.insertLedgerEntry e).accepted = true)
    (htransaction : e.transactionId ∈ ids) (hid : e.id ∈ ids)
    (hapart : ∀ v ∈ ws, v.newKeys.Disjoint e.keys) :
    Intends d args ws ids (.insertLedgerEntry e) where
  checked := (judge_eq_ok.mp hjudge).choose_spec.newKey
  accepted := hacc
  judged := fun _ => ⟨source, hjudge⟩
  keys := by
    simpa [DbWrite.newKeys, LedgerEntry.keys, DbKey.ids] using ⟨hid, htransaction⟩
  apart := hapart
  locks := fun _ => .inl

/-- Steps 4 and 5 write the header and both entries, or refuse the document. -/
theorem writeTransfer_wp {d : Database} {attempts : Nat} {args : TransferArgs}
    {source : Account}
    (hrefuse : (transactionDocument args 0).refusedFields ≠ [] → judge d args =
      .error (.python (.validationError (transactionDocument args 0).refusedFields)))
    (hlong : (transactionDocument args 0).refusedFields = [] → ¬ FitsLong args.amountMinor →
      judge d args = .error (.python .overflowError))
    (hok : (transactionDocument args 0).refusedFields = [] → FitsLong args.amountMinor →
      judge d args = .ok source) :
    (writeTransfer attempts args).wp d (attemptPost d attempts args)
      (lockWrites source) [] := by
  simp only [writeTransfer, Tx.wp_bind, Tx.wp_newId, Tx.wp_now, Tx.wp_pure, Tx.wp_ofExcept,
    Post.andThen_done]
  intro transactionId _ createdAt
  refine ⟨fun document hdocument => ?_, fun e he => ?_⟩
  swap
  · obtain ⟨hrefused, rfl⟩ := transactionDocument_create_eq_error he
    exact hrefuse hrefused
  obtain ⟨hrefused, rfl⟩ := validated_eq_ok.mp (liftPy_eq_ok.mp hdocument)
  obtain ⟨hkey, hpos, hcurrency, -⟩ := TransactionDocument.refusedFields_eq_nil.mp hrefused
  have hpos : 0 < args.amountMinor := hpos
  refine insertTransaction_wp (fun hfits => ⟨?_, ?_⟩) fun hfits => hlong hrefused hfits
  · exact .header (x := ⟨transactionId, 0, 0, createdAt, 0, 0⟩) (hok hrefused hfits)
      (accepted_of_refusedFields _ hrefused hfits).1 (by simp)
  have hneg : FitsLong (-args.amountMinor) := by
    obtain ⟨hlo, hhi⟩ : FitsLong args.amountMinor := hfits
    constructor <;> omega
  -- with the header accepted, neither entry can be refused
  have entry (accountId : ObjectId) (direction : EntryDirection) (t : Timestamp) :
      LedgerEntryDocument.create transactionId accountId direction args.amountMinor
        args.currency t = .ok _ :=
    LedgerEntryDocument.create_eq_ok.mpr ⟨hpos, hcurrency, rfl⟩
  intro debitedAt
  simp only [entry, liftPy, Except.ok.injEq, forall_eq', reduceCtorEq, IsEmpty.forall_iff,
    implies_true, and_true]
  intro creditedAt debitEntryId hdebit creditEntryId hcredit
  let x : Stamp := ⟨transactionId, debitEntryId, creditEntryId, createdAt, debitedAt, creditedAt⟩
  have hids : x.ids.Nodup := by
    simp only [List.nil_append, List.mem_append, List.mem_singleton] at hdebit hcredit
    simp only [Stamp.ids, x, List.nodup_cons, List.mem_cons]
    grind
  obtain ⟨-, hdebitAccepted, hcreditAccepted⟩ := accepted_of_refusedFields x hrefused hfits
  have hjudge := hok hrefused hfits
  -- neither entry repeats a key of a write before it
  have hapart : ∀ v ∈ lockWrites source ++ [.insertTransaction (x.header args)],
      ∀ e : LedgerEntry, v.newKeys.Disjoint e.keys := by
    intro v hv e
    rcases List.mem_append.mp hv with hv | hv
    · simp [lockWrites_newKeys v hv]
    · rw [List.mem_singleton.mp hv]
      simp [DbWrite.newKeys, Transaction.keys, LedgerEntry.keys]
  refine insertLedgerEntry_wp hfits hneg ?_ (insertLedgerEntry_wp hfits hfits ?_ ?_)
  · exact .entry (e := x.debit args) hjudge hdebitAccepted (by simp [x, Stamp.debit])
      (by simp [x, Stamp.debit]) fun v hv => hapart v hv _
  · refine .entry (e := x.credit args) hjudge hcreditAccepted (by simp [x, Stamp.credit])
      (by simp [x, Stamp.credit]) fun v hv => ?_
    rcases List.mem_append.mp hv with hv | hv
    · exact hapart v hv _
    · obtain rfl : v = .insertLedgerEntry (x.debit args) := List.mem_singleton.mp hv
      have hne : x.creditEntryId ≠ x.debitEntryId := by
        intro h
        simp [Stamp.ids, h] at hids
      simpa [DbWrite.newKeys, LedgerEntry.keys, Stamp.debit, Stamp.credit] using hne
  · refine ⟨source, x, hjudge, ?_, rfl, hids, rfl⟩
    change lockWrites source ++ [.insertTransaction (x.header args)]
      ++ [.insertLedgerEntry (x.debit args)] ++ [.insertLedgerEntry (x.credit args)] = _
    simp [transferWrites]

theorem computeBalance_congr {d d' : Database} (h : d.ledgerEntries = d'.ledgerEntries)
    (accountId : ObjectId) : computeBalance d accountId = computeBalance d' accountId := by
  simp only [computeBalance, balancePipeline, Database.entriesOf, h]

/-- Step 3 takes the lock and refuses a USER source whose balance is short. -/
theorem serialiseAndCheck_wp {d : Database} {source : Account} {args : TransferArgs}
    {P : Post DbWrite ObjectId Raised Unit} (hid : source.id = args.sourceAccountId)
    (hwrite : source.accountType = .user →
      P.write [] [] (.incDebitSerialisationCounter args.sourceAccountId))
    (hok : ¬ (source.accountType = .user ∧
        (computeBalance d args.sourceAccountId).balanceMinor < args.amountMinor) →
      P.done () (lockWrites source) [])
    (hshort : source.accountType = .user →
      (computeBalance d args.sourceAccountId).balanceMinor < args.amountMinor →
      P.raise (.ledgerlock (.insufficientFunds args.sourceAccountId
        (computeBalance d args.sourceAccountId).balanceMinor args.amountMinor
        (args.amountMinor - (computeBalance d args.sourceAccountId).balanceMinor)))) :
    (serialiseAndCheck source args).wp d P [] [] := by
  unfold serialiseAndCheck
  by_cases huser : source.accountType = .user
  · have hlock : lockWrites source =
        [.incDebitSerialisationCounter args.sourceAccountId] := by simp [lockWrites, huser, hid]
    rw [if_pos huser]
    simp only [Tx.wp_bind, Tx.wp_write, Tx.wp_pure, Tx.wp_query, List.nil_append,
      Post.andThen_done, Post.andThen_write]
    refine ⟨hwrite huser, fun _ _ => ?_⟩
    have hsame : computeBalance
        (Mvcc.view d [DbWrite.incDebitSerialisationCounter args.sourceAccountId])
        args.sourceAccountId = computeBalance d args.sourceAccountId :=
      computeBalance_congr rfl _
    rw [hsame]
    split_ifs with hlt
    · exact hshort huser hlt
    · rw [hlock] at hok
      exact hok fun h => hlt h.2
  · rw [if_neg huser]
    have hlock : lockWrites source = [] := by simp [lockWrites, huser]
    rw [hlock] at hok
    exact hok fun h => huser h.1

/-- What an attempt comes to: the rejection `judge` gives for its snapshot, or
the writes of an accepted transfer. -/
theorem applyTransfer_wp (d : Database) (attempts : Nat) (args : TransferArgs) :
    (applyTransfer attempts args).wp d (attemptPost d attempts args) [] [] := by
  unfold applyTransfer findByIdempotencyKey findAccount
  simp only [Tx.wp_bind, Tx.wp_query, Mvcc.view_nil, Post.andThen_done]
  cases hkey : d.findByIdempotencyKey args.idempotencyKey with
  | some existing => simp [judge, hkey, raiseLedgerlock, attemptPost]
  | none =>
    simp only [Tx.wp_bind, Tx.wp_query, Mvcc.view_nil, Post.andThen_done]
    cases hpart : validateParticipants (d.findAccount args.sourceAccountId)
        (d.findAccount args.destinationAccountId) args.sourceAccountId
        args.destinationAccountId args.currency with
    | error e => simp [judge, hkey, hpart, raiseLedgerlock, attemptPost]
    | ok u =>
        obtain ⟨s, dst, hs, hd, -⟩ := validateParticipants_eq_ok.mp hpart
        have hid := (Database.findAccount_some hs).2
        simp only [hs, hd] at hpart
        simp only [hs, hd, Tx.wp_bind]
        refine serialiseAndCheck_wp hid (fun huser => ?_)
          (fun hfunds => writeTransfer_wp ?_ ?_ ?_) fun huser hlt => ?_
        · refine ⟨Database.findByIdempotencyKey_eq_none.mp hkey, rfl, by simp [DbWrite.newKeys],
            by simp [DbWrite.newKeys], by simp, fun k hk => .inr ⟨?_, s, hs, huser⟩⟩
          simpa [DbWrite.footprint] using hk
        · intro hrefused
          simp [judge, hkey, hpart, hs, hd, hfunds, hrefused]
        · intro hrefused hfits
          simp [judge, hkey, hpart, hs, hd, hfunds, hrefused, hfits]
        · intro hrefused hfits
          simp [judge, hkey, hpart, hs, hd, hfunds, hrefused, hfits]
        · simp [attemptPost, judge, hkey, hpart, hs, hd, huser, hlt]

/-- A repeated key is found by the first read, and nothing else is done. -/
theorem applyTransfer_repeated {α : Type} {d : Database} {args : TransferArgs}
    {t : Transaction} (h : d.findByIdempotencyKey args.idempotencyKey = some t)
    (attempts : Nat) (f : LedgerWriteResult → LedgerTx α) :
    Mvcc.Progress d (applyTransfer attempts args >>= f) [] []
      (.raise (.ledgerlock (.duplicateSubmission args.idempotencyKey (.preCheck t.id)))) := by
  obtain ⟨k, hread, hraise⟩ : ∃ k, applyTransfer attempts args >>= f = Tx.read k ∧
      k d = .raise (.ledgerlock (.duplicateSubmission args.idempotencyKey (.preCheck t.id))) := by
    refine ⟨_, rfl, ?_⟩
    simp only [h]
    rfl
  have hstart : Mvcc.Progress d (applyTransfer attempts args >>= f) [] []
      (applyTransfer attempts args >>= f) := .start
  rw [hread] at hstart ⊢
  rw [← hraise]
  exact hstart.read

end Program

end Ledgerlock
