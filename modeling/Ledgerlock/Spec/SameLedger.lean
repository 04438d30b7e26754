import Ledgerlock.Spec.Commits

/-!
# Ledgerlock.Spec.SameLedger

Two databases that are the record of the same transfers and differ only in what
was generated on the way: ids and timestamps. They have the same
`Database.contents`, and they decide every further transfer alike.
-/

namespace Ledgerlock

open Mvcc

/-- What is in the collections, up to generated ids and timestamps: an entry names
its transaction by position. -/
def Database.contents (d : Database) :
    List Account × List TransactionDocument × List LedgerEntryDocument :=
  (d.accounts,
    d.transactions.map fun t => { t.toTransactionDocument with createdAt := 0 },
    d.ledgerEntries.map fun e =>
      { e.toLedgerEntryDocument with
        transactionId := (d.transactions.map (·.id)).idxOf e.transactionId, createdAt := 0 })

/-- The two databases have the same accounts and record the same transfers. -/
def SameLedger (d d' : Database) : Prop :=
  d.accounts = d'.accounts ∧ ∃ journal journal' : List Posting,
    Represents d journal ∧ Represents d' journal' ∧
      journal.map Posting.args = journal'.map Posting.args

theorem SameLedger.refl {d : Database} {journal : List Posting} (hd : Represents d journal) :
    SameLedger d d :=
  ⟨rfl, journal, journal, hd, hd, rfl⟩

theorem SameLedger.symm {d d' : Database} (h : SameLedger d d') : SameLedger d' d := by
  obtain ⟨haccounts, journal, journal', hd, hd', hargs⟩ := h
  exact ⟨haccounts.symm, journal', journal, hd', hd, hargs.symm⟩

/-! ### Contents -/

/-- The pair of the transfer at a position of the journal. -/
def pairAt (args : TransferArgs) (position : Nat) : List LedgerEntryDocument :=
  let x : Stamp := ⟨position, 0, 0, 0, 0, 0⟩
  [(x.debit args).toLedgerEntryDocument, (x.credit args).toLedgerEntryDocument]

/-- The contents of a ledger can be read off its transfers. -/
theorem Represents.contents_eq {d : Database} {journal : List Posting}
    (hd : Represents d journal) : d.contents =
      (d.accounts, (journal.map Posting.args).map fun args => transactionDocument args 0,
        (journal.map Posting.args).zipIdx.flatMap fun q => pairAt q.1 q.2) := by
  have hids := Database.transaction_ids_nodup hd.keys
  rw [Database.contents, hd.entries, hd.transactions] at *
  refine congrArg (Prod.mk _) (congrArg₂ Prod.mk ?_ ?_)
  · rw [List.map_map, List.map_map]
    rfl
  · rw [List.map_flatMap, List.zipIdx_map, List.flatMap_map, ← List.zipIdx_map_fst 0 journal,
      List.flatMap_map, List.zipIdx_map_fst]
    refine List.flatMap_congr fun q hq => ?_
    obtain ⟨p, k⟩ := q
    have hk : journal[k]? = some p := by simpa using List.mem_zipIdx_iff_getElem?.mp hq
    have hposition : ((journal.map Posting.header).map (·.id)).idxOf p.stamp.transactionId = k := by
      obtain ⟨hlt, hget⟩ := List.getElem?_eq_some_iff.mp hk
      have hlt' : k < ((journal.map Posting.header).map (·.id)).length := by simpa using hlt
      have hid : ((journal.map Posting.header).map (·.id))[k] = p.stamp.transactionId := by
        simp only [List.getElem_map, hget]
        rfl
      rw [← hid]
      exact hids.idxOf_getElem k hlt'
    simp only [Posting.entries, List.map_cons, List.map_nil, Posting.debit, Posting.credit,
      Stamp.debit, Stamp.credit, hposition]
    rfl

theorem SameLedger.contents {d d' : Database} (h : SameLedger d d') :
    d.contents = d'.contents := by
  obtain ⟨haccounts, journal, journal', hd, hd', hargs⟩ := h
  rw [hd.contents_eq, hd'.contents_eq, haccounts, hargs]

/-! ### Looking alike to a transfer -/

/-- An account document as its model declares it. -/
def Account.withoutCounter (a : Account) : Account :=
  { a with debitSerialisationCounter := none }

/-- An exception without the id of the transaction that has the key. -/
def Raised.anonymous : Raised → Raised
  | ledgerlock (.duplicateSubmission key _) => ledgerlock (.duplicateSubmission key .uniqueIndex)
  | e => e

theorem Raised.anonymous_errorClass (e : Raised) : e.anonymous.errorClass = e.errorClass := by
  unfold anonymous
  split <;> rfl

/-- The two states agree on everything a transfer is judged by. -/
structure Alike (d d' : Database) (args : TransferArgs) : Prop where
  key : (∃ t ∈ d.transactions, t.idempotencyKey = args.idempotencyKey) ↔
    ∃ t ∈ d'.transactions, t.idempotencyKey = args.idempotencyKey
  source : (d.findAccount args.sourceAccountId).map Account.withoutCounter =
    (d'.findAccount args.sourceAccountId).map Account.withoutCounter
  destination : (d.findAccount args.destinationAccountId).map Account.withoutCounter =
    (d'.findAccount args.destinationAccountId).map Account.withoutCounter
  funds : ∀ a, d.findAccount args.sourceAccountId = some a → a.accountType = .user →
    (d.entriesOf args.sourceAccountId).map (·.signedAmountMinor) =
      (d'.entriesOf args.sourceAccountId).map (·.signedAmountMinor)

/-- The check of the participants does not look at the counter. -/
theorem validateParticipants_withoutCounter (source destination : Option Account)
    (sourceAccountId destinationAccountId : ObjectId) (currency : String) :
    validateParticipants (source.map Account.withoutCounter)
        (destination.map Account.withoutCounter) sourceAccountId destinationAccountId currency =
      validateParticipants source destination sourceAccountId destinationAccountId currency := by
  cases source <;> cases destination <;> rfl

section Alike

variable {d d' : Database} {args : TransferArgs} (h : Alike d d' args)

include h

theorem Alike.validateParticipants :
    validateParticipants (d.findAccount args.sourceAccountId)
        (d.findAccount args.destinationAccountId) args.sourceAccountId
        args.destinationAccountId args.currency =
      Ledgerlock.validateParticipants (d'.findAccount args.sourceAccountId)
        (d'.findAccount args.destinationAccountId) args.sourceAccountId
        args.destinationAccountId args.currency := by
  rw [← validateParticipants_withoutCounter, h.source, h.destination,
    validateParticipants_withoutCounter]

/-- A source is found in both, but for its counter. -/
theorem Alike.exists_source {s : Account} (hs : d.findAccount args.sourceAccountId = some s) :
    ∃ s', d'.findAccount args.sourceAccountId = some s' ∧
      s'.withoutCounter = s.withoutCounter := by
  have hsame := h.source
  rw [hs, Option.map_some, eq_comm, Option.map_eq_some_iff] at hsame
  exact hsame

variable [ServerSum]

theorem Alike.judge_ok {source : Account} (hjudge : judge d args = .ok source) :
    ∃ source', judge d' args = .ok source' ∧ source'.withoutCounter = source.withoutCounter := by
  obtain ⟨destination, hacc⟩ := judge_eq_ok.mp hjudge
  have hparticipants := h.validateParticipants.symm.trans (validateParticipants_eq_ok.mpr
    ⟨source, destination, hacc.sourceFound, hacc.destinationFound, hacc.sourceActive,
      hacc.destinationActive, hacc.sourceCurrency, hacc.destinationCurrency⟩)
  obtain ⟨s, t, hs, ht, hsa, hta, hsc, htc⟩ := validateParticipants_eq_ok.mp hparticipants
  obtain ⟨s', hs', hsame⟩ := h.exists_source hacc.sourceFound
  obtain rfl : s = s' := Option.some.inj (hs.symm.trans hs')
  refine ⟨s, judge_eq_ok.mpr ⟨t, ?_⟩, hsame⟩
  have htype : s.accountType = source.accountType := congrArg (·.accountType) hsame
  exact
    { newKey := fun t ht hkey =>
        have ⟨t', ht', hkey'⟩ := h.key.mpr ⟨t, ht, hkey⟩
        hacc.newKey t' ht' hkey'
      sourceFound := hs
      destinationFound := ht
      sourceActive := hsa
      destinationActive := hta
      sourceCurrency := hsc
      destinationCurrency := htc
      funds := fun huser => by
        have huser : source.accountType = .user := htype ▸ huser
        have hbalance := congrArg List.sum (h.funds source hacc.sourceFound huser)
        exact (hacc.funds huser).trans_eq hbalance
      goodKey := hacc.goodKey
      amount_pos := hacc.amount_pos
      goodCurrency := hacc.goodCurrency
      goodDescription := hacc.goodDescription
      amount_fits := hacc.amount_fits }

theorem Alike.judge_error {e : Raised} (hjudge : judge d args = .error e) :
    ∃ e', judge d' args = .error e' ∧ e'.anonymous = e.anonymous := by
  by_cases hkey : ∃ t ∈ d.transactions, t.idempotencyKey = args.idempotencyKey
  · obtain ⟨id, hid⟩ := judge_of_repeated hkey
    obtain ⟨id', hid'⟩ := judge_of_repeated (h.key.mp hkey)
    obtain rfl := Except.error.inj (hjudge.symm.trans hid)
    exact ⟨_, hid', rfl⟩
  have hkey' := mt h.key.mpr hkey
  have hnone : d.findByIdempotencyKey args.idempotencyKey = none :=
    Database.findByIdempotencyKey_eq_none.mpr fun t ht hk => hkey ⟨t, ht, hk⟩
  have hnone' : d'.findByIdempotencyKey args.idempotencyKey = none :=
    Database.findByIdempotencyKey_eq_none.mpr fun t ht hk => hkey' ⟨t, ht, hk⟩
  refine ⟨e, ?_, rfl⟩
  unfold judge at hjudge ⊢
  rw [hnone, h.validateParticipants] at hjudge
  rw [hnone']
  cases hs : d.findAccount args.sourceAccountId with
  | none =>
      have hs' : d'.findAccount args.sourceAccountId = none := by
        simpa [hs, eq_comm] using h.source
      rw [hs] at hjudge
      rw [hs'] at hjudge ⊢
      exact hjudge
  | some s =>
      obtain ⟨s', hs', hsame⟩ := h.exists_source hs
      have htype : s'.accountType = s.accountType := congrArg (·.accountType) hsame
      -- the balance is compared for a USER source only
      have hbalance : s.accountType = .user →
          (computeBalance d args.sourceAccountId).balanceMinor =
            (computeBalance d' args.sourceAccountId).balanceMinor := by
        intro huser
        rw [computeBalance_balanceMinor, computeBalance_balanceMinor, h.funds s hs huser]
      rw [hs] at hjudge
      rw [hs'] at hjudge ⊢
      simp only [htype] at hjudge ⊢
      split at hjudge
      · exact hjudge
      · by_cases huser : s.accountType = .user
        · rw [hbalance huser] at hjudge
          split_ifs at hjudge ⊢ <;> exact hjudge
        · simp only [huser, false_and, if_false] at hjudge ⊢
          split_ifs at hjudge ⊢ <;> exact hjudge

end Alike

/-! ### Decisions -/

/-- What a transfer is worth to an account, entry by entry. -/
def TransferArgs.signedAmounts (args : TransferArgs) (accountId : ObjectId) : List Int :=
  ((pairAt args 0).filter fun e => e.accountId = accountId).map (·.signedAmountMinor)

theorem Represents.signedAmounts_eq {d : Database} {journal : List Posting}
    (hd : Represents d journal) (accountId : ObjectId) :
    (d.entriesOf accountId).map (·.signedAmountMinor) =
      (journal.map Posting.args).flatMap fun args => args.signedAmounts accountId := by
  rw [Database.entriesOf, hd.entries, List.filter_flatMap, List.map_flatMap, List.flatMap_map]
  refine List.flatMap_congr fun p _ => ?_
  by_cases hs : p.args.sourceAccountId = accountId <;>
    by_cases hd : p.args.destinationAccountId = accountId <;>
    simp [Posting.entries, Posting.debit, Posting.credit, TransferArgs.signedAmounts, pairAt,
      Stamp.debit, Stamp.credit, hs, hd]

section Decisions

variable {d d' : Database} (h : SameLedger d d')

include h

theorem SameLedger.findAccount (id : ObjectId) : d.findAccount id = d'.findAccount id := by
  rw [Database.findAccount, Database.findAccount, h.1]

theorem SameLedger.signedAmounts (accountId : ObjectId) :
    (d.entriesOf accountId).map (·.signedAmountMinor) =
      (d'.entriesOf accountId).map (·.signedAmountMinor) := by
  obtain ⟨-, journal, journal', hd, hd', hargs⟩ := h
  rw [hd.signedAmounts_eq, hd'.signedAmounts_eq, hargs]

/-- In two databases with one ledger the same keys have been used. -/
theorem SameLedger.repeated {key : String} :
    (∃ t ∈ d.transactions, t.idempotencyKey = key) →
      ∃ t ∈ d'.transactions, t.idempotencyKey = key := by
  obtain ⟨-, journal, journal', hd, hd', hargs⟩ := h
  intro hused
  obtain ⟨t, ht, rfl⟩ := hused
  rw [hd.transactions] at ht
  obtain ⟨p, hp, rfl⟩ := List.mem_map.mp ht
  have hp' : p.args ∈ journal'.map Posting.args := hargs ▸ List.mem_map_of_mem hp
  obtain ⟨p', hp', hsame⟩ := List.mem_map.mp hp'
  refine ⟨p'.header, hd'.transactions ▸ List.mem_map_of_mem hp', ?_⟩
  exact congrArg TransferArgs.idempotencyKey hsame

/-- Two databases with one ledger look alike to every transfer. -/
theorem SameLedger.alike (args : TransferArgs) : Alike d d' args where
  key := ⟨h.repeated, h.symm.repeated⟩
  source := by rw [h.findAccount]
  destination := by rw [h.findAccount]
  funds := fun _ _ _ => h.signedAmounts _

/-- Two databases with one ledger accept the same transfers. -/
theorem SameLedger.judge_ok [ServerSum] {args : TransferArgs} {source : Account}
    (hjudge : judge d args = .ok source) : judge d' args = .ok source := by
  obtain ⟨source', hjudge', -⟩ := (h.alike args).judge_ok hjudge
  obtain ⟨_, hacc⟩ := judge_eq_ok.mp hjudge
  obtain ⟨_, hacc'⟩ := judge_eq_ok.mp hjudge'
  have hfound := hacc'.sourceFound
  rw [← h.findAccount, hacc.sourceFound] at hfound
  rw [hjudge', Option.some.inj hfound]

/-- Two databases with one ledger reject the same transfers for the same reason. -/
theorem SameLedger.judge_error [ServerSum] {args : TransferArgs} {e : Raised}
    (hjudge : judge d args = .error e) :
    ∃ e', judge d' args = .error e' ∧ e'.errorClass = e.errorClass := by
  obtain ⟨e', hjudge', he⟩ := (h.alike args).judge_error hjudge
  exact ⟨e', hjudge', by rw [← e'.anonymous_errorClass, he, e.anonymous_errorClass]⟩

end Decisions

/-! ### One more transfer -/

theorem Accepts.goodFor {d : Database} {args : TransferArgs} {source destination : Account}
    (h : Accepts d args source destination) : GoodFor d args where
  newKey := h.newKey
  source := ⟨source.holder, Database.holder_of_findAccount h.sourceFound, h.sourceCurrency, h.funds⟩
  destination :=
    ⟨destination.holder, Database.holder_of_findAccount h.destinationFound, h.destinationCurrency⟩

theorem accounts_transferWrites {d d' : Database} (h : d.accounts = d'.accounts)
    (source : Account) (args : TransferArgs) (x x' : Stamp) :
    (view d (transferWrites source args x)).accounts =
      (view d' (transferWrites source args x')).accounts := by
  have hlock : (view d (lockWrites source)).accounts = (view d' (lockWrites source)).accounts := by
    unfold lockWrites
    split
    · exact congrArg (List.map _) h
    · exact h
  simp only [transferWrites, view_append]
  exact hlock

/-- The two ledgers stay the same when a transfer is written to both. -/
theorem SameLedger.transfer [ServerSum] {d d' : Database} (h : SameLedger d d')
    {args : TransferArgs} {source : Account} {x x' : Stamp}
    (hdistinct : args.sourceAccountId ≠ args.destinationAccountId)
    (hjudge : judge d args = .ok source)
    (hkeys : (view d (transferWrites source args x)).keys.Nodup)
    (hkeys' : (view d' (transferWrites source args x')).keys.Nodup) :
    SameLedger (view d (transferWrites source args x))
      (view d' (transferWrites source args x')) := by
  obtain ⟨destination, hacc⟩ := judge_eq_ok.mp hjudge
  obtain ⟨destination', hacc'⟩ := judge_eq_ok.mp (h.judge_ok hjudge)
  obtain ⟨haccounts, journal, journal', hd, hd', hargs⟩ := h
  let p : Posting := ⟨args, x, hdistinct, hacc.amount_pos⟩
  let p' : Posting := ⟨args, x', hdistinct, hacc.amount_pos⟩
  refine ⟨accounts_transferWrites haccounts source args x x', journal ++ [p], journal' ++ [p'],
    hd.post p hacc.goodFor hkeys, hd'.post p' hacc'.goodFor hkeys', ?_⟩
  rw [List.map_append, List.map_append, hargs]
  rfl

end Ledgerlock
