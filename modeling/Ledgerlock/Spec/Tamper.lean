import Ledgerlock.Spec.Audit

/-!
# Ledgerlock.Spec.Tamper

One change to `ledger_entries`, made behind the application's back on a ledger
that transfers wrote. The checks of a reconciliation look at the group of each
transaction, and there a new entry, a missing one and every rewritten field show
up, with one exception: no check compares the account of an entry with the
accounts of its transaction. An entry moved to another account is noticed only
when it overdraws a USER account (`Represents.healthy_tampered_iff`).
-/

namespace Ledgerlock

open Mvcc

/-! ### Changes -/

/-- One document inserted, deleted or rewritten. The `_id` of a document cannot
be rewritten. -/
inductive EntryChange
  | insert (entry : LedgerEntry)
  | delete (id : ObjectId)
  | rewrite (id : ObjectId) (document : LedgerEntryDocument)
  deriving Repr, DecidableEq

/-- The collection after the change. -/
def EntryChange.apply (entries : List LedgerEntry) : EntryChange → List LedgerEntry
  | insert entry => entries ++ [entry]
  | delete id => entries.filter fun e => e.id ≠ id
  | rewrite id document => entries.map fun e => if e.id = id then document.toBson id else e

def Database.tampered (d : Database) (c : EntryChange) : Database :=
  { d with ledgerEntries := c.apply d.ledgerEntries }

/-- The two documents record the same, whenever they were made. -/
def LedgerEntryDocument.SameRecord (e f : LedgerEntryDocument) : Prop :=
  e.transactionId = f.transactionId ∧ e.accountId = f.accountId ∧ e.direction = f.direction ∧
    e.amountMinor = f.amountMinor ∧ e.signedAmountMinor = f.signedAmountMinor ∧
    e.currency = f.currency

/-- A change that changes something and that the server lets through. -/
inductive EntryChange.Accepted (d : Database) : EntryChange → Prop
  | insert {entry : LedgerEntry} : ledgerEntryValidator entry = true →
      (d.tampered (.insert entry)).keys.Nodup → Accepted d (.insert entry)
  | delete {e : LedgerEntry} : e ∈ d.ledgerEntries → Accepted d (.delete e.id)
  | rewrite {e : LedgerEntry} {document : LedgerEntryDocument} : e ∈ d.ledgerEntries →
      ¬ e.SameRecord document → ledgerEntryValidator (document.toBson e.id) = true →
      (d.tampered (.rewrite e.id document)).keys.Nodup →
      Accepted d (.rewrite e.id document)

/-! ### Sums and groups under a change -/

theorem signedSum_cons (e : LedgerEntry) (entries : List LedgerEntry) :
    signedSum (e :: entries) = e.signedAmountMinor + signedSum entries := by
  simp [signedSum]

theorem signedSum_perm {entries entries' : List LedgerEntry} (h : entries.Perm entries') :
    signedSum entries = signedSum entries' :=
  (h.map _).sum_eq

theorem IsPair.perm {entries entries' : List LedgerEntry} (h : entries.Perm entries')
    (hpair : IsPair entries) : IsPair entries' where
  length := h.length_eq ▸ hpair.length
  debit := h.countP_eq _ ▸ hpair.debit
  credit := h.countP_eq _ ▸ hpair.credit
  net := signedSum_perm h ▸ hpair.net

theorem Database.entry_ids_nodup {d : Database} (h : d.keys.Nodup) :
    (d.ledgerEntries.map (·.id)).Nodup := by
  refine List.Nodup.of_map DbKey.ledgerEntry ?_
  rw [List.map_map]
  exact nodup_map_of_keys (ledgerEntries_keys_nodup h) fun e => by simp [LedgerEntry.keys]

/-- One entry and the others. -/
theorem perm_cons_others {entries : List LedgerEntry} (hids : (entries.map (·.id)).Nodup)
    {e : LedgerEntry} (he : e ∈ entries) :
    entries.Perm (e :: (EntryChange.delete e.id).apply entries) := by
  have hone : (entries.filter fun f => f.id = e.id) = [e] := by
    refine eq_singleton_of_nodup ((List.Nodup.of_map _ hids).filter _)
      (List.mem_filter.mpr ⟨he, by simp⟩) fun f hf => ?_
    obtain ⟨hf, hid⟩ := List.mem_filter.mp hf
    exact List.inj_on_of_nodup_map hids hf he (by simpa using hid)
  have h := List.filter_append_perm (fun f : LedgerEntry => f.id = e.id) entries
  rw [hone] at h
  simpa [EntryChange.apply] using h.symm

/-- Rewriting an entry puts another one in its place. -/
theorem rewrite_perm {entries : List LedgerEntry} (hids : (entries.map (·.id)).Nodup)
    {e : LedgerEntry} (he : e ∈ entries) (document : LedgerEntryDocument) :
    ((EntryChange.rewrite e.id document).apply entries).Perm
      (document.toBson e.id :: (EntryChange.delete e.id).apply entries) := by
  have h := (perm_cons_others hids he).map
    fun f => if f.id = e.id then document.toBson e.id else f
  refine h.trans ?_
  have hothers : ((EntryChange.delete e.id).apply entries).map
      (fun f => if f.id = e.id then document.toBson e.id else f) =
      (EntryChange.delete e.id).apply entries := by
    refine (List.map_congr_left fun f hf => ?_).trans (List.map_id _)
    have hne : f.id ≠ e.id := by simpa using (List.mem_filter.mp hf).2
    rw [if_neg hne, id]
  rw [List.map_cons, if_pos rfl, hothers]

/-- What a transaction has besides an entry. -/
def Database.othersIn (d : Database) (id transactionId : ObjectId) : List LedgerEntry :=
  (d.tampered (.delete id)).entriesIn transactionId

section Groups

variable {d : Database} (hids : (d.ledgerEntries.map (·.id)).Nodup) {e : LedgerEntry}
  (he : e ∈ d.ledgerEntries)

include hids he

theorem entriesIn_perm (transactionId : ObjectId) :
    (d.entriesIn transactionId).Perm
      (if e.transactionId = transactionId then e :: d.othersIn e.id transactionId
        else d.othersIn e.id transactionId) := by
  have h := (perm_cons_others hids he).filter fun f => decide (f.transactionId = transactionId)
  rw [List.filter_cons] at h
  simp only [decide_eq_true_eq] at h
  exact h

theorem entriesIn_rewrite_perm (document : LedgerEntryDocument) (transactionId : ObjectId) :
    ((d.tampered (.rewrite e.id document)).entriesIn transactionId).Perm
      (if document.transactionId = transactionId
        then document.toBson e.id :: d.othersIn e.id transactionId
        else d.othersIn e.id transactionId) := by
  have h := (rewrite_perm hids he document).filter
    fun f => decide (f.transactionId = transactionId)
  rw [List.filter_cons] at h
  simp only [decide_eq_true_eq] at h
  exact h

end Groups

/-- A pair that lost an entry is none, and what is left of it is enough to tell. -/
theorem not_healthy_of_lost {e : LedgerEntry} {rest : List LedgerEntry}
    (hpair : IsPair (e :: rest)) (hid : ∀ f ∈ rest, f.transactionId = e.transactionId)
    {d' : Database} (hlost : (d'.entriesIn e.transactionId).Perm rest) : ¬ Healthy d' := by
  intro hd'
  have hlength : rest.length = 1 := by
    have := hpair.length
    rw [List.length_cons] at this
    omega
  obtain ⟨f, rfl⟩ := List.length_eq_one_iff.mp hlength
  have hf : f ∈ d'.entriesIn e.transactionId := hlost.mem_iff.mpr List.mem_cons_self
  have hfmem : f ∈ d'.ledgerEntries := (List.mem_filter.mp hf).1
  have htwo := (hd'.paired f hfmem).length
  rw [hid f List.mem_cons_self, hlost.length_eq] at htwo
  omega

/-- What a rewritten entry does to a sum over entries. -/
theorem signedSum_rewrite {entries : List LedgerEntry} (hids : (entries.map (·.id)).Nodup)
    {e : LedgerEntry} (he : e ∈ entries) (document : LedgerEntryDocument)
    (q : LedgerEntry → Bool) :
    signedSum (((EntryChange.rewrite e.id document).apply entries).filter q)
        + (if q e then e.signedAmountMinor else 0) =
      signedSum (entries.filter q)
        + (if q (document.toBson e.id) then document.signedAmountMinor else 0) := by
  rw [signedSum_perm ((rewrite_perm hids he document).filter q),
    signedSum_perm ((perm_cons_others hids he).filter q), List.filter_cons, List.filter_cons]
  have hsigned : (document.toBson e.id).signedAmountMinor = document.signedAmountMinor := rfl
  split <;> split <;> simp only [signedSum_cons, hsigned] <;> omega

/-- Putting an entry of the same direction and worth in the place of another
leaves a pair a pair. -/
theorem IsPair.replace {e e' : LedgerEntry} {rest : List LedgerEntry}
    (hdirection : e'.direction = e.direction)
    (hsigned : e'.signedAmountMinor = e.signedAmountMinor) (h : IsPair (e :: rest)) :
    IsPair (e' :: rest) where
  length := h.length
  debit := by simpa [List.countP_cons, hdirection] using h.debit
  credit := by simpa [List.countP_cons, hdirection] using h.credit
  net := by simpa [signedSum_cons, hsigned] using h.net

/-- Two entries that make a pair with the same rest have the same direction and
worth. -/
theorem IsPair.replace_eq {e e' : LedgerEntry} {rest : List LedgerEntry}
    (h : IsPair (e :: rest)) (h' : IsPair (e' :: rest)) :
    e'.direction = e.direction ∧ e'.signedAmountMinor = e.signedAmountMinor := by
  have hdebit := h.debit
  have hdebit' := h'.debit
  have hnet := h.net
  have hnet' := h'.net
  rw [signedSum_cons] at hnet hnet'
  simp only [List.countP_cons, decide_eq_true_eq] at hdebit hdebit'
  refine ⟨?_, by omega⟩
  cases hde : e.direction <;> cases hde' : e'.direction
  · rfl
  · simp only [hde, hde', if_true, reduceCtorEq, if_false] at hdebit hdebit'
    omega
  · simp only [hde, hde', if_true, reduceCtorEq, if_false] at hdebit hdebit'
    omega
  · rfl

/-! ### The change that goes unnoticed -/

/-- The entry, recorded for another account. -/
def LedgerEntryDocument.movedTo (e : LedgerEntryDocument) (accountId : ObjectId)
    (createdAt : Timestamp) : LedgerEntryDocument :=
  { e with accountId, createdAt }

/-- The account that a move leaves worse off: a credit is taken from its account,
a debit is given to the new one. -/
def LedgerEntryDocument.loser (e : LedgerEntryDocument) (accountId : ObjectId) : ObjectId :=
  match e.direction with
  | .credit => e.accountId
  | .debit => accountId

/-- Taking the amount from the account overdraws no USER account. -/
def Database.CanBear (d : Database) (accountId : ObjectId) (amount : Int) : Prop :=
  ∀ a ∈ d.accounts, a.id = accountId → a.accountType = .user → amount ≤ d.balance accountId

/-- The entry is moved to another account, nothing else about it changes, and
the account left worse off can bear it. -/
def EntryChange.Unnoticed (d : Database) : EntryChange → Prop
  | rewrite id document => ∃ e ∈ d.ledgerEntries, e.id = id ∧
      document = e.movedTo document.accountId document.createdAt ∧
      d.CanBear (e.loser document.accountId) e.amountMinor
  | _ => False

section Ledger

variable {d : Database} {journal : List Posting}

/-- An entry of a ledger and what else its transaction has are a pair. -/
theorem Represents.pair_of_mem (hd : Represents d journal) {e : LedgerEntry}
    (he : e ∈ d.ledgerEntries) : IsPair (e :: d.othersIn e.id e.transactionId) := by
  obtain ⟨p, -, -, -, hentries⟩ := hd.posting_of_mem he
  have hperm := entriesIn_perm (Database.entry_ids_nodup hd.keys) he e.transactionId
  rw [if_pos rfl, hentries] at hperm
  exact p.isPair.perm hperm

theorem othersIn_transactionId {e f : LedgerEntry} {transactionId : ObjectId}
    (hf : f ∈ d.othersIn e.id transactionId) : f.transactionId = transactionId := by
  simpa using (List.mem_filter.mp hf).2

/-- An entry of a ledger is worth its positive amount, with the sign of its
direction. -/
theorem Represents.worth_of_mem (hd : Represents d journal) {e : LedgerEntry}
    (he : e ∈ d.ledgerEntries) : 0 < e.amountMinor ∧
      e.signedAmountMinor = if e.direction = .credit then e.amountMinor else -e.amountMinor := by
  obtain ⟨p, -, hside, -, -⟩ := hd.posting_of_mem he
  have hpos := p.amount_pos
  rcases hside with rfl | rfl
  · exact ⟨hpos, rfl⟩
  · exact ⟨hpos, rfl⟩

/-- A new entry is an orphan or the third of its transaction. -/
theorem Represents.not_healthy_insert (hd : Represents d journal) (entry : LedgerEntry) :
    ¬ Healthy (d.tampered (.insert entry)) := by
  intro h
  have hmem : entry ∈ (d.tampered (.insert entry)).ledgerEntries :=
    List.mem_append_right _ List.mem_cons_self
  obtain ⟨t, ht, hid⟩ := h.noOrphan entry hmem
  have ht : t ∈ d.transactions := ht
  rw [hd.transactions] at ht
  obtain ⟨p, hp, rfl⟩ := List.mem_map.mp ht
  have hlength := (h.paired entry hmem).length
  have hthree : (d.tampered (.insert entry)).entriesIn entry.transactionId =
      p.entries ++ [entry] := by
    rw [← hd.entries_of hp, Database.entriesIn]
    have hid : p.stamp.transactionId = entry.transactionId := hid
    simp [Database.tampered, EntryChange.apply, hid]
  rw [hthree] at hlength
  have : p.entries.length + 1 = 2 := by simpa using hlength
  have : p.entries.length = 2 := rfl
  omega

/-- When an entry is deleted its partner is left alone, which no healthy ledger has. -/
theorem Represents.not_healthy_delete (hd : Represents d journal) {e : LedgerEntry}
    (he : e ∈ d.ledgerEntries) : ¬ Healthy (d.tampered (.delete e.id)) :=
  not_healthy_of_lost (hd.pair_of_mem he) (fun _ hf => othersIn_transactionId hf) (List.Perm.refl _)

/-- A rewritten entry escapes the checks of its transaction only by changing
nothing but its account. -/
theorem Represents.eq_movedTo_of_healthy (hd : Represents d journal) {e : LedgerEntry}
    (he : e ∈ d.ledgerEntries) {document : LedgerEntryDocument}
    (hvalid : ledgerEntryValidator (document.toBson e.id) = true)
    (h : Healthy (d.tampered (.rewrite e.id document))) :
    document = e.movedTo document.accountId document.createdAt := by
  have hids := Database.entry_ids_nodup hd.keys
  have hperm := rewrite_perm hids he document
  have hbefore := hd.pair_of_mem he
  -- the transaction it belongs to
  have htransaction : document.transactionId = e.transactionId := by
    by_contra hne
    have hgroup := entriesIn_rewrite_perm hids he document e.transactionId
    rw [if_neg hne] at hgroup
    exact not_healthy_of_lost hbefore (fun _ hf => othersIn_transactionId hf) hgroup h
  have hmem : document.toBson e.id ∈ (d.tampered (.rewrite e.id document)).ledgerEntries :=
    hperm.mem_iff.mpr List.mem_cons_self
  have hafter : IsPair (document.toBson e.id :: d.othersIn e.id e.transactionId) := by
    have hgroup := entriesIn_rewrite_perm hids he document e.transactionId
    rw [if_pos htransaction] at hgroup
    refine IsPair.perm hgroup ?_
    rw [← htransaction]
    exact h.paired _ hmem
  -- its direction and its worth, and with them its amount
  obtain ⟨hdirection, hsigned⟩ := hbefore.replace_eq hafter
  have hdirection : document.direction = e.direction := hdirection
  have hsigned : document.signedAmountMinor = e.signedAmountMinor := hsigned
  obtain ⟨hpos, hworth⟩ := hd.worth_of_mem he
  obtain ⟨-, -, -, -, hworth'⟩ := ledgerEntryValidator_iff.mp hvalid
  have hworth' : document.signedAmountMinor =
      if document.direction = .credit then document.amountMinor
        else -document.amountMinor := hworth'
  have hamount : document.amountMinor = e.amountMinor := by
    rw [hdirection, hsigned, hworth] at hworth'
    split at hworth' <;> omega
  -- its currency
  have hcurrency : document.currency = e.currency := by
    by_contra hne
    have hsum := signedSum_rewrite hids he document fun f => f.currency = document.currency
    have hafter := h.perCurrency document.currency
    have hbefore := hd.healthy.perCurrency document.currency
    have hafter : signedSum (((EntryChange.rewrite e.id document).apply d.ledgerEntries).filter
        fun f => f.currency = document.currency) = 0 := hafter
    rw [hafter, hbefore] at hsum
    simp only [decide_eq_true_eq, Ne.symm hne, if_false, LedgerEntryDocument.toBson, if_true]
      at hsum
    rw [hsigned, hworth] at hsum
    split at hsum <;> omega
  cases document
  simp only at htransaction hdirection hsigned hamount hcurrency
  subst htransaction hdirection hsigned hamount hcurrency
  rfl

/-- A move is noticed by the balances alone. -/
theorem Represents.healthy_move_iff (hd : Represents d journal) {e : LedgerEntry}
    (he : e ∈ d.ledgerEntries) (accountId : ObjectId) (createdAt : Timestamp) :
    Healthy (d.tampered (.rewrite e.id (e.movedTo accountId createdAt))) ↔
      ∀ a ∈ d.accounts, a.accountType = .user →
        0 ≤ (d.tampered (.rewrite e.id (e.movedTo accountId createdAt))).balance a.id := by
  constructor
  · intro h
    exact h.solvent
  intro hsolvent
  have hids := Database.entry_ids_nodup hd.keys
  have hperm := rewrite_perm hids he (e.movedTo accountId createdAt)
  have hsum (q : LedgerEntry → Bool) (hq : q ((e.movedTo accountId createdAt).toBson e.id) = q e) :
      signedSum (((EntryChange.rewrite e.id (e.movedTo accountId createdAt)).apply
        d.ledgerEntries).filter q) = signedSum (d.ledgerEntries.filter q) := by
    have hsum := signedSum_rewrite hids he (e.movedTo accountId createdAt) q
    rw [hq] at hsum
    exact add_right_cancel hsum
  -- the entries keep their transactions
  have hbefore : ∀ f ∈ (d.tampered (.rewrite e.id (e.movedTo accountId createdAt))).ledgerEntries,
      ∃ f₀ ∈ d.ledgerEntries, f₀.transactionId = f.transactionId := by
    intro f hf
    rcases List.mem_cons.mp (hperm.mem_iff.mp hf) with rfl | hf
    · exact ⟨e, he, rfl⟩
    · exact ⟨f, (List.mem_filter.mp hf).1, rfl⟩
  refine ⟨?_, fun currency => ?_, fun f hf => ?_, fun f hf => ?_, hsolvent⟩
  · have htrue := hsum (fun _ => true) rfl
    rw [List.filter_true, List.filter_true] at htrue
    exact htrue.trans hd.healthy.net
  · exact (hsum _ rfl).trans (hd.healthy.perCurrency currency)
  · obtain ⟨f₀, hf₀, hid⟩ := hbefore f hf
    obtain ⟨t, ht, htid⟩ := hd.healthy.noOrphan f₀ hf₀
    exact ⟨t, ht, htid.trans hid⟩
  · obtain ⟨f₀, hf₀, hid⟩ := hbefore f hf
    have hpair := hd.healthy.paired f₀ hf₀
    rw [hid] at hpair
    have hold := hpair.perm (entriesIn_perm hids he f.transactionId)
    refine IsPair.perm (entriesIn_rewrite_perm hids he _ f.transactionId).symm ?_
    have hsame : (e.movedTo accountId createdAt).transactionId = e.transactionId := rfl
    rw [hsame]
    by_cases hin : e.transactionId = f.transactionId
    · rw [if_pos hin] at hold ⊢
      refine IsPair.replace ?_ ?_ hold
      · rfl
      · rfl
    · rw [if_neg hin] at hold ⊢
      exact hold

/-- A move overdraws nobody exactly if the account it leaves worse off can bear
it. -/
theorem Represents.solvent_move_iff (hd : Represents d journal) {e : LedgerEntry}
    (he : e ∈ d.ledgerEntries) {accountId : ObjectId} (hne : e.accountId ≠ accountId)
    (createdAt : Timestamp) :
    (∀ a ∈ d.accounts, a.accountType = .user →
        0 ≤ (d.tampered (.rewrite e.id (e.movedTo accountId createdAt))).balance a.id) ↔
      d.CanBear (e.loser accountId) e.amountMinor := by
  obtain ⟨hpos, hworth⟩ := hd.worth_of_mem he
  have hbalance (id : ObjectId) :
      (d.tampered (.rewrite e.id (e.movedTo accountId createdAt))).balance id
          + (if e.accountId = id then e.signedAmountMinor else 0) =
        d.balance id + (if accountId = id then e.signedAmountMinor else 0) := by
    have h := signedSum_rewrite (Database.entry_ids_nodup hd.keys) he
      (e.movedTo accountId createdAt) fun f => f.accountId = id
    simp only [decide_eq_true_eq] at h
    exact h
  unfold Database.CanBear LedgerEntryDocument.loser
  constructor
  · intro h a ha hid huser
    have hafter := h a ha huser
    have hsum := hbalance a.id
    cases hdirection : e.direction with
    | credit =>
        simp only [hdirection, if_true] at hid hworth ⊢
        rw [hid] at hafter hsum
        rw [if_pos rfl, if_neg (Ne.symm hne)] at hsum
        omega
    | debit =>
        simp only [hdirection, reduceCtorEq, if_false] at hid hworth ⊢
        rw [hid] at hafter hsum
        rw [if_neg hne, if_pos rfl] at hsum
        omega
  · intro h a ha huser
    have hbefore : 0 ≤ d.balance a.id := hd.healthy.solvent a ha huser
    have hbear := h a ha
    have hsum := hbalance a.id
    cases hdirection : e.direction with
    | credit =>
        simp only [hdirection, if_true] at hbear hworth
        by_cases hid : a.id = e.accountId
        · have := hbear hid huser
          rw [hid] at hsum ⊢
          rw [if_pos rfl, if_neg (Ne.symm hne)] at hsum
          omega
        · rw [if_neg (Ne.symm hid)] at hsum
          split at hsum <;> omega
    | debit =>
        simp only [hdirection, reduceCtorEq, if_false] at hbear hworth
        by_cases hid : a.id = accountId
        · have := hbear hid huser
          rw [hid] at hsum ⊢
          rw [if_neg hne, if_pos rfl] at hsum
          omega
        · rw [if_neg (Ne.symm hid)] at hsum
          split at hsum <;> omega

/-- What the checks let pass. -/
theorem Represents.healthy_tampered_iff (hd : Represents d journal) {c : EntryChange}
    (hc : c.Accepted d) : Healthy (d.tampered c) ↔ c.Unnoticed d := by
  cases hc with
  | insert => exact iff_of_false (hd.not_healthy_insert _) not_false
  | delete he => exact iff_of_false (hd.not_healthy_delete he) not_false
  | @rewrite e document he hchanged hvalid _ =>
      constructor
      · intro h
        have hmove := hd.eq_movedTo_of_healthy he hvalid h
        have hne : e.accountId ≠ document.accountId := by
          intro haccount
          refine hchanged ?_
          rw [hmove]
          exact ⟨rfl, haccount, rfl, rfl, rfl, rfl⟩
        refine ⟨e, he, rfl, hmove, ?_⟩
        rw [hmove] at h
        exact (hd.solvent_move_iff he hne _).mp h.solvent
      · intro hworth
        obtain ⟨f, hf, hid, hmove, hbear⟩ := hworth
        obtain rfl : f = e := List.inj_on_of_nodup_map (Database.entry_ids_nodup hd.keys) hf he hid
        have hne : f.accountId ≠ document.accountId := by
          intro haccount
          refine hchanged ?_
          rw [hmove]
          exact ⟨rfl, haccount, rfl, rfl, rfl, rfl⟩
        rw [hmove]
        exact (hd.healthy_move_iff he _ _).mpr ((hd.solvent_move_iff he hne _).mpr hbear)

/-- The server lets every move through. -/
theorem Represents.accepted_move (hd : Represents d journal) {e : LedgerEntry}
    (he : e ∈ d.ledgerEntries) (hvalid : ledgerEntryValidator e = true) {accountId : ObjectId}
    (hne : e.accountId ≠ accountId) (createdAt : Timestamp) :
    (EntryChange.rewrite e.id (e.movedTo accountId createdAt)).Accepted d := by
  refine .rewrite he (fun h => hne h.2.1) hvalid ?_
  have hperm := rewrite_perm (Database.entry_ids_nodup hd.keys) he (e.movedTo accountId createdAt)
  have hold := perm_cons_others (Database.entry_ids_nodup hd.keys) he
  have hkeys : (d.tampered (.rewrite e.id (e.movedTo accountId createdAt))).keys.Perm d.keys :=
    ((hperm.flatMap_right LedgerEntry.keys).trans
      (hold.flatMap_right LedgerEntry.keys).symm).append_left _
  exact hkeys.nodup_iff.mpr hd.keys

end Ledger

/-! ### Detection -/

/-- In every reachable state, and for every accepted change of one entry, the
report finds something wrong unless the change is a move that nobody is
overdrawn by. -/
theorem tamper_detected_iff {ν : Type} [DecidableEq ν] [ServerSum] (D : Deployment ν)
    {st : LedgerState ν} (h : Reachable D.system st) {c : EntryChange}
    (hc : c.Accepted (D.db st)) {ws : List DbWrite} {ids : List ObjectId}
    {r : ReconciliationReport}
    (hrun : Progress ((D.db st).tampered c) gatherReport ws ids (.done r)) :
    r.healthy = false ↔ ¬ c.Unnoticed (D.db st) := by
  obtain ⟨journal, hjournal⟩ := D.represents h
  obtain ⟨checkedAt, rfl⟩ := report_of_progress hrun
  rw [← Bool.not_eq_true, healthy_iff, hjournal.healthy_tampered_iff hc]

section Example

open scoped Example

/-- The credit that Alice's funding made, as a document of the funded database. -/
def Example.aliceCredit (x : Stamp) : LedgerEntry := x.credit Example.funding

theorem Example.aliceCredit_mem (x : Stamp) :
    Example.aliceCredit x ∈ (Example.fundedDb x).ledgerEntries := by
  simp [Example.fundedDb, Example.aliceCredit, transferWrites_view]

/-- Her 100 recorded for Bob instead. -/
def Example.diverted (x : Stamp) : EntryChange :=
  .rewrite x.creditEntryId ((Example.aliceCredit x).movedTo 2 0)

theorem Example.diverted_accepted {x : Stamp} {journal : List Posting}
    (hd : Represents (Example.fundedDb x) journal) :
    (Example.diverted x).Accepted (Example.fundedDb x) := by
  have hvalid := (@accepted_of_refusedFields Example.funding x (by rfl) (by decide)).2.2
  refine hd.accepted_move (e := Example.aliceCredit x) ?_ hvalid ?_ 0
  · exact Example.aliceCredit_mem x
  · show (1 : ObjectId) ≠ 2
    decide

theorem Example.diverted_unnoticed (x : Stamp) :
    (Example.diverted x).Unnoticed (Example.fundedDb x) := by
  refine ⟨Example.aliceCredit x, Example.aliceCredit_mem x, rfl, rfl, ?_⟩
  intro a _ _ _
  show 100 ≤ (Example.fundedDb x).balance 1
  rfl

/-- Recording Alice's money for Bob goes unnoticed. -/
theorem tamper_undetected : ¬ ∀ (D : Deployment Nat) (st : LedgerState Nat) (c : EntryChange)
    (ws : List DbWrite) (ids : List ObjectId) (r : ReconciliationReport),
    Reachable D.system st → c.Accepted (D.db st) →
    Progress ((D.db st).tampered c) gatherReport ws ids (.done r) → r.healthy = false := by
  intro h
  obtain ⟨st, x, hst, hdb, -⟩ := Example.funded Example.deployment.calls rfl
  obtain ⟨journal, hjournal⟩ := Deployment.represents hst
  obtain ⟨checkedAt, hrun⟩ := gatherReport_runs ((Example.fundedDb x).tampered (Example.diverted x))
  rw [hdb] at hjournal
  have haccepted := Example.diverted_accepted hjournal
  have hdetected := h _ st _ _ _ _ hst (hdb ▸ haccepted) (by rw [hdb]; exact hrun)
  have hhealthy := (healthy_iff checkedAt).mpr
    ((hjournal.healthy_tampered_iff haccepted).mpr (Example.diverted_unnoticed x))
  exact absurd (hhealthy.symm.trans hdetected) (by decide)

/-- Deleting the credit from the ledger of the example is detected. -/
theorem tamper_detected_deleted : ∃ st x r, Reachable Example.deployment.system st ∧
    Progress ((Example.fundedDb x).tampered (.delete x.creditEntryId)) gatherReport [] []
      (.done r) ∧ r.healthy = false := by
  obtain ⟨st, x, hst, hdb, -⟩ := Example.funded Example.deployment.calls rfl
  obtain ⟨checkedAt, hrun⟩ :=
    gatherReport_runs ((Example.fundedDb x).tampered (.delete x.creditEntryId))
  have hmem : Example.aliceCredit x ∈ (Example.deployment.db st).ledgerEntries := by
    have hdb : Example.deployment.db st = Example.fundedDb x := hdb
    rw [hdb]
    exact Example.aliceCredit_mem x
  refine ⟨st, x, _, hst, hrun, ?_⟩
  have hdb : Example.deployment.db st = Example.fundedDb x := hdb
  exact (tamper_detected_iff Example.deployment hst (.delete hmem) (by rw [hdb]; exact hrun)).mpr
    not_false

end Example

end Ledgerlock
