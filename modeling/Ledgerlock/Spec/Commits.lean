import Ledgerlock.Mvcc.Outcome
import Ledgerlock.Spec.Journal

/-!
# Ledgerlock.Spec.Commits

What the commits of a ledger run are, and the invariant they keep.

`LedgerCommit` reads a commit off the history: a transfer its snapshot accepts,
an empty commit of a reconciliation, or a write to `accounts`. The crux is
`LedgerCommit.balance_le`: a commit that does not hold the lock of a USER account
does not debit it. So the balance a transfer checked at its snapshot is a lower
bound for the balance at its commit, and every committed state represents a
journal (`Deployment.represents`).
-/

namespace Ledgerlock

open Mvcc

variable {ν : Type} [ServerSum]

/-! ### The programs of the calls -/

/-- What is asked of one attempt of a call on the snapshot `d`. -/
def LedgerCall.post (d : Database) (attempts : Nat) :
    LedgerCall → Post DbWrite ObjectId Raised Reply
  | createTransfer args =>
      { done := fun reply ws ids => ∃ result, reply = .written result ∧
          (attemptPost d attempts args).done result ws ids
        raise := (attemptPost d attempts args).raise
        write := (attemptPost d attempts args).write }
  | reconcile =>
      { done := fun reply ws ids => ws = [] ∧ ids = [] ∧ ∃ t, reply = .report (d.report t)
        raise := fun _ => False
        write := fun _ _ _ => False }

theorem LedgerCall.body_wp (call : LedgerCall) (d : Database) (attempts : Nat) :
    (call.toCall.body attempts).wp d (call.post d attempts) [] [] := by
  cases call with
  | createTransfer args =>
      rw [toCall, Tx.wp_bind]
      refine Tx.wp_mono ?_ ?_ ?_ (applyTransfer_wp d attempts args)
      · exact fun result ws ids h => ⟨result, rfl, h⟩
      · exact fun e h => h
      · exact fun ws ids w h => h
  | reconcile =>
      rw [toCall, Tx.wp_bind]
      exact gatherReport_wp d fun t => ⟨rfl, rfl, t, rfl⟩

theorem LedgerCall.admission_eq_none {args : TransferArgs} :
    (createTransfer args).toCall.admission = none ↔
      args.sourceAccountId ≠ args.destinationAccountId := by
  simp [toCall, createTransferAdmission]

/-! ### The commits -/

/-- `c` may be the next commit of the ledger after `log`. -/
inductive LedgerCommit (D : Deployment ν) (log : List (Commit ν DbWrite ObjectId)) :
    Commit ν DbWrite ObjectId → Prop
  | transfer {i : ν} {args : TransferArgs} {source : Account} {x : Stamp} {start : Nat} :
      D.calls i = .createTransfer args →
      args.sourceAccountId ≠ args.destinationAccountId → start ≤ log.length →
      (∀ d ∈ log.drop start,
        ((transferWrites source args x).flatMap DbWrite.footprint).Disjoint d.footprint) →
      judge (replay D.opening (log.take start)) args = .ok source →
      LedgerCommit D log ⟨some i, start, transferWrites source args x, x.ids⟩
  | reconcile {i : ν} {start : Nat} : D.calls i = .reconcile →
      LedgerCommit D log ⟨some i, start, [], []⟩
  | accountWrite {w : DbWrite} {st : LedgerState ν} : st.log = log → D.operator st w →
      w.repeatsKey (replay D.opening log) = false →
      LedgerCommit D log ⟨none, log.length, [w], w.creates⟩

/-- Every commit of a history is one of these. -/
theorem ledgerCommit_of_follows {D : Deployment ν} {log : List (Commit ν DbWrite ObjectId)}
    {c : Commit ν DbWrite ObjectId} (h : Follows D.system log c) : LedgerCommit D log c := by
  cases h with
  | @txn c i n r hauthor hadm hle hapart hprog _ =>
      obtain ⟨author, start, writes, ids⟩ := c
      obtain rfl : author = some i := hauthor
      have hdone := hprog.wp_done ((D.calls i).body_wp _ n)
      cases hcall : D.calls i with
      | createTransfer args =>
          rw [hcall] at hdone
          obtain ⟨result, -, source, x, hjudge, rfl, rfl, -, -⟩ := hdone
          have hdistinct := LedgerCall.admission_eq_none.mp
            (by simpa [Deployment.system, hcall] using hadm)
          exact .transfer hcall hdistinct hle hapart hjudge
      | reconcile =>
          rw [hcall] at hdone
          obtain ⟨rfl, rfl, -⟩ := hdone
          exact .reconcile hcall
  | direct hlog hd _ hclash _ => exact .accountWrite hlog hd hclash

/-- A commit that does not hold the lock of a USER account does not debit it. -/
theorem LedgerCommit.balance_le {D : Deployment ν} {log : List (Commit ν DbWrite ObjectId)}
    {c : Commit ν DbWrite ObjectId} (h : LedgerCommit D log c) {id : ObjectId} {u : Holder}
    (hid : (replay D.opening log).holder id = some u) (huser : u.accountType = .user)
    (hfree : DbKey.account id ∉ c.footprint) :
    (replay D.opening log).balance id ≤ (view (replay D.opening log) c.writes).balance id := by
  cases h with
  | @transfer i args source x start _ hdistinct _ _ hjudge =>
      obtain ⟨dst, hacc⟩ := judge_eq_ok.mp hjudge
      let p : Posting := ⟨args, x, hdistinct, hacc.amount_pos⟩
      rw [balance_transferWrites _ p]
      refine le_add_of_nonneg_right (Bookkeeping.effect_nonneg ?_)
      intro hid
      subst hid
      -- the transfer would have locked its source
      have hsource : (replay D.opening log).holder args.sourceAccountId = some source.holder :=
        holder_since (Database.holder_of_findAccount hacc.sourceFound)
      obtain rfl : source.holder = u := Option.some.inj (hsource.symm.trans hid)
      have hlock : lockWrites source = [.incDebitSerialisationCounter source.id] :=
        if_pos huser
      refine hfree ?_
      simp [Commit.footprint, transferWrites, hlock, DocStore.footprint, DbWrite.footprint,
        (Database.findAccount_some hacc.sourceFound).2, p, Posting.transfer]
  | reconcile => exact le_rfl
  | accountWrite _ hop _ => exact (accountWrite_balance (D.operator_accounts _ _ hop) _ _).ge

/-! ### The invariant -/

/-- The balance an accepted transfer saw at its snapshot is still there when it
commits: it has held the lock of its source since. -/
theorem funds_since {D : Deployment ν} {log : List (Commit ν DbWrite ObjectId)} {start : Nat}
    {args : TransferArgs} {source destination : Account} (hlog : History D.system log)
    (hle : start ≤ log.length)
    (hunlocked : ∀ d ∈ log.drop start, DbKey.account args.sourceAccountId ∉ d.footprint)
    (hacc : Accepts (replay D.opening (log.take start)) args source destination)
    (huser : source.accountType = .user) :
    args.amountMinor ≤ (replay D.opening log).balance args.sourceAccountId := by
  refine hlog.since (P := fun d => args.amountMinor ≤ d.balance args.sourceAccountId) hle
    (hacc.funds huser) fun m b hm hb hfollows hbound => ?_
  have hsource : (replay D.opening (log.take m)).holder args.sourceAccountId =
      some source.holder := by
    refine holder_since (n := start) ?_
    rw [List.take_take, Nat.min_eq_left hm]
    exact Database.holder_of_findAccount hacc.sourceFound
  have hlater : b ∈ log.drop start := by
    refine List.mem_of_getElem? (i := m - start) ?_
    rw [List.getElem?_drop, Nat.add_sub_cancel' hm, hb]
  exact hbound.trans
    ((ledgerCommit_of_follows hfollows).balance_le hsource huser (hunlocked b hlater))

/-- What a transfer was checked for at its snapshot still holds when it commits. -/
theorem goodFor_since {D : Deployment ν} {log : List (Commit ν DbWrite ObjectId)}
    {start : Nat} {args : TransferArgs} {source : Account} {x : Stamp}
    (hlog : History D.system log) (hle : start ≤ log.length)
    (hapart : ∀ d ∈ log.drop start,
      ((transferWrites source args x).flatMap DbWrite.footprint).Disjoint d.footprint)
    (hjudge : judge (replay D.opening (log.take start)) args = .ok source) :
    GoodFor (replay D.opening log) args := by
  obtain ⟨destination, hacc⟩ := judge_eq_ok.mp hjudge
  refine ⟨fun t ht htkey => ?_, ⟨source.holder, ?_, hacc.sourceCurrency, fun huser => ?_⟩,
    ⟨destination.holder, ?_, hacc.destinationCurrency⟩⟩
  · have hkey := Database.mem_keys_idempotencyKey.mpr ⟨t, ht, htkey⟩
    rcases mem_keys_since hkey with hkey | ⟨d, hd, hkey⟩
    · obtain ⟨t', ht', htkey'⟩ := Database.mem_keys_idempotencyKey.mp hkey
      exact hacc.newKey t' ht' htkey'
    · -- the transfer has held the key in the unique index since its snapshot
      refine hapart d hd ?_ (newKeysOf_subset_footprint hkey)
      simp [transferWrites, DbWrite.footprint, DbWrite.newKeys, Transaction.keys, Stamp.header,
        transactionDocument]
  · exact holder_since (Database.holder_of_findAccount hacc.sourceFound)
  · refine funds_since hlog hle (fun d hd => ?_) hacc huser
    refine fun h => hapart d hd ?_ h
    have hlock : lockWrites source = [.incDebitSerialisationCounter source.id] := if_pos huser
    simp [transferWrites, hlock, DbWrite.footprint,
      (Database.findAccount_some hacc.sourceFound).2]
  · exact holder_since (Database.holder_of_findAccount hacc.destinationFound)

/-- A commit of a transfer call is its transfer. -/
theorem LedgerCommit.of_author {D : Deployment ν} {log : List (Commit ν DbWrite ObjectId)}
    {c : Commit ν DbWrite ObjectId} (h : LedgerCommit D log c) {i : ν} {args : TransferArgs}
    (hi : c.author = some i) (hcall : D.calls i = .createTransfer args) :
    args.sourceAccountId ≠ args.destinationAccountId ∧ c.start ≤ log.length ∧ ∃ source x,
      judge (replay D.opening (log.take c.start)) args = .ok source ∧
        c.writes = transferWrites source args x ∧ c.ids = x.ids ∧
        ∀ d ∈ log.drop c.start, ((transferWrites source args x).flatMap
          DbWrite.footprint).Disjoint d.footprint := by
  cases h with
  | @transfer j args' source x _ hj hdistinct hle hapart hjudge =>
      obtain rfl := Option.some.inj hi
      obtain rfl : args' = args := by simpa [hj] using hcall
      exact ⟨hdistinct, hle, source, x, hjudge, rfl, rfl, hapart⟩
  | reconcile hj =>
      obtain rfl := Option.some.inj hi
      simp [hj] at hcall
  | accountWrite => cases hi

/-- The key of a transfer call that has committed is there from then on. -/
theorem key_of_author {D : Deployment ν} {log : List (Commit ν DbWrite ObjectId)}
    (hlog : History D.system log) {k : Nat} {c : Commit ν DbWrite ObjectId} {i : ν}
    {args : TransferArgs} (hc : log[k]? = some c) (hi : c.author = some i)
    (hcall : D.calls i = .createTransfer args) {m : Nat} (hm : k < m) :
    ∃ t ∈ (replay D.opening (log.take m)).transactions,
      t.idempotencyKey = args.idempotencyKey := by
  obtain ⟨-, -, source, x, -, hws, -, -⟩ :=
    (ledgerCommit_of_follows (hlog.follows hc)).of_author hi hcall
  refine ⟨x.header args, mem_transactions_replay.mpr (.inr ⟨c, ?_, ?_⟩), rfl⟩
  · refine List.mem_of_getElem? (i := k) ?_
    rw [List.getElem?_take_of_lt hm, hc]
  · rw [hws, transferWrites]
    simp

/-- A transfer call commits once. -/
theorem author_new {D : Deployment ν} {log : List (Commit ν DbWrite ObjectId)}
    {c : Commit ν DbWrite ObjectId} {i : ν} {args : TransferArgs} (hlog : History D.system log)
    (hc : Follows D.system log c) (hi : c.author = some i)
    (hcall : D.calls i = .createTransfer args) : ∀ d ∈ log, d.author ≠ some i := by
  intro d hd hdi
  obtain ⟨k, hk⟩ := List.mem_iff_getElem?.mp hd
  have hlt : k < log.length := (List.getElem?_eq_some_iff.mp hk).1
  obtain ⟨t, ht, hkey⟩ := key_of_author hlog hk hdi hcall hlt
  rw [List.take_length] at ht
  cases ledgerCommit_of_follows hc with
  | @transfer j args' source x _ hj _ hle hapart hjudge =>
      obtain rfl := Option.some.inj hi
      obtain rfl : args' = args := by simpa [hj] using hcall
      exact (goodFor_since hlog hle hapart hjudge).newKey t ht hkey
  | reconcile hj =>
      obtain rfl := Option.some.inj hi
      simp [hj] at hcall
  | accountWrite => cases hi

/-- One commit keeps the invariant: a transfer adds its posting, and nothing
else touches the journal. -/
theorem represents_of_follows {D : Deployment ν} {log : List (Commit ν DbWrite ObjectId)}
    {c : Commit ν DbWrite ObjectId} (hlog : History D.system log)
    (hc : Follows D.system log c)
    (hall : ∀ n, ∃ journal, Represents (replay D.opening (log.take n)) journal) :
    ∃ journal, Represents (view (replay D.opening log) c.writes) journal := by
  obtain ⟨journal, hjournal⟩ : ∃ journal, Represents (replay D.opening log) journal := by
    simpa using hall log.length
  have hkeys : (view (replay D.opening log) c.writes).keys.Nodup :=
    keys_nodup_of_follows hc fun n => (hall n).elim fun _ h => h.keys
  cases ledgerCommit_of_follows hc with
  | @transfer i args source x start _ hdistinct hle hapart hjudge =>
      obtain ⟨destination, hacc⟩ := judge_eq_ok.mp hjudge
      let p : Posting := ⟨args, x, hdistinct, hacc.amount_pos⟩
      exact ⟨journal ++ [p], hjournal.post p (goodFor_since hlog hle hapart hjudge) hkeys⟩
  | reconcile => exact ⟨journal, hjournal⟩
  | accountWrite _ hop hclash =>
      exact ⟨journal, hjournal.accountWrite (D.operator_accounts _ _ hop) hclash⟩

/-- Every state in the history of a run represents a journal. -/
theorem Deployment.history_represents {D : Deployment ν}
    {log : List (Commit ν DbWrite ObjectId)} (h : History D.system log) :
    ∃ journal, Represents (replay D.opening log) journal := by
  refine h.invariant (P := fun d => ∃ journal, Represents d journal)
    ⟨[], D.opening_represents⟩ fun log c hlog hc hall => ?_
  rw [replay_concat]
  exact represents_of_follows hlog hc hall

/-- Every reachable state of every deployment represents a journal. -/
theorem Deployment.represents [DecidableEq ν] {D : Deployment ν} {st : LedgerState ν}
    (h : Reachable D.system st) : ∃ journal, Represents (D.db st) journal :=
  D.history_represents h.history

end Ledgerlock
