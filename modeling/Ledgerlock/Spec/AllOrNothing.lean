import Ledgerlock.Mvcc.Authors
import Ledgerlock.Spec.Idempotency

/-!
# Ledgerlock.Spec.AllOrNothing

A transfer is written whole or not at all.

The counter of the source account is written before the balance is read, so a
rejected attempt has written when it is rejected, and one that is aborted may have
written more. None of it is ever seen: the only step of a call that changes the
committed state is the one it returns from with a result (`Change`), and that step
writes everything (`Database.applied`). Hence a counter counts the transfers of its
account (`Counted`), and a call that raised has left nothing behind.
-/

namespace Ledgerlock

open Mvcc

/-- The database with one transfer more: its header, its pair, and one more on the
counter of a USER source. -/
def Database.applied (d : Database) (args : TransferArgs) (x : Stamp) : Database where
  accounts := d.accounts.map fun a =>
    if a.id = args.sourceAccountId ∧ a.accountType = .user then Database.incCounter a else a
  transactions := d.transactions ++ [x.header args]
  ledgerEntries := d.ledgerEntries ++ [x.debit args, x.credit args]

/-- The transactions that an account is the source of. -/
def Database.sourced (d : Database) (accountId : ObjectId) : List Transaction :=
  d.transactions.filter fun t => t.sourceAccountId = accountId

/-- The counter of a USER account counts its transfers, and a SYSTEM account has
none. -/
structure Counted (d : Database) : Prop where
  user : ∀ a ∈ d.accounts, a.accountType = .user →
    a.debitSerialisationCounter.getD 0 = (d.sourced a.id).length
  system : ∀ a ∈ d.accounts, a.accountType = .system → a.debitSerialisationCounter = none

/-- Writing an accepted transfer is applying it, if the accounts that have the id of
its source are of the source's type. -/
theorem view_transferWrites {d : Database} {source : Account} {args : TransferArgs} {x : Stamp}
    (hid : source.id = args.sourceAccountId)
    (htype : ∀ a ∈ d.accounts, a.id = args.sourceAccountId →
      a.accountType = source.accountType) :
    view d (transferWrites source args x) = d.applied args x := by
  obtain ⟨ht, he⟩ := transferWrites_view d source args x
  have ha : (view d (transferWrites source args x)).accounts =
      (d.applied args x).accounts := by
    have hrest : (view d (transferWrites source args x)).accounts =
        (view d (lockWrites source)).accounts := by
      simp only [transferWrites, view_append, view_cons, view_nil]
      rfl
    rw [hrest, lockWrites]
    by_cases huser : source.accountType = .user
    · rw [if_pos huser]
      refine List.map_congr_left fun a hmem => ?_
      by_cases hsource : a.id = args.sourceAccountId
      · simp [hid, hsource, htype a hmem hsource, huser]
      · simp [hid, hsource]
    · rw [if_neg huser]
      refine (List.map_id'' (fun a => rfl) d.accounts).symm.trans ?_
      refine List.map_congr_left fun a hmem => ?_
      have hother : ¬ (a.id = args.sourceAccountId ∧ a.accountType = .user) := fun h =>
        huser (htype a hmem h.1 ▸ h.2)
      rw [if_neg hother]
  cases hview : view d (transferWrites source args x)
  simp_all [Database.applied]

/-! ### The counters -/

/-- The insert of an account brings no counter with it. -/
theorem AccountWrite.counter_none {a : Account} (h : AccountWrite (.insertAccount a)) :
    a.debitSerialisationCounter = none := by
  generalize hw : DbWrite.insertAccount a = w at h
  cases h with
  | create h =>
      obtain ⟨account, -, h⟩ := bind_eq_ok.mp h
      obtain rfl := Except.ok.inj h
      obtain rfl := DbWrite.insertAccount.inj hw
      rfl
  | provision h =>
      unfold ensureSystemAccount at h
      split at h
      · cases h
      · obtain ⟨account, -, h⟩ := bind_eq_ok.mp h
        obtain rfl := Option.some.inj (Except.ok.inj h)
        obtain rfl := DbWrite.insertAccount.inj hw
        rfl
  | setStatus => cases hw

theorem Counted.applied {d : Database} (h : Counted d) (args : TransferArgs) (x : Stamp) :
    Counted (d.applied args x) := by
  constructor
  · intro a ha huser
    obtain ⟨b, hb, rfl⟩ := List.mem_map.mp ha
    by_cases hsource : b.id = args.sourceAccountId ∧ b.accountType = .user
    · have hcount := h.user b hb hsource.2
      simp only [if_pos hsource, Database.incCounter, Option.getD_some, Database.sourced,
        Database.applied, List.filter_append]
      rw [hcount]
      simp [Database.sourced, Stamp.header, transactionDocument, hsource.1]
    · rw [if_neg hsource] at huser ⊢
      have hother : args.sourceAccountId ≠ b.id := fun h => hsource ⟨h.symm, huser⟩
      rw [h.user b hb huser]
      simp [Database.sourced, Database.applied, Stamp.header, transactionDocument, hother]
  · intro a ha hsystem
    obtain ⟨b, hb, rfl⟩ := List.mem_map.mp ha
    by_cases hsource : b.id = args.sourceAccountId ∧ b.accountType = .user
    · rw [if_pos hsource] at hsystem
      exact absurd (hsource.2.symm.trans hsystem) (by simp)
    · rw [if_neg hsource] at hsystem ⊢
      exact h.system b hb hsystem

theorem Counted.accountWrite {d : Database} {journal : List Posting} (h : Counted d)
    (hd : Represents d journal) {w : DbWrite} (hw : AccountWrite w)
    (hclash : w.repeatsKey d = false) : Counted (d.write w) := by
  have hsourced (id : ObjectId) : (d.write w).sourced id = d.sourced id := by
    rw [Database.sourced, (accountWrite_rest hw d).1]
    rfl
  rcases hw.cases_write with ⟨a, rfl⟩ | ⟨id, status, rfl⟩
  · have hnone := hw.counter_none
    have hnew : d.sourced a.id = [] := by
      refine List.filter_eq_nil_iff.mpr fun t ht hsource => ?_
      rw [hd.transactions] at ht
      obtain ⟨p, hp, rfl⟩ := List.mem_map.mp ht
      obtain ⟨_, hholder, -⟩ := hd.source p hp
      obtain ⟨b, hb, hid, -⟩ := (Database.holder_iff hd.keys).mp hholder
      -- the source of a transaction has the id in the index
      have hsource : p.args.sourceAccountId = a.id := of_decide_eq_true hsource
      refine repeatsKey_eq_false.mp hclash (.account a.id)
        (by simp [DbWrite.newKeys, Account.keys]) ?_
      exact Database.mem_keys.mpr (.inl ⟨b, hb, by simp [Account.keys, hid, hsource]⟩)
    constructor
    · intro b hb huser
      rw [hsourced]
      rcases List.mem_append.mp hb with hb | hb
      · exact h.user b hb huser
      · rw [List.mem_singleton.mp hb, hnone, hnew]
        rfl
    · intro b hb hsystem
      rcases List.mem_append.mp hb with hb | hb
      · exact h.system b hb hsystem
      · rw [List.mem_singleton.mp hb, hnone]
  · constructor
    · intro a ha huser
      rw [hsourced]
      obtain ⟨b, hb, rfl⟩ := List.mem_map.mp ha
      split at huser <;> split <;> exact h.user b hb huser
    · intro a ha hsystem
      obtain ⟨b, hb, rfl⟩ := List.mem_map.mp ha
      split at hsystem <;> split <;> exact h.system b hb hsystem

section Runs

variable {ν : Type} [ServerSum] {D : Deployment ν}

/-- A commit of a transfer applies it. -/
theorem applied_of_judge {log : List (Commit ν DbWrite ObjectId)} {start : Nat}
    {args : TransferArgs} {source : Account} {x : Stamp} (hlog : History D.system log)
    (hjudge : judge (replay D.opening (log.take start)) args = .ok source) :
    view (replay D.opening log) (transferWrites source args x) =
      (replay D.opening log).applied args x := by
  obtain ⟨_, hacc⟩ := judge_eq_ok.mp hjudge
  obtain ⟨_, hid⟩ := Database.findAccount_some hacc.sourceFound
  have hkeys := History.keys_nodup hlog D.opening_keys
  have hholder := holder_since (Database.holder_of_findAccount hacc.sourceFound)
  refine view_transferWrites hid fun a ha hsource => ?_
  have hfound := (Database.holder_iff hkeys).mpr ⟨a, ha, hsource, rfl⟩
  have hsame : a.holder = source.holder := Option.some.inj (hfound.symm.trans hholder)
  exact congrArg Holder.accountType hsame

/-- The counters count in every state of a run. -/
theorem counted_of_history {log : List (Commit ν DbWrite ObjectId)}
    (hlog : History D.system log)
    (hfresh : ∀ a ∈ D.accounts, a.debitSerialisationCounter = none) :
    Counted (replay D.opening log) := by
  induction hlog with
  | nil => exact ⟨fun a ha _ => by simp [hfresh a ha, Database.sourced, Deployment.opening],
      fun a ha _ => hfresh a ha⟩
  | @snoc log c hlog hc ih =>
      rw [replay_concat]
      cases ledgerCommit_of_follows hc with
      | transfer _ _ _ _ hjudge =>
          rw [applied_of_judge hlog hjudge]
          exact ih.applied _ _
      | reconcile => exact ih
      | accountWrite _ hop hclash =>
          obtain ⟨journal, hjournal⟩ := D.history_represents hlog
          exact ih.accountWrite hjournal (D.operator_accounts _ _ hop) hclash

variable [DecidableEq ν]

/-- What one step may do to the committed state. -/
inductive Change (D : Deployment ν) (st st' : LedgerState ν) : Prop
  /-- Nothing, and then no transfer succeeds. -/
  | nothing : D.db st' = D.db st →
      (∀ i args, D.calls i = .createTransfer args → st'.succeeded i = st.succeeded i) →
      Change D st st'
  /-- A call returns from its transfer, which is applied. -/
  | applied {i : ν} {args : TransferArgs} {x : Stamp} {attempts : Nat} :
      D.calls i = .createTransfer args → st.succeeded i = false →
      D.Ends st' i (.ok (.written ⟨x.header args, x.debitEntryId, x.creditEntryId, attempts⟩)) →
      (∀ j, j ≠ i → st'.phase j = st.phase j) → D.db st' = (D.db st).applied args x →
      Change D st st'
  /-- A write to `accounts`, by no call. -/
  | operator {w : DbWrite} : D.operator st w → (∀ i, st'.phase i = st.phase i) →
      D.db st' = (D.db st).write w → Change D st st'

/-- Every step is one of these. -/
theorem change_of_step (hlossy : ¬ D.lossy) {st st' : LedgerState ν}
    (h : Reachable D.system st) (hstep : Step D.system st st') : Change D st st' := by
  cases hstep with
  | @move i issued p hm =>
      refine .nothing rfl fun j args _ => ?_
      by_cases hj : j = i
      · subst hj
        have hbefore : st.succeeded j = false := by
          rw [Bool.eq_false_iff, ne_eq, State.succeeded_iff]
          intro hreturned
          obtain ⟨n, r, hphase⟩ := hreturned
          exact hm.not_returned n _ hphase
        have hafter : (st.moveTo j issued p).succeeded j = false := by
          rw [Bool.eq_false_iff, ne_eq, State.succeeded_iff]
          intro hreturned
          obtain ⟨n, r, hphase⟩ := hreturned
          obtain rfl : p = .returned n (.ok r) := by simpa [State.moveTo] using hphase
          exact Move.ne_ok hm
        rw [hbefore, hafter]
      · exact State.succeeded_congr (by simp [State.moveTo, hj])
  | @commit i n a r hp hr =>
      have ha := h.sound.running _ _ _ hp
      have hdone := ha.progress
      rw [hr] at hdone
      have hdone := hdone.wp_done ((D.calls i).body_wp _ n)
      have hbefore : st.succeeded i = false := by
        simp [State.succeeded, hp]
      have hafter : (st.commit i a (.returned n (.ok r))).phase i = .returned n (.ok r) := by
        simp [State.commit]
      have hothers : ∀ j, j ≠ i →
          (st.commit i a (.returned n (.ok r))).phase j = st.phase j := by
        intro j hj
        simp [State.commit, hj]
      have hdb : D.db (st.commit i a (.returned n (.ok r))) = view (D.db st) a.writes :=
        replay_concat _ _ _
      cases hcall : D.calls i with
      | createTransfer args =>
          rw [hcall] at hdone
          obtain ⟨result, rfl, source, x, hjudge, hws, -, -, rfl⟩ := hdone
          refine .applied hcall hbefore (Deployment.ends_ok.mpr ⟨n, hafter⟩) hothers ?_
          rw [hdb, hws]
          exact applied_of_judge h.history hjudge
      | reconcile =>
          rw [hcall] at hdone
          obtain ⟨hws, -, -⟩ := hdone
          refine .nothing (by rw [hdb, hws, view_nil]) fun j args hj => ?_
          refine State.succeeded_congr (hothers j fun hji => ?_)
          rw [hji, hcall] at hj
          cases hj
  | commitLost hl => exact absurd hl hlossy
  | direct hd => exact .operator hd (fun _ => rfl) (replay_concat _ _ _)

/-- What a call that raised has left: nothing. Its key may be another's. -/
theorem unused_of_error (hlossy : ¬ D.lossy) {st : LedgerState ν} (h : Reachable D.system st)
    {i : ν} {args : TransferArgs} {e : Raised}
    (hend : D.Ends st i (.error e)) :
    (∀ c ∈ st.log, c.author ≠ some i) ∧
      ∀ t ∈ (D.db st).transactions, t.idempotencyKey = args.idempotencyKey →
        ∃ j args' result, j ≠ i ∧ D.calls j = .createTransfer args' ∧
          D.Ends st j (.ok (.written result)) ∧ result.transactionDocument = t := by
  obtain ⟨n, f, hphase, -⟩ := Deployment.ends_error.mp hend
  -- without lost commits, the author of a commit has returned from it
  have hreturned {c : Commit ν DbWrite ObjectId} {j : ν} (hc : c ∈ st.log)
      (hj : c.author = some j) : ∃ m r, st.phase j = .returned m (.ok r) := by
    obtain ⟨k, hk⟩ := List.mem_iff_getElem?.mp hc
    rcases (h.settled hk hj).settled with ⟨m, _, hphase, ⟨r, rfl⟩ | ⟨hl, -⟩⟩ | ⟨hl, -⟩
    · exact ⟨m, r, hphase⟩
    · exact absurd hl hlossy
    · exact absurd hl hlossy
  refine ⟨fun c hc hi => ?_, fun t ht hkey => ?_⟩
  · obtain ⟨m, r, hok⟩ := hreturned hc hi
    simp [hphase] at hok
  · rcases mem_transactions_replay.mp ht with ht' | ⟨c, hc, hinsert⟩
    · exact absurd ht' List.not_mem_nil
    obtain ⟨k, hk⟩ := List.mem_iff_getElem?.mp hc
    cases ledgerCommit_of_follows (h.history.follows hk) with
    | @transfer j args' source x start hj _ _ _ _ =>
        obtain ⟨m, r, hok⟩ := hreturned hc rfl
        obtain ⟨c', hc', -, source', y, m', hws, -, rfl⟩ :=
          written_of_ends h hj (Deployment.ends_ok.mpr ⟨m, hok⟩)
        refine ⟨j, args', _, ?_, hj, Deployment.ends_ok.mpr ⟨m, hok⟩, ?_⟩
        · intro hji
          rw [hji, hphase] at hok
          cases hok
        · obtain ⟨journal, hjournal⟩ := D.represents h
          refine Database.transaction_eq_of_idempotencyKey hjournal.keys
            (mem_of_written hc' hws) ht ?_
          rw [eq_header_of_mem hinsert]
          rfl
    | reconcile => cases hinsert
    | accountWrite _ hop _ =>
        obtain rfl := List.mem_singleton.mp hinsert
        rcases (D.operator_accounts _ _ hop).cases_write with ⟨a, ha⟩ | ⟨id, status, ha⟩ <;>
          cases ha

/-- Everything a reachable state owes to calls being applied whole or not at all. -/
structure AllOrNothing (D : Deployment ν) (st : LedgerState ν) : Prop where
  step : ∀ st', Step D.system st st' → Change D st st'
  counted : Counted (D.db st)
  unused : ∀ i args e, D.calls i = .createTransfer args → D.Ends st i (.error e) →
    (∀ c ∈ st.log, c.author ≠ some i) ∧
      ∀ t ∈ (D.db st).transactions, t.idempotencyKey = args.idempotencyKey →
        ∃ j args' result, j ≠ i ∧ D.calls j = .createTransfer args' ∧
          D.Ends st j (.ok (.written result)) ∧ result.transactionDocument = t

end Runs

/-- In every state of every run, wherever attempts fail and however often they are
made again, from accounts that have not been debited yet. -/
theorem allOrNothing {ν : Type} [DecidableEq ν] [ServerSum] (D : Deployment ν)
    (hlossy : ¬ D.lossy) (hfresh : ∀ a ∈ D.accounts, a.debitSerialisationCounter = none)
    {st : LedgerState ν} (h : Reachable D.system st) : AllOrNothing D st where
  step := fun _ hstep => change_of_step hlossy h hstep
  counted := counted_of_history h.history hfresh
  unused := fun _ _ _ _ hend => unused_of_error hlossy h hend

section Example

open scoped Example

/-- In the run of the example Alice has been debited once, and nobody else. -/
theorem allOrNothing_paid : ∃ st x y, Reachable Example.deployment.system st ∧
    Example.deployment.db st = Example.paidDb x y ∧ AllOrNothing Example.deployment st ∧
    ((Example.deployment.db st).accounts.map fun a => a.debitSerialisationCounter) =
      [none, some 1, none] := by
  obtain ⟨st, x, y, hst, hdb, -⟩ := Example.paid
  refine ⟨st, x, y, hst, hdb, allOrNothing _ (fun h => h) (by decide) hst, ?_⟩
  rw [hdb]
  rfl

end Example

end Ledgerlock
