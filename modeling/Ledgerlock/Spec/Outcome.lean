import Ledgerlock.Mvcc.Serial
import Ledgerlock.Spec.Commits

/-!
# Ledgerlock.Spec.Outcome

Every way a transfer can end is the decision `judge` makes on one committed
state: the present one if the call runs alone (`alone_transfer`), the one that
explains it if it was rejected in a concurrent run (`rejected_transfer`).

Ids matter here once: a unique index refuses a write of a transfer only over its
idempotency key, because every other key it adds is made of ids nobody else has.
-/

namespace Ledgerlock

open Mvcc

/-- Every id in the unique indexes is taken. -/
def IdsTaken (d : Database) (taken : Set ObjectId) : Prop :=
  ∀ k ∈ d.keys, ∀ x ∈ k.ids, x ∈ taken

/-- The keys a transfer adds are made of its own ids. -/
theorem ids_of_newKeysOf_transferWrites {source : Account} {args : TransferArgs} {x : Stamp}
    {k : DbKey} (hk : k ∈ newKeysOf (transferWrites source args x)) {y : ObjectId}
    (hy : y ∈ k.ids) : y ∈ x.ids := by
  have hlock : newKeysOf (lockWrites source) = [] :=
    List.flatMap_eq_nil_iff.mpr lockWrites_newKeys
  rw [newKeysOf, transferWrites, List.flatMap_append, ← newKeysOf, hlock] at hk
  simp [DbWrite.newKeys, Transaction.keys, LedgerEntry.keys, Stamp.header, Stamp.debit,
    Stamp.credit] at hk
  rcases hk with rfl | rfl | rfl | rfl | rfl | rfl <;> simp [DbKey.ids] at hy <;>
    simp [Stamp.ids, hy]

theorem ids_of_newKeys_accountWrite {w : DbWrite} (hw : AccountWrite w) {k : DbKey}
    (hk : k ∈ w.newKeys) {y : ObjectId} (hy : y ∈ k.ids) : y ∈ w.creates := by
  rcases hw.cases_write with ⟨a, rfl⟩ | ⟨id, status, rfl⟩
  · simp only [DbWrite.newKeys, Account.keys, List.mem_cons] at hk
    rcases hk with rfl | hk
    · simpa [DbKey.ids, DbWrite.creates] using hy
    · split at hk
      · rw [List.mem_singleton.mp hk] at hy
        simp [DbKey.ids] at hy
      · simp at hk
  · simp [DbWrite.newKeys] at hk

/-- A call run alone keeps the unique indexes. -/
theorem keys_nodup_of_alone {ν : Type} {S : System ν Database DbWrite ObjectId Raised Reply}
    {d : Database} {taken : Set ObjectId} {i : ν} {r : Except (Failure Raised) Reply}
    {ws : List DbWrite} {ids : List ObjectId} (h : Alone S d taken i r ws ids) (hd : d.keys.Nodup) :
    (view d ws).keys.Nodup := by
  cases h with
  | done _ hprog _ => exact keys_nodup_of_progress hd hprog
  | refused | raised | duplicate | invalid => exact hd

section Outcome

variable {ν : Type} [ServerSum] {D : Deployment ν} {log : List (Commit ν DbWrite ObjectId)}

theorem LedgerCommit.ids_of_newKeysOf {c : Commit ν DbWrite ObjectId}
    (h : LedgerCommit D log c) {k : DbKey} (hk : k ∈ newKeysOf c.writes) {y : ObjectId}
    (hy : y ∈ k.ids) : y ∈ c.ids := by
  cases h with
  | transfer => exact ids_of_newKeysOf_transferWrites hk hy
  | reconcile => simp at hk
  | accountWrite _ hop _ =>
      refine ids_of_newKeys_accountWrite (D.operator_accounts _ _ hop) (k := k) ?_ hy
      simpa using hk

/-- An id that is new to a run is in no unique index. -/
theorem idsTaken_of_history (h : History D.system log) :
    IdsTaken (replay D.opening log) {x | x ∈ D.system.issued ∨ ∃ c ∈ log, x ∈ c.ids} := by
  intro k hk x hx
  rcases mem_keys_replay.mp hk with hk | ⟨c, hc, hk⟩
  · left
    simp only [Database.keys, Deployment.opening, List.flatMap_nil, List.append_nil,
      List.mem_flatMap, Account.keys, List.mem_cons] at hk
    obtain ⟨a, ha, rfl | hk⟩ := hk
    · exact ⟨a, ha, by simpa [DbKey.ids, eq_comm] using hx⟩
    · split at hk
      · rw [List.mem_singleton.mp hk] at hx
        simp [DbKey.ids] at hx
      · simp at hk
  · right
    obtain ⟨n, hn⟩ := List.mem_iff_getElem?.mp hc
    exact ⟨c, hc, (ledgerCommit_of_follows (h.follows hn)).ids_of_newKeysOf hk hx⟩

/-- On a state that accepts the transfer, and with ids that are new to it, only
the idempotency key can be there already. -/
theorem Intends.clash {d d' : Database} {args : TransferArgs} {ws : List DbWrite}
    {ids : List ObjectId} {w : DbWrite} {taken : Set ObjectId} (h : Intends d args ws ids w)
    (htaken : IdsTaken d' taken) (hids : ∀ x ∈ ids, x ∉ taken)
    (hclash : w.repeatsKey d' = true) :
    (∃ source, judge d args = .ok source) ∧
      ∃ t ∈ d'.transactions, t.idempotencyKey = args.idempotencyKey := by
  obtain ⟨k, hk, hkd⟩ := repeatsKey_eq_true.mp hclash
  refine ⟨h.judged (List.ne_nil_of_mem hk), ?_⟩
  rcases h.keys k hk with rfl | ⟨hne, hkids⟩
  · exact Database.mem_keys_idempotencyKey.mp hkd
  · obtain ⟨x, hx⟩ := List.exists_mem_of_ne_nil _ hne
    exact absurd (htaken k hkd x hx) (hids x (hkids x hx))

/-- An attempt repeats no key of its own snapshot. -/
theorem Intends.no_clash {d : Database} {args : TransferArgs} {ws : List DbWrite}
    {ids : List ObjectId} {w : DbWrite} {taken : Set ObjectId} (h : Intends d args ws ids w)
    (htaken : IdsTaken d taken) (hids : ∀ x ∈ ids, x ∉ taken) :
    w.repeatsKey (view d ws) = false := by
  rw [repeatsKey_eq_false]
  intro k hk hkv
  rcases mem_keys_view.mp hkv with hkd | hkw
  · obtain ⟨⟨source, hsource⟩, t, ht, hkey⟩ :=
      h.clash htaken hids (repeatsKey_eq_true.mpr ⟨k, hk, hkd⟩)
    obtain ⟨_, hacc⟩ := judge_eq_ok.mp hsource
    exact hacc.newKey t ht hkey
  · obtain ⟨v, hv, hkv⟩ := List.mem_flatMap.mp hkw
    exact h.apart v hv hkv hk

/-- How a transfer can end on the state `d`. -/
inductive TransferEnds (d : Database) (args : TransferArgs) (attempts : Nat) :
    Except (Failure Raised) Reply → List DbWrite → List ObjectId → Prop
  | refused {ids : List ObjectId} : args.sourceAccountId = args.destinationAccountId →
      TransferEnds d args attempts
        (.error (.raised (.ledgerlock (.sameAccountTransfer args.sourceAccountId)))) [] ids
  | rejected {e : Raised} {ids : List ObjectId} :
      args.sourceAccountId ≠ args.destinationAccountId → judge d args = .error e →
      TransferEnds d args attempts (.error (.raised e)) [] ids
  | written {source : Account} {x : Stamp} :
      args.sourceAccountId ≠ args.destinationAccountId → judge d args = .ok source →
      TransferEnds d args attempts
        (.ok (.written ⟨x.header args, x.debitEntryId, x.creditEntryId, attempts⟩))
        (transferWrites source args x) x.ids

namespace TransferEnds

variable {d : Database} {args : TransferArgs} {attempts : Nat}
  {r : Except (Failure Raised) Reply} {ws : List DbWrite} {ids : List ObjectId}

theorem written_of_judge (h : TransferEnds d args attempts r ws ids)
    (hdistinct : args.sourceAccountId ≠ args.destinationAccountId) {source : Account}
    (hjudge : judge d args = .ok source) : ∃ x : Stamp,
      r = .ok (.written ⟨x.header args, x.debitEntryId, x.creditEntryId, attempts⟩) ∧
        ws = transferWrites source args x ∧ ids = x.ids := by
  cases h with
  | refused hsame => exact absurd hsame hdistinct
  | rejected _ hreject => exact absurd (hjudge.symm.trans hreject) (by simp)
  | @written source' x _ haccept =>
      obtain rfl : source = source' := Except.ok.inj (hjudge.symm.trans haccept)
      exact ⟨x, rfl, rfl, rfl⟩

theorem rejected_of_judge (h : TransferEnds d args attempts r ws ids)
    (hdistinct : args.sourceAccountId ≠ args.destinationAccountId) {e : Raised}
    (hjudge : judge d args = .error e) : r = .error (.raised e) ∧ ws = [] := by
  cases h with
  | refused hsame => exact absurd hsame hdistinct
  | @rejected e' _ _ hreject =>
      obtain rfl : e = e' := Except.error.inj (hjudge.symm.trans hreject)
      exact ⟨rfl, rfl⟩
  | written _ haccept => exact absurd (hjudge.symm.trans haccept) (by simp)

end TransferEnds

/-- A call is admitted unless it is a transfer from an account to itself. -/
theorem admission_eq_some {args : TransferArgs} {e : Raised}
    (h : (LedgerCall.createTransfer args).toCall.admission = some e) :
    args.sourceAccountId = args.destinationAccountId ∧
      e = .ledgerlock (.sameAccountTransfer args.sourceAccountId) := by
  simp only [LedgerCall.toCall, createTransferAdmission] at h
  split at h
  · exact ⟨‹_›, (Option.some.inj h).symm⟩
  · cases h

/-- A transfer run alone is applied or rejected as `judge` says. -/
theorem alone_transfer {i : ν} {args : TransferArgs} {d : Database} {taken : Set ObjectId}
    {r : Except (Failure Raised) Reply} {ws : List DbWrite} {ids : List ObjectId}
    (hcall : D.calls i = .createTransfer args) (htaken : IdsTaken d taken)
    (h : Alone D.system d taken i r ws ids) : TransferEnds d args 1 r ws ids := by
  have hsystem : D.system.call i = (LedgerCall.createTransfer args).toCall :=
    congrArg LedgerCall.toCall hcall
  have hwp := (LedgerCall.createTransfer args).body_wp d 1
  cases h with
  | refused hadm =>
      rw [hsystem] at hadm
      obtain ⟨hsame, rfl⟩ := admission_eq_some hadm
      exact .refused hsame
  | done hadm hprog _ =>
      rw [hsystem] at hadm hprog
      obtain ⟨result, rfl, source, x, hjudge, rfl, rfl, -, rfl⟩ := hprog.wp_done hwp
      exact .written (LedgerCall.admission_eq_none.mp hadm) hjudge
  | raised hadm hprog _ =>
      rw [hsystem] at hadm hprog
      exact .rejected (LedgerCall.admission_eq_none.mp hadm) (hprog.wp_raise hwp)
  | duplicate _ hprog hids hclash =>
      rw [hsystem] at hprog
      have hintends : Intends d args _ _ _ := hprog.wp_write hwp
      exact absurd (hintends.no_clash htaken hids) (ne_false_of_eq_true hclash)
  | invalid _ hprog _ hacc =>
      rw [hsystem] at hprog
      have hintends : Intends d args _ _ _ := hprog.wp_write hwp
      exact absurd hintends.accepted (ne_true_of_eq_false hacc)

/-- A transfer run alone accounts for the ids it uses up. -/
theorem IdsTaken.after {d : Database} {taken : Set ObjectId} {args : TransferArgs} {n : Nat}
    {r : Except (Failure Raised) Reply} {ws : List DbWrite} {ids : List ObjectId}
    (h : IdsTaken d taken) (hends : TransferEnds d args n r ws ids) :
    IdsTaken (view d ws) (taken ∪ {x | x ∈ ids}) := by
  intro k hk y hy
  cases hends with
  | refused | rejected => exact .inl (h k hk y hy)
  | written =>
      rcases mem_keys_view.mp hk with hk | hk
      · exact .inl (h k hk y hy)
      · exact .inr (ids_of_newKeysOf_transferWrites hk hy)

/-- A transfer that a state accepts can be carried through on it. -/
theorem exists_transferred {i : ν} {args : TransferArgs} {source : Account} {d : Database}
    {taken : Set ObjectId} (hcall : D.calls i = .createTransfer args)
    (hdistinct : args.sourceAccountId ≠ args.destinationAccountId)
    (hjudge : judge d args = .ok source) (htaken : IdsTaken d taken)
    (hsupply : ∀ l : List ObjectId, ∃ x, x ∉ taken ∧ x ∉ l) :
    ∃ x : Stamp, (∀ y ∈ x.ids, y ∉ taken) ∧
      Progress d ((D.system.call i).body 1) (transferWrites source args x) x.ids
        (.done (.written ⟨x.header args, x.debitEntryId, x.creditEntryId, 1⟩)) := by
  obtain ⟨r, ws, ids, halone⟩ := exists_alone D.system d hsupply i
  have hends := alone_transfer hcall htaken halone
  obtain ⟨x, rfl, rfl, rfl⟩ := hends.written_of_judge hdistinct hjudge
  cases halone with
  | done _ hprog hids => exact ⟨x, hids, hprog⟩

/-- A transfer rejected in a run is one `judge` rejects, in the state that
explains it; the unique index speaks up where `judge` would find the key. -/
theorem rejected_transfer {i : ν} {args : TransferArgs} {f : Failure Raised}
    (hcall : D.calls i = .createTransfer args) (hlog : History D.system log)
    (h : RejectedAt D.system log i f) :
    (args.sourceAccountId = args.destinationAccountId ∧
      f = .raised (.ledgerlock (.sameAccountTransfer args.sourceAccountId))) ∨
    (args.sourceAccountId ≠ args.destinationAccountId ∧
      ((∃ e, judge (replay D.opening log) args = .error e ∧ f = .raised e) ∨
        ((∃ t ∈ (replay D.opening log).transactions,
          t.idempotencyKey = args.idempotencyKey) ∧ f = .duplicateKey))) := by
  have hsystem : D.system.call i = (LedgerCall.createTransfer args).toCall :=
    congrArg LedgerCall.toCall hcall
  have hbody := (LedgerCall.createTransfer args).body_wp
  have hfresh : ∀ {ids : List ObjectId},
      (∀ x ∈ ids, x ∉ D.system.issued ∧ ∀ d ∈ log, x ∉ d.ids) →
      ∀ x ∈ ids, x ∉ {x | x ∈ D.system.issued ∨ ∃ c ∈ log, x ∈ c.ids} := by
    intro ids h x hx hissued
    rcases hissued with hx' | ⟨c, hc, hx'⟩
    · exact (h x hx).1 hx'
    · exact (h x hx).2 c hc hx'
  cases h with
  | refused hadm =>
      rw [hsystem] at hadm
      obtain ⟨hsame, rfl⟩ := admission_eq_some hadm
      exact .inl ⟨hsame, rfl⟩
  | raised hadm hprog =>
      rw [hsystem] at hadm hprog
      exact .inr ⟨LedgerCall.admission_eq_none.mp hadm, .inl ⟨_, hprog.wp_raise (hbody _ _), rfl⟩⟩
  | repeated _ hprog hids hclash =>
      rw [hsystem] at hprog
      have hintends : Intends _ args _ _ _ := hprog.wp_write (hbody _ _)
      exact absurd (hintends.no_clash (idsTaken_of_history hlog) (hfresh hids))
        (ne_false_of_eq_true hclash)
  | overtaken hadm _ hprog hids hclash =>
      rw [hsystem] at hadm hprog
      have hintends : Intends _ args _ _ _ := hprog.wp_write (hbody _ _)
      exact .inr ⟨LedgerCall.admission_eq_none.mp hadm,
        .inr ⟨(hintends.clash (idsTaken_of_history hlog) (hfresh hids) hclash).2, rfl⟩⟩

/-- The ids a deployment starts with are those of its accounts. -/
theorem Deployment.issued_finite (D : Deployment ν) : D.system.issued.Finite :=
  (List.finite_toSet (D.accounts.map (·.id))).subset fun _ ⟨a, ha, h⟩ =>
    List.mem_map.mpr ⟨a, ha, h⟩

section Runs

variable [DecidableEq ν] {st : LedgerState ν}

theorem idsTaken_of_reachable (h : Reachable D.system st) : IdsTaken (D.db st) st.issued := by
  intro k hk x hx
  rcases idsTaken_of_history h.history k hk x hx with hx | ⟨c, hc, hx⟩
  · exact h.sound.initially_issued x hx
  · exact h.sound.logged_issued c hc x hx

/-- A transfer that nobody stands in the way of comes to what `judge` says of the
present state. -/
theorem Deployment.exists_ended (h : Reachable D.system st) {i : ν} {args : TransferArgs}
    (hidle : st.phase i = .idle) (hquiet : st.QuietBut i)
    (hcall : D.calls i = .createTransfer args) :
    ∃ st' n r ws ids, Steps D.system st st' ∧ D.db st' = view (D.db st) ws ∧
      TransferEnds (D.db st) args 1 r ws ids ∧
      st'.phase = Function.update st.phase i (.returned n r) ∧
      ∀ c ∈ st'.log.drop st.log.length, c.author = some i := by
  obtain ⟨r, ws, ids, halone⟩ :=
    exists_alone D.system (D.db st) (h.supply D.issued_finite) i
  obtain ⟨st', n, hsteps, hdb, -, hphase, hown⟩ := halone.steps hidle hquiet
  exact ⟨st', n, r, ws, ids, hsteps, hdb,
    alone_transfer hcall (idsTaken_of_reachable h) halone, hphase, hown⟩

/-- A transfer that the present state accepts, and that nobody stands in the way
of, is written. -/
theorem Deployment.exists_written (h : Reachable D.system st) {i : ν} {args : TransferArgs}
    {source : Account} (hidle : st.phase i = .idle) (hquiet : st.QuietBut i)
    (hcall : D.calls i = .createTransfer args)
    (hdistinct : args.sourceAccountId ≠ args.destinationAccountId)
    (hjudge : judge (D.db st) args = .ok source) :
    ∃ st' x, Steps D.system st st' ∧
      D.db st' = view (D.db st) (transferWrites source args x) ∧
      (∃ n, st'.phase i = .returned n
        (.ok (.written ⟨x.header args, x.debitEntryId, x.creditEntryId, 1⟩))) ∧
      (∀ j, j ≠ i → st'.phase j = st.phase j) ∧
      ∀ c ∈ st'.log.drop st.log.length, c.author = some i := by
  obtain ⟨st', n, r, ws, ids, hsteps, hdb, hends, hphase, hown⟩ :=
    D.exists_ended h hidle hquiet hcall
  obtain ⟨x, rfl, rfl, rfl⟩ := hends.written_of_judge hdistinct hjudge
  refine ⟨st', x, hsteps, hdb, ⟨n, ?_⟩, fun j hj => ?_, hown⟩
  · rw [hphase, Function.update_self]
  · rw [hphase, Function.update_of_ne hj]

/-- A transfer that the present state rejects, and that nobody stands in the way
of, is rejected. -/
theorem Deployment.exists_rejected (h : Reachable D.system st) {i : ν} {args : TransferArgs}
    {e : Raised} (hidle : st.phase i = .idle) (hquiet : st.QuietBut i)
    (hcall : D.calls i = .createTransfer args)
    (hdistinct : args.sourceAccountId ≠ args.destinationAccountId)
    (hjudge : judge (D.db st) args = .error e) :
    ∃ st', Steps D.system st st' ∧ D.db st' = D.db st ∧ D.Ends st' i (.error e) ∧
      ∀ j, j ≠ i → st'.phase j = st.phase j := by
  obtain ⟨st', n, r, ws, ids, hsteps, hdb, hends, hphase, -⟩ := D.exists_ended h hidle hquiet hcall
  obtain ⟨rfl, rfl⟩ := hends.rejected_of_judge hdistinct hjudge
  refine ⟨st', hsteps, hdb, Deployment.ends_error.mpr ⟨n, .raised e, ?_, ?_⟩, fun j hj => ?_⟩
  · rw [hphase, Function.update_self]
  · rw [hcall]
    rfl
  · rw [hphase, Function.update_of_ne hj]

/-- A reconciliation that runs alone reports on the present state. -/
theorem Deployment.exists_report (h : Reachable D.system st) {i : ν}
    (hidle : st.phase i = .idle) (hquiet : st.QuietBut i) (hcall : D.calls i = .reconcile) :
    ∃ st' checkedAt, Reachable D.system st' ∧ D.db st' = D.db st ∧
      D.Ends st' i (.ok (.report ((D.db st).report checkedAt))) := by
  obtain ⟨r, ws, ids, halone⟩ :=
    exists_alone D.system (D.db st) (h.supply D.issued_finite) i
  obtain ⟨st', n, hsteps, hdb, -, hphase, -⟩ := halone.steps hidle hquiet
  have hsystem : D.system.call i = LedgerCall.reconcile.toCall :=
    congrArg LedgerCall.toCall hcall
  have hwp := LedgerCall.reconcile.body_wp (D.db st) 1
  cases halone with
  | refused hadm =>
      rw [hsystem] at hadm
      cases hadm
  | done _ hprog _ =>
      rw [hsystem] at hprog
      obtain ⟨rfl, rfl, t, rfl⟩ := hprog.wp_done hwp
      refine ⟨st', t, Steps.trans h hsteps, hdb, Deployment.ends_ok.mpr ⟨n, ?_⟩⟩
      rw [hphase, Function.update_self]
  | raised _ hprog _ =>
      rw [hsystem] at hprog
      exact (hprog.wp_raise hwp).elim
  | duplicate _ hprog _ _ =>
      rw [hsystem] at hprog
      exact (hprog.wp_write hwp).elim
  | invalid _ hprog _ _ =>
      rw [hsystem] at hprog
      exact (hprog.wp_write hwp).elim

end Runs

end Outcome

end Ledgerlock
