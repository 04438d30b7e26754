import Ledgerlock.Spec.Example
import Ledgerlock.Spec.Status

/-!
# Ledgerlock.Spec.Freeze

Accounts frozen or closed while transfers run. `_validate_participants` reads the
status of both accounts in the snapshot of the attempt, and the attempt writes
one account document at most: its source, and only if that is a USER account. So
a status update of a USER source conflicts with the attempt, in whichever order
the two come, and one of the destination or of a SYSTEM source does not: it may
fall between the check and the commit (`frozen_commit`). Where no such update is
made at such a moment, every transfer commits between ACTIVE accounts
(`commits_between_active`).
-/

namespace Ledgerlock

open Mvcc

/-! ### What the locks of a transfer leave out -/

/-- The locks a transfer takes on what others may write too. -/
def sharedLocks (source : Account) (args : TransferArgs) : List DbKey :=
  .idempotencyKey args.idempotencyKey ::
    if source.accountType = .user then [.account args.sourceAccountId] else []

/-- The accounts a transfer checks and does not lock. -/
def unlocked (source : Account) (args : TransferArgs) : List ObjectId :=
  args.destinationAccountId ::
    if source.accountType = .user then [] else [args.sourceAccountId]

theorem sharedLocks_subset {source : Account} {args : TransferArgs} {x : Stamp}
    (hid : source.id = args.sourceAccountId) :
    ∀ k ∈ sharedLocks source args,
      k ∈ (transferWrites source args x).flatMap DbWrite.footprint := by
  intro k hk
  rcases List.mem_cons.mp hk with rfl | hk
  · simp [transferWrites, DbWrite.footprint, DbWrite.newKeys, Transaction.keys, Stamp.header,
      transactionDocument]
  · split at hk
    · rename_i huser
      rw [List.mem_singleton.mp hk]
      simp [transferWrites, lockWrites, huser, DbWrite.footprint, hid]
    · simp at hk

theorem Accepts.active_of_unlocked {d : Database} {args : TransferArgs}
    {source destination : Account} (h : Accepts d args source destination) :
    ∀ id ∈ unlocked source args, d.Active id := by
  intro id hid
  rcases List.mem_cons.mp hid with rfl | hid
  · exact ⟨destination, h.destinationFound, h.destinationActive⟩
  · split at hid
    · simp at hid
    · rw [List.mem_singleton.mp hid]
      exact ⟨source, h.sourceFound, h.sourceActive⟩

section Freeze

variable {ν : Type} [ServerSum] (D : Deployment ν)

/-- Call `i` has an open attempt that can still commit its transfer: its snapshot
passed every check, and no commit since took a lock it needs. -/
def Deployment.MayCommit (st : LedgerState ν) (i : ν) (args : TransferArgs)
    (source : Account) : Prop :=
  D.calls i = .createTransfer args ∧ ∃ n a, st.phase i = .running n a ∧
    judge (st.dbAt D.system a.start) args = .ok source ∧
    ∀ c ∈ st.log.drop a.start, ∀ k ∈ sharedLocks source args, k ∉ c.footprint

/-- No account is made inactive while a transfer that checked and did not lock it
can still commit. -/
def Deployment.FreezesClear : Prop :=
  ∀ st id status, D.operator st (.setStatus id status) → status ≠ .active →
    ∀ i args source, D.MayCommit st i args source → id ∉ unlocked source args

/-- Every transfer committed between ACTIVE accounts. -/
def Deployment.CommitsBetweenActive (st : LedgerState ν) : Prop :=
  ∀ n c i args, st.log[n]? = some c → c.author = some i → D.calls i = .createTransfer args →
    (replay D.opening (st.log.take n)).Active args.sourceAccountId ∧
      (replay D.opening (st.log.take n)).Active args.destinationAccountId

/-- An attempt that can commit after a commit of another could before it. -/
theorem Deployment.MayCommit.of_append {D : Deployment ν} {st st' : LedgerState ν} [DecidableEq ν]
    (hst : Sound D.system st) {i : ν} {args : TransferArgs}
    {source : Account} {c : Commit ν DbWrite ObjectId} (hlog : st'.log = st.log ++ [c])
    (hphase : ∀ n a, st'.phase i = .running n a → st.phase i = .running n a)
    (h : D.MayCommit st' i args source) : D.MayCommit st i args source := by
  obtain ⟨hcall, n, a, ha, hjudge, hfree⟩ := h
  have hle := (hst.running i n a (hphase n a ha)).start_le
  refine ⟨hcall, n, a, hphase n a ha, ?_, fun d hd => ?_⟩
  · rwa [State.dbAt, hlog, List.take_append_of_le_length hle] at hjudge
  · refine hfree d ?_
    rw [hlog, List.drop_append_of_le_length hle]
    exact List.mem_append_left _ hd

variable [DecidableEq ν] {D} {st st' : LedgerState ν}

/-- The invariant of a run without such freezes. -/
structure Guarded (D : Deployment ν) (st : LedgerState ν) : Prop where
  open_active : ∀ i args source, D.MayCommit st i args source →
    ∀ id ∈ unlocked source args, (D.db st).Active id
  committed : D.CommitsBetweenActive st

/-- The accounts stay ACTIVE for the attempts that remain open if the commit
makes none of them inactive. -/
theorem Guarded.open_active_append (hst : Sound D.system st) (hg : Guarded D st)
    {c : Commit ν DbWrite ObjectId} (hlog : st'.log = st.log ++ [c])
    (hphase : ∀ i n a, st'.phase i = .running n a → st.phase i = .running n a)
    (hc : LedgerCommit D st.log c)
    (hkeeps : ∀ i args source, D.MayCommit st i args source → ∀ id ∈ unlocked source args,
      ∀ status, c.writes = [.setStatus id status] → status = .active) :
    ∀ i args source, D.MayCommit st' i args source →
      ∀ id ∈ unlocked source args, (D.db st').Active id := by
  intro i args source hmay id hid
  have hmay := hmay.of_append hst hlog (hphase i)
  have hactive := hc.active (hkeeps i args source hmay id hid)
    (hg.open_active i args source hmay id hid)
  rwa [Deployment.db, State.db, hlog, replay_concat]

/-- The commits made so far stay as they are. -/
theorem Guarded.committed_append (hg : Guarded D st) {c : Commit ν DbWrite ObjectId}
    (hlog : st'.log = st.log ++ [c])
    (hlast : ∀ i args, c.author = some i → D.calls i = .createTransfer args →
      (D.db st).Active args.sourceAccountId ∧ (D.db st).Active args.destinationAccountId) :
    D.CommitsBetweenActive st' := by
  intro n d i args hd hauthor hcall
  rw [hlog] at hd ⊢
  rcases Nat.lt_trichotomy n st.log.length with hn | rfl | hn
  · rw [List.getElem?_append_left hn] at hd
    rw [List.take_append_of_le_length hn.le]
    exact hg.committed n d i args hd hauthor hcall
  · obtain rfl : c = d := by simpa using hd
    simpa [Deployment.db, State.db, Deployment.system] using hlast i args hauthor hcall
  · have hlong : (st.log ++ [c]).length ≤ n := by simpa using Nat.succ_le_of_lt hn
    rw [List.getElem?_eq_none hlong] at hd
    cases hd

/-- A move opens an attempt on the present state or leaves its snapshot alone. -/
theorem Guarded.move {i : ν} {issued : Set ObjectId}
    {p : Phase Database DbWrite ObjectId Raised Reply}
    (hg : Guarded D st) (h : Move D.system st i issued p) :
    Guarded D (st.moveTo i issued p) := by
  refine ⟨fun j args source hmay => ?_, hg.committed⟩
  obtain ⟨hcall, n, b, hb, hjudge, hfree⟩ := hmay
  by_cases hji : j = i
  · subst hji
    obtain rfl : p = .running n b := by simpa [State.moveTo] using hb
    cases h with
    | begin =>
        obtain ⟨destination, hacc⟩ := judge_eq_ok.mp hjudge
        have hall : st.log.take st.log.length = st.log := List.take_length
        have hacc : Accepts (replay D.opening (st.log.take st.log.length)) args source
            destination :=
          hacc
        rw [hall] at hacc
        exact hacc.active_of_unlocked
    | read hp | write hp | newId hp | now _ hp =>
        exact hg.open_active j args source ⟨hcall, _, _, hp, hjudge, hfree⟩
    | conflict _ _ _ hq => exact hq.not_running.elim
    | fault _ _ hq =>
        rcases hq with hq | hq
        · exact hq.not_running.elim
        · cases hq
  · have hphase : st.phase j = .running n b := by simpa [State.moveTo, hji] using hb
    exact hg.open_active j args source ⟨hcall, n, b, hphase, hjudge, hfree⟩

/-- A transfer commits between ACTIVE accounts: it locked its source, or both
accounts are guarded. -/
theorem Guarded.commit {i : ν} {n : Nat} {a : Attempt Database DbWrite ObjectId Raised Reply}
    {r : Reply} {p : Phase Database DbWrite ObjectId Raised Reply} (hst : Sound D.system st)
    (hg : Guarded D st) (hp : st.phase i = .running n a) (hr : a.rest = .done r)
    (hdone : ∀ m b, p ≠ .running m b) : Guarded D (st.commit i a p) := by
  have hlog : (st.commit i a p).log = st.log ++ [⟨some i, a.start, a.writes, a.ids⟩] := rfl
  have ha := hst.running i n a hp
  have hprog := ha.progress
  rw [hr] at hprog
  have hc := ledgerCommit_of_follows
    (.txn (c := ⟨some i, a.start, a.writes, a.ids⟩) rfl ha.admitted ha.start_le ha.unbeaten hprog
      ha.ids_new)
  have hphase : ∀ j m b, (st.commit i a p).phase j = .running m b →
      st.phase j = .running m b := by
    intro j m b hj
    by_cases hji : j = i
    · subst hji
      exact absurd (by simpa [State.commit] using hj) (hdone m b)
    · simpa [State.commit, hji] using hj
  refine ⟨hg.open_active_append hst hlog hphase hc ?_, hg.committed_append hlog ?_⟩
  · intro j args source _ id _ status hset
    exact absurd hset (hc.ne_setStatus rfl id status)
  · intro j args hauthor hcall
    obtain rfl : i = j := Option.some.inj hauthor
    obtain ⟨-, -, source, x, hjudge, hwrites, -, -⟩ := hc.of_author rfl hcall
    obtain ⟨destination, hacc⟩ := judge_eq_ok.mp hjudge
    have hheld : ∀ c ∈ st.log.drop a.start, ∀ k ∈ sharedLocks source args, k ∉ c.footprint := by
      intro c hmem k hk hkc
      have hlock := sharedLocks_subset (x := x) (Database.findAccount_some hacc.sourceFound).2 k hk
      rw [← hwrites] at hlock
      exact ha.unbeaten c hmem hlock hkc
    have hopen := hg.open_active i args source ⟨hcall, n, a, hp, hjudge, hheld⟩
    refine ⟨?_, hopen _ List.mem_cons_self⟩
    by_cases huser : source.accountType = .user
    · refine active_since hst.history ha.start_le (fun c hmem => hheld c hmem _ ?_)
        ⟨source, hacc.sourceFound, hacc.sourceActive⟩
      simp [sharedLocks, huser]
    · exact hopen _ (by simp [unlocked, huser])

/-- An operator's write, made while nobody minds. -/
theorem Guarded.direct {w : DbWrite} (hclear : D.FreezesClear) (hst : Sound D.system st)
    (hg : Guarded D st) (hop : D.operator st w) (hclash : w.repeatsKey (D.db st) = false) :
    Guarded D (st.commitDirect w) := by
  refine ⟨hg.open_active_append hst rfl (fun _ _ _ h => h)
    (.accountWrite rfl hop hclash) ?_, hg.committed_append rfl ?_⟩
  · intro i args source hmay id hid status hset
    obtain rfl : w = .setStatus id status := List.singleton_inj.mp hset
    by_contra hne
    exact hclear st id status hop hne i args source hmay hid
  · intro i args hauthor
    cases hauthor

theorem Guarded.step (hclear : D.FreezesClear) (hst : Sound D.system st) (hg : Guarded D st)
    (h : Step D.system st st') : Guarded D st' := by
  cases h with
  | move hm => exact hg.move hm
  | commit hp hr => exact hg.commit hst hp hr (by simp)
  | commitLost _ hp hr hq =>
      refine hg.commit hst hp hr fun m b hrunning => ?_
      subst hrunning
      rcases hq with hq | hq
      · exact hq.not_running
      · cases hq
  | direct hop _ _ hclash _ => exact hg.direct hclear hst hop hclash

theorem Guarded.start : Guarded D D.system.start where
  open_active := by
    intro i args source hopen
    obtain ⟨-, n, a, ha, -⟩ := hopen
    cases ha
  committed := by
    intro n c i args hc
    cases hc

/-- In every run in which no account is made inactive at such a moment, no
transfer commits against an account that is not ACTIVE. -/
theorem commits_between_active (D : Deployment ν) (hclear : D.FreezesClear)
    (h : Reachable D.system st) : D.CommitsBetweenActive st := by
  suffices Guarded D st from this.committed
  induction h with
  | refl => exact .start
  | tail hsteps hstep ih => exact ih.step hclear (Reachable.sound hsteps) hstep

end Freeze

/-! ### A freeze between the check and the commit -/

section Example

open scoped Example

/-- The deployment of the example, with an operator who freezes accounts at any
time. -/
def Example.policed : Deployment Nat :=
  { Example.deployment with
    operator := fun _ w => ∃ id, w = .setStatus id .frozen
    operator_accounts := by
      intro st w hop
      obtain ⟨id, rfl⟩ := hop
      exact .setStatus id .frozen }

/-- The funding has taken its snapshot, and then Alice's account was frozen. -/
def Example.frozen : LedgerState Nat :=
  (Example.policed.system.start.begun Example.policed.system 0).commitDirect (.setStatus 1 .frozen)

theorem Example.frozen_reachable : Reachable Example.policed.system Example.frozen := by
  refine (Steps.begun (S := Example.policed.system) (i := 0) rfl rfl).tail
    (.direct ⟨1, rfl⟩ ?_ rfl rfl ?_)
  · intro j n a hj
    by_cases h : j = 0
    · subst h
      obtain rfl : _ = a := (Phase.running.inj hj).2
      simp [Attempt.held]
    · simp [State.begun, System.start, h] at hj
  · intro x hx
    cases hx

/-- A transfer out of the SYSTEM account locks no account. -/
theorem Example.funding_locks {x : Stamp} {w : DbWrite}
    (hw : w ∈ transferWrites Example.boundary Example.funding x) (id : ObjectId) :
    DbKey.account id ∉ w.footprint := by
  have hw : w = .insertTransaction (x.header Example.funding) ∨
      w = .insertLedgerEntry (x.debit Example.funding) ∨
      w = .insertLedgerEntry (x.credit Example.funding) := by
    simpa [transferWrites, lockWrites, Example.boundary] using hw
  rcases hw with rfl | rfl | rfl <;>
    simp [DbWrite.footprint, DbWrite.newKeys, Transaction.keys, LedgerEntry.keys]

/-- The funding goes on and commits, to an account that is frozen by then. -/
theorem frozen_commit : ¬ ∀ (D : Deployment Nat) (st : LedgerState Nat),
    (∀ st w, D.operator st w → ∃ id status, status ≠ .active ∧ w = .setStatus id status) →
    Reachable D.system st → D.CommitsBetweenActive st := by
  intro h
  have hop : ∀ st w, Example.policed.operator st w →
      ∃ id status, status ≠ .active ∧ w = .setStatus id status := by
    intro st w hop
    obtain ⟨id, rfl⟩ := hop
    exact ⟨id, .frozen, by decide, rfl⟩
  have hstart : Reachable Example.policed.system Example.policed.system.start := .refl _
  obtain ⟨x, hids, hprog⟩ := exists_transferred (D := Example.policed) (i := 0) rfl (by decide)
    Example.funding_accepted (idsTaken_of_reachable hstart)
    (hstart.supply Example.policed.issued_finite)
  have hrun : Steps Example.policed.system Example.frozen
      (Example.frozen.runTo 0 1 ⟨0, transferWrites Example.boundary Example.funding x, x.ids,
        .done (.written ⟨x.header Example.funding, x.debitEntryId, x.creditEntryId, 1⟩)⟩) := by
    refine Steps.runTo rfl hprog (fun w hw => ⟨fun j hj n a hphase => ?_, fun c hc => ?_⟩)
      fun y hy hissued => ?_
    · simp [Example.frozen, State.commitDirect, State.begun, System.start, hj] at hphase
    · obtain rfl : c = ⟨none, 0, [.setStatus 1 .frozen], []⟩ := List.mem_singleton.mp hc
      intro k hk hkc
      obtain rfl : k = .account 1 := List.mem_singleton.mp hkc
      exact Example.funding_locks hw 1 hk
    · rcases hissued with hissued | hissued
      · exact hids y hy hissued
      · cases hissued
  have hcommit := hrun.tail (.commit (State.runTo_phase _ _ _ _) rfl)
  obtain ⟨-, a, ha, hactive⟩ := h _ _ hop (Steps.trans Example.frozen_reachable hcommit) 1 _ 0
    Example.funding rfl rfl rfl
  obtain rfl := Option.some.inj ha
  cases hactive

/-- Freezing accounts while no transfer is open. -/
def Example.considerate : Deployment Nat :=
  { Example.deployment with
    operator := fun st w => (∀ i n a, st.phase i ≠ .running n a) ∧ ∃ id, w = .setStatus id .frozen
    operator_accounts := by
      intro st w hop
      obtain ⟨-, id, rfl⟩ := hop
      exact .setStatus id .frozen }

/-- With Bob's account frozen first, the funding of Alice's is written between
ACTIVE accounts. -/
theorem commits_between_active_funded : ∃ st x, Reachable Example.considerate.system st ∧
    Example.considerate.db st = view (Example.deployment.opening.write (.setStatus 2 .frozen))
      (transferWrites Example.boundary Example.funding x) ∧
    Example.considerate.CommitsBetweenActive st := by
  have hclear : Example.considerate.FreezesClear := by
    intro st id status hop _ i args source hopen
    obtain ⟨hquiet, -⟩ := hop
    obtain ⟨-, n, a, ha, -⟩ := hopen
    exact absurd ha (hquiet i n a)
  have hstart : Reachable Example.considerate.system Example.considerate.system.start := .refl _
  have hfrozen : Reachable Example.considerate.system
      (Example.considerate.system.start.commitDirect (.setStatus 2 .frozen)) :=
    hstart.tail (.direct ⟨by simp [System.start], 2, rfl⟩ (by simp [System.start]) rfl rfl
      (by simp [DocStore.creates, DbWrite.creates]))
  have hjudge : judge (Example.deployment.opening.write (.setStatus 2 .frozen)) Example.funding =
      .ok Example.boundary := by rfl
  obtain ⟨st, x, hsteps, hdb, -⟩ := Example.considerate.exists_written hfrozen (i := 0) rfl
    (fun _ _ _ _ h => by cases h) rfl (by decide) hjudge
  have hst : Reachable Example.considerate.system st := Steps.trans hfrozen hsteps
  exact ⟨st, x, hst, hdb, commits_between_active _ hclear hst⟩

end Example

end Ledgerlock
