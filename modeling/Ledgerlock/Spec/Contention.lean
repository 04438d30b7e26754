import Ledgerlock.Mvcc.Authors
import Ledgerlock.Spec.Idempotency
import Mathlib.Algebra.Order.BigOperators.Group.Finset
import Mathlib.Data.Int.Interval

/-!
# Ledgerlock.Spec.Contention

Debits that compete for one balance.

While nothing else touches a USER account, every commit of the competing calls
takes its amount from the account and nothing gives any back
(`Contention.balance_commit`). So the balance at the end is what the accepted
calls left of the opening one. And a rejection is not spurious while the server
sums in integers: the snapshot balance that was found short had at least what is
left at the end. A balance that the server holds as a double can be found short
of an amount that it covers (`Rounding`).
-/

namespace Ledgerlock

open Mvcc

section Authors

variable {ν : Type} [DecidableEq ν]

/-- The calls among `calls` that made the commits of a log, in order. -/
def authors (calls : Finset ν) (log : List (Commit ν DbWrite ObjectId)) : List ν :=
  log.filterMap fun c => c.author.filter (· ∈ calls)

theorem mem_authors {calls : Finset ν} {log : List (Commit ν DbWrite ObjectId)} {i : ν} :
    i ∈ authors calls log ↔ i ∈ calls ∧ ∃ c ∈ log, c.author = some i := by
  simp only [authors, List.mem_filterMap, Option.filter_eq_some_iff, decide_eq_true_eq]
  constructor
  · intro hfound
    obtain ⟨c, hc, hi, hmem⟩ := hfound
    exact ⟨hmem, c, hc, hi⟩
  · intro hfound
    obtain ⟨hmem, c, hc, hi⟩ := hfound
    exact ⟨c, hc, hi, hmem⟩

/-- What a commit takes from the account. -/
def debited (calls : Finset ν) (args : ν → TransferArgs) (c : Commit ν DbWrite ObjectId) : Int :=
  match c.author with
  | some i => if i ∈ calls then (args i).amountMinor else 0
  | none => 0

/-- What is debited is what the authors of the commits were accepted for. -/
theorem sum_debited (calls : Finset ν) (args : ν → TransferArgs)
    (log : List (Commit ν DbWrite ObjectId)) :
    (log.map (debited calls args)).sum =
      ((authors calls log).map fun i => (args i).amountMinor).sum := by
  induction log with
  | nil => rfl
  | cons c log ih =>
      have hcons : authors calls (c :: log) =
          (c.author.filter (· ∈ calls)).toList ++ authors calls log := by
        cases h : c.author.filter (· ∈ calls) <;> simp [authors, h]
      rw [List.map_cons, List.sum_cons, ih, hcons, List.map_append, List.sum_append, debited]
      cases c.author with
      | none => simp
      | some i => by_cases hmem : i ∈ calls <;> simp [hmem, Option.filter]

end Authors

section Contention

variable {ν : Type} [DecidableEq ν] [ServerSum]

/-- No transfer call is the author of two commits. -/
theorem authors_nodup {D : Deployment ν} {calls : Finset ν}
    {log : List (Commit ν DbWrite ObjectId)} (hlog : History D.system log)
    (hcalls : ∀ i ∈ calls, ∃ args, D.calls i = .createTransfer args) :
    (authors calls log).Nodup := by
  induction hlog with
  | nil => exact List.nodup_nil
  | @snoc log c hlog hc ih =>
      rw [authors, List.filterMap_append]
      refine List.Nodup.append ih ?_ ?_
      · cases h : c.author.filter (· ∈ calls) <;> simp [h]
      · intro i hi hic
        obtain ⟨-, d, hd, hdi⟩ := mem_authors.mp hi
        obtain ⟨hmem, c', hc', hci⟩ := mem_authors.mp hic
        obtain rfl := List.mem_singleton.mp hc'
        obtain ⟨args, hcall⟩ := hcalls i hmem
        exact author_new hlog hc hci hcall d hd hdi

/-- A call that comes to insufficient funds found a balance short. -/
theorem short_of_ends {D : Deployment ν} {st : LedgerState ν} {i : ν} {args : TransferArgs}
    {m : Nat} (hst : Reachable D.system st) (hacc : Accounted D.system m st i)
    (hcall : D.calls i = .createTransfer args) {accountId : ObjectId}
    {balance requested shortfall : Int}
    (hend : D.Ends st i (.error (.ledgerlock
      (.insufficientFunds accountId balance requested shortfall)))) :
    ∃ k, m ≤ k ∧ k ≤ st.log.length ∧ judge (replay D.opening (st.log.take k)) args =
      .error (.ledgerlock (.insufficientFunds accountId balance requested shortfall)) := by
  obtain ⟨n, f, hphase, hraises⟩ := Deployment.ends_error.mp hend
  rw [hcall] at hraises
  cases hacc.returned n _ hphase with
  | @rejected k _ hm hk hrej =>
      rcases rejected_transfer hcall (hst.history.take _) hrej with
        ⟨-, rfl⟩ | ⟨-, ⟨e, hjudge, rfl⟩ | ⟨-, rfl⟩⟩
      · cases hraises
      · obtain rfl : e = _ := hraises
        exact ⟨_, hm, hk, hjudge⟩
      · cases hraises
  | conflict | invalid => cases hraises
  | fault _ hf => rcases hf with rfl | rfl <;> cases hraises
  | lost _ _ _ _ _ _ hf => rcases hf with rfl | rfl <;> cases hraises

/-- From `st` to `st'` the transfers `calls` compete for the balance of one USER
account, and nothing else touches it. They start on it as `st` left it, and come to
a success or to insufficient funds; what else `create_transfer` checks they must
have passed then. -/
structure Contention (D : Deployment ν) (st st' : LedgerState ν) (accountId : ObjectId)
    (calls : Finset ν) (args : ν → TransferArgs) : Prop where
  reachable : Reachable D.system st
  steps : Steps D.system st st'
  user : ∃ a ∈ (D.db st).accounts, a.id = accountId ∧ a.accountType = .user
  idle : ∀ i ∈ calls, st.phase i = .idle
  transfer : ∀ i ∈ calls, D.calls i = .createTransfer (args i)
  debit : ∀ i ∈ calls, (args i).sourceAccountId = accountId
  amount : ∀ i ∈ calls, 0 < (args i).amountMinor
  apart : ∀ c ∈ st'.log.drop st.log.length, ∀ j args', c.author = some j → j ∉ calls →
    D.calls j = .createTransfer args' →
      args'.sourceAccountId ≠ accountId ∧ args'.destinationAccountId ≠ accountId
  ended : ∀ i ∈ calls, (∃ reply, D.Ends st' i (.ok reply)) ∨ ∃ balance requested shortfall,
    D.Ends st' i (.error (.ledgerlock
      (.insufficientFunds accountId balance requested shortfall)))

namespace Contention

variable {D : Deployment ν} {st st' : LedgerState ν} {accountId : ObjectId}
  {calls : Finset ν} {args : ν → TransferArgs}

variable (h : Contention D st st' accountId calls args)
include h

theorem log_eq : st'.log = st.log ++ st'.log.drop st.log.length := by
  obtain ⟨later, hlater⟩ := h.steps.log_grows
  rw [← hlater]
  simp

/-- One commit takes from the account what it is to take, and gives nothing. -/
theorem balance_commit {m : Nat} {c : Commit ν DbWrite ObjectId} (hm : st.log.length ≤ m)
    (hc : st'.log[m]? = some c) :
    (view (replay D.opening (st'.log.take m)) c.writes).balance accountId =
      (replay D.opening (st'.log.take m)).balance accountId - debited calls args c := by
  have hst' : Reachable D.system st' := Steps.trans h.reachable h.steps
  have hlater : c ∈ st'.log.drop st.log.length := by
    refine List.mem_of_getElem? (i := m - st.log.length) ?_
    rw [List.getElem?_drop, Nat.add_sub_cancel' hm, hc]
  cases ledgerCommit_of_follows (hst'.history.follows hc) with
  | @transfer i args' source x _ hi hdistinct _ _ hjudge =>
      obtain ⟨_, hacc⟩ := judge_eq_ok.mp hjudge
      let p : Posting := ⟨args', x, hdistinct, hacc.amount_pos⟩
      rw [balance_transferWrites _ p]
      by_cases hmem : i ∈ calls
      · obtain rfl : args i = args' := by simpa [hi, eq_comm] using h.transfer i hmem
        have hdebit := h.debit i hmem
        simp [debited, hmem, p, Posting.transfer, Bookkeeping.Transfer.effect, hdebit,
          Int.sub_eq_add_neg]
      · obtain ⟨hs, hd⟩ := h.apart _ hlater i args' rfl hmem hi
        simp [debited, hmem, p, Posting.transfer, Bookkeeping.Transfer.effect, hs.symm, hd.symm]
  | @reconcile i _ hi =>
      have hmem : i ∉ calls := fun hmem => by simpa [hi] using h.transfer i hmem
      simp [debited, hmem]
  | accountWrite _ hop _ =>
      rw [debited, sub_zero]
      exact accountWrite_balance (D.operator_accounts _ _ hop) _ _

/-- Nothing is given back. -/
theorem debited_nonneg (c : Commit ν DbWrite ObjectId) : 0 ≤ debited calls args c := by
  unfold debited
  split
  · split_ifs with hmem
    · exact (h.amount _ hmem).le
    · exact le_rfl
  · exact le_rfl

theorem length_le : st.log.length ≤ st'.log.length := h.steps.log_grows.length_le

/-- The balance at the end is at most the balance on the way. -/
theorem balance_le_since {k : Nat} (hk : st.log.length ≤ k) (hk' : k ≤ st'.log.length) :
    (D.db st').balance accountId ≤ (replay D.opening (st'.log.take k)).balance accountId := by
  have hst' : Reachable D.system st' := Steps.trans h.reachable h.steps
  refine hst'.history.since
    (P := fun d => d.balance accountId ≤
      (replay D.opening (st'.log.take k)).balance accountId) hk' le_rfl
    fun m c hm hc _ hle => ?_
  have hcommit := h.balance_commit (hk.trans hm) hc
  have hdebited := h.debited_nonneg c
  have : (view (replay D.opening (st'.log.take m)) c.writes).balance accountId ≤
      (replay D.opening (st'.log.take m)).balance accountId := by omega
  exact this.trans hle

/-- The commits in between take from the account what they are to take. -/
theorem balance_at {m : Nat} (hm : st.log.length + m ≤ st'.log.length) :
    (replay D.opening (st'.log.take (st.log.length + m))).balance accountId =
      (D.db st).balance accountId -
        (((st'.log.drop st.log.length).take m).map (debited calls args)).sum := by
  induction m with
  | zero =>
      have hprefix : st'.log.take st.log.length = st.log :=
        (List.prefix_iff_eq_take.mp h.steps.log_grows).symm
      rw [Nat.add_zero, hprefix]
      exact (sub_zero _).symm
  | succ m ih =>
      have hlt : st.log.length + m < st'.log.length := by omega
      have hc := List.getElem?_eq_getElem hlt
      have hc' : (st'.log.drop st.log.length)[m]? = some st'.log[st.log.length + m] := by
        rw [List.getElem?_drop, hc]
      rw [← Nat.add_assoc, List.take_add_one, hc, Option.toList_some, replay_concat,
        h.balance_commit (Nat.le_add_right _ _) hc, ih (by omega), List.take_add_one, hc',
        Option.toList_some, List.map_append, List.sum_append, List.map_singleton,
        List.sum_singleton]
      omega

theorem balance_eq : (D.db st').balance accountId = (D.db st).balance accountId -
    ((st'.log.drop st.log.length).map (debited calls args)).sum := by
  have hend := h.balance_at (m := st'.log.length - st.log.length)
    (by have := h.length_le; omega)
  rw [Nat.add_sub_cancel' h.length_le, List.take_length] at hend
  rw [show (D.db st').balance accountId = (replay D.opening st'.log).balance accountId from rfl,
    hend, ← List.length_drop, List.take_length]

/-- The balance on the way is at most the opening one. -/
theorem balance_le_opening {k : Nat} (hk : st.log.length ≤ k) (hk' : k ≤ st'.log.length) :
    (replay D.opening (st'.log.take k)).balance accountId ≤ (D.db st).balance accountId := by
  have hat := h.balance_at (m := k - st.log.length) (by omega)
  have hnonneg : 0 ≤ (((st'.log.drop st.log.length).take (k - st.log.length)).map
      (debited calls args)).sum := by
    refine List.sum_nonneg fun x hx => ?_
    obtain ⟨c, -, rfl⟩ := List.mem_map.mp hx
    exact h.debited_nonneg c
  rw [Nat.add_sub_cancel' hk] at hat
  omega

/-- No USER account is overdrawn. -/
theorem balance_nonneg : 0 ≤ (D.db st').balance accountId := by
  obtain ⟨a, ha, rfl, huser⟩ := h.user
  obtain ⟨_, hearlier⟩ := D.represents h.reachable
  obtain ⟨_, hlater⟩ := D.represents (Steps.trans h.reachable h.steps)
  have hholder : (D.db st').holder a.id = some a.holder := by
    refine holder_since (n := st.log.length) ?_
    rw [← List.prefix_iff_eq_take.mp h.steps.log_grows]
    exact (Database.holder_iff hearlier.keys).mpr ⟨a, ha, rfl, rfl⟩
  exact hlater.solvent a.id a.holder hholder huser

/-- The calls that succeed are those that commit. -/
theorem succeeded_iff_author {i : ν} (hi : i ∈ calls) :
    st'.succeeded i = true ↔ ∃ c ∈ st'.log.drop st.log.length, c.author = some i := by
  have hst' : Reachable D.system st' := Steps.trans h.reachable h.steps
  have hcall := h.transfer i hi
  constructor
  · intro hsucceeded
    obtain ⟨n, r, hphase⟩ := State.succeeded_iff.mp hsucceeded
    cases (hst'.accounted i).returned n _ hphase with
    | committed _ _ hc hci _ =>
        rw [h.log_eq] at hc
        rcases List.mem_append.mp hc with hold | hnew
        · -- the call had not begun
          obtain ⟨k, hk⟩ := List.mem_iff_getElem?.mp hold
          exact absurd (h.idle i hi) (h.reachable.settled hk hci).begun
        · exact ⟨_, hnew, hci⟩
  · intro hauthor
    obtain ⟨c, hc, hci⟩ := hauthor
    obtain ⟨k, hk⟩ := List.mem_iff_getElem?.mp (List.mem_of_mem_drop hc)
    have hafter := hst'.settled hk hci
    rcases h.ended i hi with ⟨reply, hend⟩ | ⟨balance, requested, shortfall, hend⟩
    · obtain ⟨n, hphase⟩ := Deployment.ends_ok.mp hend
      exact State.succeeded_iff.mpr ⟨n, reply, hphase⟩
    · exfalso
      rcases hafter.settled with ⟨n', r, hphase', hr⟩ | ⟨-, hacc⟩
      · obtain ⟨n, f, hphase, hraises⟩ := Deployment.ends_error.mp hend
        obtain ⟨rfl, rfl⟩ : n = n' ∧ .error f = r := by simpa [hphase] using hphase'
        rw [hcall] at hraises
        rcases hr with ⟨a, ha⟩ | ⟨-, hf | hf⟩
        · cases ha
        · obtain rfl := Except.error.inj hf
          cases hraises
        · obtain rfl := Except.error.inj hf
          cases hraises
      · -- run again after its commit was lost, it finds its own key
        obtain ⟨m, hm, -, hjudge⟩ := short_of_ends hst' hacc hcall hend
        obtain ⟨id, hid⟩ := judge_of_repeated (key_of_author hst'.history hk hci hcall hm)
        simp [hid] at hjudge

/-- The balance at the end is what the accepted calls left. -/
theorem balance_accepted : (D.db st').balance accountId = (D.db st).balance accountId -
    ∑ i ∈ calls with st'.succeeded i, (args i).amountMinor := by
  have hst' : Reachable D.system st' := Steps.trans h.reachable h.steps
  have hnodup : (authors calls (st'.log.drop st.log.length)).Nodup :=
    (authors_nodup hst'.history fun i hi => ⟨_, h.transfer i hi⟩).sublist
      ((List.drop_sublist _ _).filterMap _)
  have haccepted : (authors calls (st'.log.drop st.log.length)).toFinset =
      calls.filter fun i => st'.succeeded i := by
    ext i
    rw [List.mem_toFinset, mem_authors, Finset.mem_filter]
    exact and_congr_right fun hi => (h.succeeded_iff_author hi).symm
  rw [h.balance_eq, sum_debited, ← List.sum_toFinset _ hnodup, haccepted]

/-- A call that did not succeed was told of insufficient funds. -/
theorem error_of_not_succeeded {i : ν} (hi : i ∈ calls) (hfailed : st'.succeeded i ≠ true) :
    ∃ e, D.Ends st' i (.error e) := by
  rcases h.ended i hi with ⟨reply, hend⟩ | ⟨balance, requested, shortfall, hend⟩
  · obtain ⟨n, hphase⟩ := Deployment.ends_ok.mp hend
    exact absurd (State.succeeded_iff.mpr ⟨n, reply, hphase⟩) hfailed
  · exact ⟨_, hend⟩

/-- A rejection was not spurious: what was found short has only got shorter. -/
theorem rejected_lt
    (hexact : FitsLong ((D.db st).balance accountId) ∨ ∀ i ∈ calls, FitsLong (args i).amountMinor)
    {i : ν} (hi : i ∈ calls) (e : Raised) (hend : D.Ends st' i (.error e)) :
    (D.db st').balance accountId < (args i).amountMinor := by
  have hst' : Reachable D.system st' := Steps.trans h.reachable h.steps
  rcases h.ended i hi with ⟨reply, hend'⟩ | ⟨balance, requested, shortfall, hend'⟩
  · obtain ⟨n, hphase⟩ := Deployment.ends_ok.mp hend'
    obtain ⟨n', f, hphase', -⟩ := Deployment.ends_error.mp hend
    simp [hphase] at hphase'
  · have hacc := h.steps.accounted h.reachable.sound (.inl (h.idle i hi))
    obtain ⟨k, hm, hk, hjudge⟩ := short_of_ends hst' hacc (h.transfer i hi) hend'
    have hexact : FitsLong ((replay D.opening (st'.log.take k)).balance accountId) ∨
        0 ≤ (args i).amountMinor ∧ FitsLong (args i).amountMinor := by
      refine hexact.imp (fun hopening => ?_) fun hall => ⟨(h.amount i hi).le, hall i hi⟩
      have hlow := h.balance_nonneg.trans (h.balance_le_since hm hk)
      have hhigh := h.balance_le_opening hm hk
      obtain ⟨-, hle⟩ := hopening
      constructor <;> omega
    rw [← h.debit i hi] at hexact
    have hshort := balance_lt_of_judge hexact hjudge
    rw [h.debit i hi] at hshort
    exact (h.balance_le_since hm hk).trans_lt hshort

end Contention

/-- Competing debits are neither over- nor under-accepted, where the server adds the
balance up exactly or compares it with amounts that it could store (`AmountMinor` is far
below the bound). -/
theorem contended_debits {D : Deployment ν} {st st' : LedgerState ν} {accountId : ObjectId}
    {calls : Finset ν} {args : ν → TransferArgs} (h : Contention D st st' accountId calls args)
    (hexact : FitsLong ((D.db st).balance accountId) ∨
      ∀ i ∈ calls, FitsLong (args i).amountMinor) :
    (D.db st').balance accountId = (D.db st).balance accountId -
        ∑ i ∈ calls with st'.succeeded i, (args i).amountMinor ∧
      0 ≤ (D.db st').balance accountId ∧
      (∀ i ∈ calls, ∀ e, D.Ends st' i (.error e) →
        (D.db st').balance accountId < (args i).amountMinor) ∧
      ∀ a, 0 < a → (∀ i ∈ calls, (args i).amountMinor = a) →
        ((calls.filter fun i => st'.succeeded i).card : Int) =
          min (calls.card : Int) ((D.db st).balance accountId / a) := by
  have hbalance := h.balance_accepted
  have hnonneg := h.balance_nonneg
  have hrejected : ∀ i ∈ calls, ∀ e, D.Ends st' i (.error e) →
      (D.db st').balance accountId < (args i).amountMinor :=
    fun i hi e hend => h.rejected_lt hexact hi e hend
  refine ⟨hbalance, hnonneg, hrejected, fun a ha hamount => ?_⟩
  have hsum : ∑ i ∈ calls with st'.succeeded i, (args i).amountMinor =
      ((calls.filter fun i => st'.succeeded i).card : Int) * a := by
    rw [Finset.sum_congr rfl fun i hi => hamount i (Finset.mem_filter.mp hi).1,
      Finset.sum_const, nsmul_eq_mul]
  have hle := Finset.card_filter_le calls fun i => st'.succeeded i = true
  rw [hsum] at hbalance
  have hquotient : ((calls.filter fun i => st'.succeeded i).card : Int) ≤
      (D.db st).balance accountId / a := (Int.le_ediv_iff_mul_le ha).mpr (by omega)
  rcases Nat.lt_or_eq_of_le hle with hlt | heq
  · -- a call was rejected, so less than one amount is left
    obtain ⟨i, hi, hfailed⟩ : ∃ i ∈ calls, st'.succeeded i ≠ true := by
      by_contra hall
      push Not at hall
      exact absurd (congrArg Finset.card (Finset.filter_true_of_mem hall)) hlt.ne
    obtain ⟨e, hend⟩ := h.error_of_not_succeeded hi hfailed
    have hshort := hrejected i hi e hend
    rw [hamount i hi] at hshort
    have : (D.db st).balance accountId / a <
        ((calls.filter fun i => st'.succeeded i).card : Int) + 1 := by
      refine (Int.ediv_lt_iff_lt_mul ha).mpr ?_
      rw [add_mul, one_mul]
      omega
    omega
  · omega

end Contention

section Example

open scoped Example

namespace Example

/-- 60 minor units, under a key of their own. -/
def rent : TransferArgs := { payment with idempotencyKey := "rent-0001", amountMinor := 60 }

def groceries : TransferArgs :=
  { payment with idempotencyKey := "groceries-0001", amountMinor := 60 }

/-- Two payments that fit one by one and not together. -/
def competing : Nat → LedgerCall
  | 0 => .createTransfer funding
  | 1 => .createTransfer rent
  | 2 => .createTransfer groceries
  | _ => .reconcile

def competitors : Nat → TransferArgs
  | 1 => rent
  | _ => groceries

/-- The rent is paid, and the groceries are not. -/
theorem competed : ∃ st st', Contention (deployment.withCalls competing) st st' 1 {1, 2}
    competitors ∧ ((deployment.withCalls competing).db st).balance 1 = 100 := by
  let D := deployment.withCalls competing
  obtain ⟨st, x, hst, hdb, h₀, hidle⟩ := funded competing rfl
  have hquiet := quietBut_of_funded h₀ hidle
  have hrent : judge (D.db st) rent = .ok alice := by
    rw [show D.db st = fundedDb x from hdb]
    rfl
  obtain ⟨st₁, y, hsteps₁, hdb₁, ⟨n, hfirst⟩, hrest₁, -⟩ :=
    D.exists_written hst (hidle 1 (by decide)) (hquiet 1) rfl (by decide) hrent
  have hst₁ : Reachable D.system st₁ := Steps.trans hst hsteps₁
  have hgroceries : judge (D.db st₁) groceries =
      .error (.ledgerlock (.insufficientFunds 1 40 60 20)) := by
    rw [hdb₁, show D.db st = fundedDb x from hdb]
    rfl
  have hidle₁ : ∀ i, i ≠ 0 → i ≠ 1 → st₁.phase i = .idle := fun i hi₀ hi₁ => by
    rw [hrest₁ i hi₁, hidle i hi₀]
  have hquiet₁ : st₁.QuietBut 2 := by
    intro i hi m a
    by_cases hi₁ : i = 1
    · subst hi₁
      simp [hfirst]
    · rw [hrest₁ i hi₁]
      exact hquiet 2 i hi m a
  obtain ⟨st₂, hsteps₂, -, hend, hrest₂⟩ :=
    D.exists_rejected hst₁ (hidle₁ 2 (by decide) (by decide)) hquiet₁ rfl (by decide) hgroceries
  have hsteps : Steps D.system st st₂ := Steps.trans hsteps₁ hsteps₂
  refine ⟨st, st₂, ⟨hst, hsteps, ?_, ?_, ?_, ?_, ?_,
    fun c hc j args' hj hout hcall => ?_, ?_⟩, ?_⟩
  · rw [show D.db st = fundedDb x from hdb]
    exact ⟨alice, .tail _ (.head _), rfl, rfl⟩
  · intro i hi
    refine hidle i fun hzero => ?_
    simp [hzero] at hi
  · intro i hi
    rcases Finset.mem_insert.mp hi with rfl | hi
    · rfl
    · rw [Finset.mem_singleton.mp hi]
      rfl
  · intro i hi
    rcases Finset.mem_insert.mp hi with rfl | hi
    · rfl
    · rw [Finset.mem_singleton.mp hi]
      rfl
  · decide
  · -- nobody else commits: the funding is over
    exfalso
    match j with
    | 0 =>
        obtain ⟨n, r, hreturned⟩ := h₀
        exact hsteps.not_author hreturned c hc hj
    | 1 | 2 => simp at hout
    | _ + 3 => cases hcall
  · intro i hi
    rcases Finset.mem_insert.mp hi with rfl | hi
    · exact .inl ⟨_, Deployment.ends_ok.mpr ⟨n, (hrest₂ 1 (by decide)).trans hfirst⟩⟩
    · rw [Finset.mem_singleton.mp hi]
      exact .inr ⟨_, _, _, hend⟩
  · rw [show (deployment.withCalls competing).db st = fundedDb x from hdb]
    rfl

end Example

/-- Of two payments of 60 out of 100, one is accepted and 40 are left. -/
theorem contended_debits_competed : ∃ st st',
    Contention (Example.deployment.withCalls Example.competing) st st' 1 {1, 2}
      Example.competitors ∧
    (((({1, 2} : Finset Nat).filter fun i => st'.succeeded i).card : Int) = 1) ∧
    ((Example.deployment.withCalls Example.competing).db st').balance 1 = 40 := by
  obtain ⟨st, st', h, hopening⟩ := Example.competed
  obtain ⟨hbalance, -, -, hcount⟩ := contended_debits h (.inr (by decide))
  have hamount : ∀ i ∈ ({1, 2} : Finset Nat), (Example.competitors i).amountMinor = 60 := by
    decide
  have hone := hcount 60 (by decide) hamount
  rw [hopening] at hone
  refine ⟨st, st', h, hone, ?_⟩
  rw [hbalance, hopening, Finset.sum_congr rfl fun i hi =>
    hamount i (Finset.mem_filter.mp hi).1, Finset.sum_const, nsmul_eq_mul, hone]
  rfl

end Example

section Rounding

/-! ### A balance that is a double -/

/-- On `d` a call can be turned down for nothing but the funds. -/
def TransferArgs.InOrder (args : TransferArgs) (d : Database) : Prop :=
  d.findByIdempotencyKey args.idempotencyKey = none ∧
    args.sourceAccountId ≠ args.destinationAccountId ∧
    validateParticipants (d.findAccount args.sourceAccountId)
      (d.findAccount args.destinationAccountId) args.sourceAccountId args.destinationAccountId
      args.currency = .ok ()

namespace Rounding

scoped instance : ServerSum := .double

/-- As much as can be stored. -/
def deposit : TransferArgs := { Example.funding with amountMinor := 9223372036854775807 }

def topUp : TransferArgs :=
  { Example.funding with idempotencyKey := "funding-0002", amountMinor := 2 }

/-- All of both. -/
def withdrawal : TransferArgs := { Example.payment with amountMinor := 9223372036854775809 }

def deployment : Deployment Nat := Example.deployment.withCalls fun
  | 0 => .createTransfer deposit
  | 1 => .createTransfer topUp
  | 2 => .createTransfer withdrawal
  | _ => .reconcile

theorem rounded : ServerSum.sum [9223372036854775807, 2] = 9223372036854775808 := by
  decide +kernel

/-- When the fundings are written. -/
def toppedUpDb (x y : Stamp) : Database :=
  view (view deployment.opening (transferWrites Example.boundary deposit x))
    (transferWrites Example.boundary topUp y)

/-- Both fundings are written, one after the other. -/
theorem toppedUp : ∃ st x y, Reachable deployment.system st ∧
    deployment.db st = toppedUpDb x y ∧ (∃ n r, st.phase 0 = .returned n r) ∧
    (∃ n r, st.phase 1 = .returned n r) ∧ ∀ i, i ≠ 0 → i ≠ 1 → st.phase i = .idle := by
  obtain ⟨st₁, x, hsteps₁, hdb₁, ⟨n₁, hfirst⟩, hrest₁, -⟩ :=
    deployment.exists_written (.refl deployment.system.start) (i := 0) rfl
      (fun _ _ _ _ h => by cases h) rfl (by decide)
      (show judge deployment.opening deposit = .ok Example.boundary by decide)
  have hst₁ : Reachable deployment.system st₁ := hsteps₁
  have htopUp : judge (deployment.db st₁) topUp = .ok Example.boundary := by
    rw [hdb₁]
    rfl
  have hidle₁ : ∀ i, i ≠ 0 → st₁.phase i = .idle := hrest₁
  obtain ⟨st₂, y, hsteps₂, hdb₂, ⟨n₂, hsecond⟩, hrest₂, -⟩ :=
    deployment.exists_written hst₁ (hidle₁ 1 (by decide))
      (Example.quietBut_of_funded ⟨n₁, _, hfirst⟩ hidle₁ 1) rfl (by decide) htopUp
  refine ⟨st₂, x, y, Steps.trans hst₁ hsteps₂, ?_,
    ⟨n₁, _, (hrest₂ 0 (by decide)).trans hfirst⟩, ⟨n₂, _, hsecond⟩, fun i hzero hone => ?_⟩
  · rw [hdb₂, hdb₁]
    rfl
  · rw [hrest₂ i hone, hidle₁ i hzero]

/-- The double that the balance is added up to does not cover the withdrawal. -/
theorem judge_withdrawal (x y : Stamp) : judge (toppedUpDb x y) withdrawal =
    .error (.ledgerlock (.insufficientFunds 1 9223372036854775808 9223372036854775809 1)) := by
  have hsum : (computeBalance (toppedUpDb x y) 1).balanceMinor = 9223372036854775808 := by
    rw [computeBalance_balanceMinor]
    exact rounded
  have hsource : (toppedUpDb x y).findAccount 1 = some Example.alice := rfl
  have hdestination : (toppedUpDb x y).findAccount 2 = some Example.bob := rfl
  have hkey : (toppedUpDb x y).findByIdempotencyKey "payment-0001" = none := rfl
  simp [judge, withdrawal, Example.payment, hkey, hsource, hdestination, hsum]
  rfl

/-- The balance covers the withdrawal, which is turned down. -/
theorem turnedDown : ∃ st st', Contention deployment st st' 1 {2} (fun _ => withdrawal) ∧
    withdrawal.InOrder (deployment.db st) ∧
    (deployment.db st').balance 1 = withdrawal.amountMinor ∧
    ∃ e, deployment.Ends st' 2 (.error e) := by
  obtain ⟨st, x, y, hst, hdb, ⟨n₀, r₀, hfirst⟩, ⟨n₁, r₁, hsecond⟩, hidle⟩ := toppedUp
  have hquiet : st.QuietBut 2 := by
    intro i _ m a hi
    by_cases hzero : i = 0
    · simp [hzero, hfirst] at hi
    · by_cases hone : i = 1
      · simp [hone, hsecond] at hi
      · simp [hidle i hzero hone] at hi
  have hjudge := judge_withdrawal x y
  rw [← hdb] at hjudge
  obtain ⟨st', hsteps, hdb', hend, -⟩ :=
    deployment.exists_rejected hst (hidle 2 (by decide) (by decide)) hquiet rfl (by decide) hjudge
  refine ⟨st, st', ⟨hst, hsteps, ?_, ?_, ?_, ?_, ?_, fun c hc j args hj hout hcall => ?_, ?_⟩,
    ?_, ?_, _, hend⟩
  · rw [hdb]
    exact ⟨Example.alice, .tail _ (.head _), rfl, rfl⟩
  · intro i hi
    rw [Finset.mem_singleton.mp hi, hidle 2 (by decide) (by decide)]
  · intro i hi
    rw [Finset.mem_singleton.mp hi]
    rfl
  · exact fun _ _ => rfl
  · exact fun _ _ => by decide
  · -- nobody else commits: the fundings are over
    exfalso
    rcases j with _ | _ | _ | j
    · exact hsteps.not_author hfirst c hc hj
    · exact hsteps.not_author hsecond c hc hj
    · simp at hout
    · cases hcall
  · intro i hi
    rw [Finset.mem_singleton.mp hi]
    exact .inr ⟨_, _, _, hend⟩
  · rw [hdb]
    exact ⟨rfl, by decide, rfl⟩
  · rw [hdb', hdb]
    rfl

end Rounding

open scoped Rounding in
/-- Beyond the 64 bits a debit that is in order is turned down although the balance covers it
to the unit. -/
theorem contended_debits_rounded : ¬ ∀ (D : Deployment Nat) (st st' : LedgerState Nat)
    (accountId : ObjectId) (calls : Finset Nat) (args : Nat → TransferArgs),
    Contention D st st' accountId calls args →
    (calls : Set Nat).InjOn (fun i => (args i).idempotencyKey) →
    (∀ i ∈ calls, (args i).InOrder (D.db st)) →
    ∀ i ∈ calls, ∀ e, D.Ends st' i (.error e) →
      (D.db st').balance accountId < (args i).amountMinor := by
  intro hclaim
  obtain ⟨st, st', hcontention, horder, hbalance, e, hend⟩ := Rounding.turnedDown
  have hlt := hclaim _ st st' 1 {2} _ hcontention (by simp) (fun _ _ => horder) 2 (by simp) e hend
  exact absurd hbalance hlt.ne

end Rounding

end Ledgerlock
