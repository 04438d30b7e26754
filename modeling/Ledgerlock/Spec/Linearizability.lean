import Ledgerlock.Mvcc.Linearize
import Ledgerlock.Spec.Example
import Ledgerlock.Spec.SameLedger
import Ledgerlock.Spec.Status

/-!
# Ledgerlock.Spec.Linearizability

A concurrent run of transfers against the same calls made **one at a time**.

The transaction library puts the calls of a run in one order that explains them;
here that order is executed. A commit was checked against a snapshot that is older
than the state it is added to, and the step lemma is that this state still accepts
it (`judge_at_commit`): nobody touched its key or its source, credits do no harm,
and accounts do not change. So the serial execution keeps pace with the log
(`Serially.same`), answer by answer.
-/

namespace Ledgerlock

open Mvcc

/-- What is written for a transfer depends on the type of its source only. -/
theorem transferWrites_congr {source source' : Account} (hid : source.id = source'.id)
    (htype : source.accountType = source'.accountType) (args : TransferArgs) (x : Stamp) :
    transferWrites source args x = transferWrites source' args x := by
  rw [transferWrites, transferWrites, lockWrites, lockWrites, hid, htype]

/-- A success, or the class of the error. -/
def outcomeClass : Except Raised Reply → Option ErrorClass
  | .ok _ => none
  | .error e => some e.errorClass

/-- Neither a `WriteConflictError` nor a failure of the server or the network. -/
def Completed (r : Except Raised Reply) : Prop :=
  outcomeClass r ≠ some (.ledgerlock .writeConflict) ∧ outcomeClass r ≠ some .operationFailure

@[simp] theorem completed_ok (reply : Reply) : Completed (.ok reply) := by
  simp [Completed, outcomeClass]

theorem completed_error {e : Raised} : Completed (.error e) ↔
    e.errorClass ≠ .ledgerlock .writeConflict ∧ e.errorClass ≠ .operationFailure := by
  simp [Completed, outcomeClass]

/-- Answers that correspond still do with one more on either side. -/
theorem answers_cons {ν : Type} {D : Deployment ν} {i : ν} {r r' : Except (Failure Raised) Reply}
    {outcomes answers : List (ν × Except (Failure Raised) Reply)}
    (hhead : ∀ n, outcomeClass ((D.calls i).answer 1 r) = outcomeClass ((D.calls i).answer n r'))
    (h : ∀ j q, (j, q) ∈ outcomes → ∃ q', (j, q') ∈ answers ∧
      ∀ n, outcomeClass ((D.calls j).answer 1 q) = outcomeClass ((D.calls j).answer n q')) :
    ∀ j q, (j, q) ∈ (i, r) :: outcomes → ∃ q', (j, q') ∈ (i, r') :: answers ∧
      ∀ n, outcomeClass ((D.calls j).answer 1 q) = outcomeClass ((D.calls j).answer n q') := by
  intro j q hq
  rcases List.mem_cons.mp hq with hq | hq
  · obtain ⟨rfl, rfl⟩ := Prod.mk.inj hq
    exact ⟨r', List.mem_cons_self, hhead⟩
  · obtain ⟨q', hq', hclass⟩ := h j q hq
    exact ⟨q', List.mem_cons_of_mem _ hq', hclass⟩

section Ledger

variable {ν : Type} [ServerSum] {D : Deployment ν} {log : List (Commit ν DbWrite ObjectId)}

/-! ### Commits are still accepted -/

/-- Without an operator an account that was ACTIVE stays so. -/
theorem active_of_no_operator (hop : ∀ st w, ¬ D.operator st w) (hlog : History D.system log)
    {n : Nat} (hn : n ≤ log.length) {id : ObjectId}
    (h : (replay D.opening (log.take n)).Active id) : (replay D.opening log).Active id := by
  refine hlog.since (P := fun d => d.Active id) hn h fun m c _ _ hfollows hactive => ?_
  have hc := ledgerCommit_of_follows hfollows
  refine hc.active (fun status hset => ?_) hactive
  cases hc with
  | accountWrite _ hw => exact absurd hw (hop _ _)
  | @transfer _ args source x =>
      have hset : transferWrites source args x = [.setStatus id status] := hset
      exact absurd rfl (transferWrites_ne_setStatus (hset ▸ List.mem_singleton_self _) id status)
  | reconcile => cases hset

/-- The state a transfer is committed to still accepts it. -/
theorem judge_at_commit (hop : ∀ st w, ¬ D.operator st w) (hlog : History D.system log)
    {args : TransferArgs} {source : Account} {x : Stamp} {start : Nat}
    (hle : start ≤ log.length)
    (hapart : ∀ d ∈ log.drop start,
      ((transferWrites source args x).flatMap DbWrite.footprint).Disjoint d.footprint)
    (hjudge : judge (replay D.opening (log.take start)) args = .ok source) :
    ∃ source', judge (replay D.opening log) args = .ok source' ∧
      transferWrites source args x = transferWrites source' args x := by
  obtain ⟨destination, hacc⟩ := judge_eq_ok.mp hjudge
  have hgood := goodFor_since hlog hle hapart hjudge
  obtain ⟨a, ha, hactive⟩ := active_of_no_operator hop hlog hle
    ⟨source, hacc.sourceFound, hacc.sourceActive⟩
  obtain ⟨b, hb, hbactive⟩ := active_of_no_operator hop hlog hle
    ⟨destination, hacc.destinationFound, hacc.destinationActive⟩
  -- the source and the destination have the holders they had at the snapshot
  have hsource : a.holder = source.holder := Option.some.inj
    ((Database.holder_of_findAccount ha).symm.trans
      (holder_since (Database.holder_of_findAccount hacc.sourceFound)))
  have hdestination : b.holder = destination.holder := Option.some.inj
    ((Database.holder_of_findAccount hb).symm.trans
      (holder_since (Database.holder_of_findAccount hacc.destinationFound)))
  have htype : a.accountType = source.accountType := congrArg Holder.accountType hsource
  obtain ⟨u, hu, -, hfunds⟩ := hgood.source
  have hholder : u = a.holder :=
    Option.some.inj (hu.symm.trans (Database.holder_of_findAccount ha))
  refine ⟨a, judge_eq_ok.mpr ⟨b, ?_⟩, ?_⟩
  · exact
      { newKey := hgood.newKey
        sourceFound := ha
        destinationFound := hb
        sourceActive := hactive
        destinationActive := hbactive
        sourceCurrency := (congrArg Holder.currency hsource).trans hacc.sourceCurrency
        destinationCurrency :=
          (congrArg Holder.currency hdestination).trans hacc.destinationCurrency
        funds := fun huser => hfunds (by rw [hholder]; exact huser)
        goodKey := hacc.goodKey
        amount_pos := hacc.amount_pos
        goodCurrency := hacc.goodCurrency
        goodDescription := hacc.goodDescription
        amount_fits := hacc.amount_fits }
  · refine transferWrites_congr ?_ htype.symm args x
    exact (Database.findAccount_some hacc.sourceFound).2.trans (Database.findAccount_some ha).2.symm

/-! ### The serial execution keeps pace -/

section Serial

variable {i : ν} {args : TransferArgs} {d : Database} {taken : Set ObjectId}
  {r : Except (Failure Raised) Reply} {ws : List DbWrite} {ids : List ObjectId}

/-- A call that was rejected is rejected for the same reason. -/
theorem same_rejection (hlog : History D.system log) (hd : SameLedger (replay D.opening log) d)
    (hcall : D.calls i = .createTransfer args) {f : Failure Raised}
    (hrej : RejectedAt D.system log i f) (hends : TransferEnds d args 1 r ws ids) (n : Nat) :
    ws = [] ∧ outcomeClass ((D.calls i).answer 1 r) =
      outcomeClass ((D.calls i).answer n (.error f)) := by
  rw [hcall]
  rcases rejected_transfer hcall hlog hrej with
    ⟨hsame, rfl⟩ | ⟨hdistinct, ⟨e, hjudge, rfl⟩ | ⟨hkey, rfl⟩⟩
  · cases hends with
    | refused => exact ⟨rfl, rfl⟩
    | rejected hdistinct | written hdistinct => exact absurd hsame hdistinct
  · obtain ⟨e', hjudge', hclass⟩ := hd.judge_error hjudge
    obtain ⟨rfl, rfl⟩ := hends.rejected_of_judge hdistinct hjudge'
    exact ⟨rfl, congrArg some hclass⟩
  · obtain ⟨id, hjudge'⟩ := judge_of_repeated (hd.repeated hkey)
    obtain ⟨rfl, rfl⟩ := hends.rejected_of_judge hdistinct hjudge'
    exact ⟨rfl, rfl⟩

/-- A transfer that was committed is written. -/
theorem same_commit (hop : ∀ st w, ¬ D.operator st w) (hlog : History D.system log)
    (hd : SameLedger (replay D.opening log) d) (hcall : D.calls i = .createTransfer args)
    {c : Commit ν DbWrite ObjectId} (hauthor : c.author = some i)
    (hc : Follows D.system log c) (hends : TransferEnds d args 1 r ws ids)
    (hkeys : (view d ws).keys.Nodup) :
    (∃ reply, r = .ok reply) ∧ SameLedger (view (replay D.opening log) c.writes) (view d ws) := by
  have hlogkeys : (view (replay D.opening log) c.writes).keys.Nodup :=
    keys_nodup_of_follows hc fun n => History.keys_nodup (hlog.take n) D.opening_keys
  obtain ⟨hdistinct, hle, source, x, hjudge, hws, -, hapart⟩ :=
    (ledgerCommit_of_follows hc).of_author hauthor hcall
  obtain ⟨source', hjudge', hwrites⟩ := judge_at_commit hop hlog hle hapart hjudge
  obtain ⟨x', rfl, rfl, -⟩ := hends.written_of_judge hdistinct (hd.judge_ok hjudge')
  refine ⟨⟨_, rfl⟩, ?_⟩
  rw [hws, hwrites] at hlogkeys
  rw [hws, hwrites]
  exact hd.transfer hdistinct hjudge' hlogkeys hkeys

end Serial

/-- Executing the calls one at a time, in an order that explains the answers of a
run, gives those answers and that ledger. The induction is on the order. -/
theorem Serially.same (htransfers : ∀ i, ∃ args, D.calls i = .createTransfer args)
    (hop : ∀ st w, ¬ D.operator st w) {log' : List (Commit ν DbWrite ObjectId)}
    {answers outcomes : List (ν × Except (Failure Raised) Reply)} {d d' : Database}
    {taken : Set ObjectId} (hlinear : Linear D.system log answers log')
    (hlog : History D.system log) (hd : SameLedger (replay D.opening log) d)
    (htaken : IdsTaken d taken) (hserial : Serially D.system d taken outcomes d')
    (hcalls : outcomes.map Prod.fst = answers.map Prod.fst) :
    (∀ i r, (i, r) ∈ outcomes → ∃ r', (i, r') ∈ answers ∧
      ∀ n, outcomeClass ((D.calls i).answer 1 r) = outcomeClass ((D.calls i).answer n r')) ∧
    SameLedger (replay D.opening log') d' := by
  induction hlinear generalizing d taken outcomes with
  | nil log =>
      obtain rfl := List.map_eq_nil_iff.mp hcalls
      cases hserial
      exact ⟨by simp, hd⟩
  | @commit log log' c i a rest hauthor hc _ ih =>
      obtain ⟨r, ws, ids, outcomes, rfl, hrest, halone, htail⟩ := hserial.head hcalls
      obtain ⟨args, hcall⟩ := htransfers i
      have hends := alone_transfer hcall htaken halone
      have hkeys := hd.2.elim fun _ h => h.elim fun _ h => h.2.1.keys
      obtain ⟨⟨reply, rfl⟩, hsame⟩ := same_commit hop hlog hd hcall hauthor hc hends
        (keys_nodup_of_alone halone hkeys)
      have hnext : SameLedger (replay D.opening (log ++ [c])) (view d ws) := by
        rwa [replay_concat]
      obtain ⟨hanswers, hend⟩ := ih (hlog.snoc hc) hnext (htaken.after hends) htail hrest
      exact ⟨answers_cons (fun _ => rfl) hanswers, hend⟩
  | @reject log log' i f rest hrej _ ih =>
      obtain ⟨r, ws, ids, outcomes, rfl, hrest, halone, htail⟩ := hserial.head hcalls
      obtain ⟨args, hcall⟩ := htransfers i
      have hends := alone_transfer hcall htaken halone
      have hrejected := same_rejection hlog hd hcall hrej hends
      have hnothing : ws = [] := (hrejected 0).1
      have htaken' := htaken.after hends
      subst hnothing
      obtain ⟨hanswers, hend⟩ := ih hlog hd htaken' htail hrest
      exact ⟨answers_cons (fun n => (hrejected n).2) hanswers, hend⟩

/-! ### Linearizability -/

section Completed

variable [DecidableEq ν] {st : LedgerState ν} {i : ν} {args : TransferArgs}

/-- The calls to put in order are those that succeeded or were rejected. -/
theorem completed_iff (h : Reachable D.system st) (hcall : D.calls i = .createTransfer args)
    {n : Nat} {r : Except (Failure Raised) Reply} (hphase : st.phase i = .returned n r) :
    Completed ((D.calls i).answer n r) ↔ decided r = true := by
  rw [hcall]
  cases r with
  | ok reply => exact iff_of_true (completed_ok reply) rfl
  | error f =>
      show Completed (.error (createTransferRaises args n f)) ↔ _
      rw [completed_error]
      cases f with
      | transient => exact iff_of_false (fun h => h.1 rfl) (by simp [decided])
      | driver => exact iff_of_false (fun h => h.2 rfl) (by simp [decided])
      | duplicateKey =>
          refine iff_of_true ?_ rfl
          simp [createTransferRaises, Raised.errorClass, LedgerlockError.code]
      | raised e =>
          refine iff_of_true ?_ rfl
          show e.errorClass ≠ _ ∧ e.errorClass ≠ _
          cases (h.accounted i).returned n _ hphase with
          | @rejected k _ _ _ hrej =>
              rcases rejected_transfer hcall (h.history.take k) hrej with
                ⟨-, hf⟩ | ⟨-, ⟨e', hjudge, hf⟩ | ⟨-, hf⟩⟩
              · obtain rfl := Failure.raised.inj hf
                simp [Raised.errorClass, LedgerlockError.code]
              · obtain rfl := Failure.raised.inj hf
                exact judge_error_class hjudge
              · cases hf
          | fault _ hf | lost _ _ _ _ _ _ hf => rcases hf with hf | hf <;> cases hf

end Completed

/-- The calls of a run that completed, in an order that is as good as the run. -/
structure LinearizedBy [DecidableEq ν] (D : Deployment ν) (st : LedgerState ν)
    (order : List ν) : Prop where
  nodup : order.Nodup
  mem_iff : ∀ i, i ∈ order ↔ ∃ r, D.Ends st i r ∧ Completed r
  /-- A call that returned before another was made comes first. -/
  realtime : ∀ i j, st.Precedes i j → i ∈ order → j ∈ order → [i, j].Sublist order
  /-- The calls can be executed one at a time. -/
  executable : ∃ outcomes d, outcomes.map Prod.fst = order ∧
    Serially D.system D.opening D.system.issued outcomes d
  /-- Executed so, each comes to what it came to in the run, and all of them to the
  same ledger. -/
  same : ∀ outcomes d, outcomes.map Prod.fst = order →
    Serially D.system D.opening D.system.issued outcomes d →
    (∀ i r, (i, r) ∈ outcomes → ∃ r', D.Ends st i r' ∧
      outcomeClass ((D.calls i).answer 1 r) = outcomeClass r') ∧
    d.contents = (D.db st).contents

/-- Every concurrent run of transfers, with attempts failing and being repeated in
any way, is as good as one at a time. -/
theorem linearizable [DecidableEq ν] (D : Deployment ν)
    (htransfers : ∀ i, ∃ args, D.calls i = .createTransfer args)
    (hop : ∀ st w, ¬ D.operator st w) (hlossy : ¬ D.lossy) {st : LedgerState ν}
    (h : Reachable D.system st) : ∃ order, LinearizedBy D st order := by
  obtain ⟨answers, hanswers⟩ := h.exists_linearization hlossy hop
  have hstart : Reachable D.system D.system.start := .refl _
  refine ⟨answers.map Prod.fst, hanswers.calls_nodup, fun i => ?_, hanswers.realtime,
    exists_serially D.system D.opening (hstart.supply D.issued_finite) _,
    fun outcomes d hcalls hserial => ?_⟩
  · obtain ⟨args, hcall⟩ := htransfers i
    constructor
    · intro hi
      obtain ⟨⟨j, r⟩, hmem, rfl⟩ := List.mem_map.mp hi
      obtain ⟨⟨n, hphase⟩, hr⟩ := (hanswers.mem_iff j r).mp hmem
      exact ⟨_, ⟨n, r, hphase, rfl⟩, (completed_iff h hcall hphase).mpr hr⟩
    · intro hends
      obtain ⟨-, ⟨n, r, hphase, rfl⟩, hcompleted⟩ := hends
      refine List.mem_map.mpr ⟨(i, r), (hanswers.mem_iff i r).mpr ⟨⟨n, hphase⟩, ?_⟩, rfl⟩
      exact (completed_iff h hcall hphase).mp hcompleted
  · obtain ⟨hsame, hledger⟩ := Serially.same htransfers hop hanswers.linear .nil
      (SameLedger.refl D.opening_represents) (idsTaken_of_reachable hstart) hserial hcalls
    refine ⟨fun i r hi => ?_, hledger.contents.symm⟩
    obtain ⟨r', hr', hclass⟩ := hsame i r hi
    obtain ⟨⟨n, hphase⟩, -⟩ := (hanswers.mem_iff i r').mp hr'
    exact ⟨_, ⟨n, r', hphase, rfl⟩, hclass n⟩

end Ledger

section Example

open scoped Example

/-- The run of the example, with the payment in its order. -/
theorem linearizable_paid : ∃ st x y order, Reachable Example.deployment.system st ∧
    Example.deployment.db st = Example.paidDb x y ∧ LinearizedBy Example.deployment st order ∧
    1 ∈ order := by
  obtain ⟨st, x, y, hst, hdb, ⟨n, hphase⟩, -⟩ := Example.paid
  have htransfers : ∀ i, ∃ args, Example.deployment.calls i = .createTransfer args := by
    intro i
    cases i with
    | zero => exact ⟨_, rfl⟩
    | succ i => exact ⟨_, rfl⟩
  obtain ⟨order, horder⟩ := linearizable Example.deployment htransfers (fun _ _ h => h)
    (fun h => h) hst
  refine ⟨st, x, y, order, hst, hdb, horder, (horder.mem_iff 1).mpr ⟨_, ⟨n, _, hphase, rfl⟩, ?_⟩⟩
  exact completed_ok _

end Example

end Ledgerlock
