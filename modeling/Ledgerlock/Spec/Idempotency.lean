import Ledgerlock.Spec.DoubleEntry

/-!
# Ledgerlock.Spec.Idempotency

A transfer is applied exactly once for its idempotency key, whatever is lost and
however often it is run again. The document under a key is unique because of the
index; which call it belongs to, because commits have their ids to themselves;
and a call that begins once the key is committed can come to nothing but a
duplicate, because every attempt of it reads a state that holds the key.
-/

namespace Ledgerlock

open Mvcc

/-- The transaction documents with a key. -/
def Database.withKey (d : Database) (key : String) : List Transaction :=
  d.transactions.filter fun t => t.idempotencyKey = key

theorem mem_withKey {d : Database} {key : String} {t : Transaction} :
    t ∈ d.withKey key ↔ t ∈ d.transactions ∧ t.idempotencyKey = key := by
  simp [Database.withKey]

section Answers

variable {ν : Type} [DecidableEq ν] [ServerSum] {D : Deployment ν} {st st' : LedgerState ν}
  {i : ν} {args : TransferArgs}

/-- A call that returns has a commit of its own, and returns what it wrote. -/
theorem written_of_ends {reply : Reply} (h : Reachable D.system st)
    (hcall : D.calls i = .createTransfer args) (hend : D.Ends st i (.ok reply)) :
    ∃ c ∈ st.log, c.author = some i ∧ ∃ source x n,
      c.writes = transferWrites source args x ∧ c.ids = x.ids ∧
        reply = .written ⟨x.header args, x.debitEntryId, x.creditEntryId, n⟩ := by
  obtain ⟨n, hphase⟩ := Deployment.ends_ok.mp hend
  cases (h.accounted i).returned n _ hphase with
  | committed _ _ hc hi hprog =>
      have hdone := hprog.wp_done ((D.calls i).body_wp _ n)
      rw [hcall] at hdone
      obtain ⟨result, rfl, source, x, -, hws, hids, -, rfl⟩ := hdone
      exact ⟨_, hc, hi, source, x, n, hws, hids, rfl⟩

/-- What a call wrote is in the collection. -/
theorem mem_of_written {c : Commit ν DbWrite ObjectId} {source : Account} {x : Stamp}
    (hc : c ∈ st.log) (hws : c.writes = transferWrites source args x) :
    x.header args ∈ (D.db st).transactions := by
  refine mem_transactions_replay.mpr (.inr ⟨c, hc, ?_⟩)
  rw [hws, transferWrites]
  simp

/-- Two calls that share a key do not both return. -/
theorem caller_unique (h : Reachable D.system st) {j : ν} {args' : TransferArgs}
    {reply reply' : Reply} (hi : D.calls i = .createTransfer args)
    (hj : D.calls j = .createTransfer args') (hkey : args.idempotencyKey = args'.idempotencyKey)
    (hri : D.Ends st i (.ok reply)) (hrj : D.Ends st j (.ok reply')) : i = j := by
  obtain ⟨c, hc, hci, source, x, -, hws, hids, -⟩ := written_of_ends h hi hri
  obtain ⟨d, hd, hdj, source', y, -, hws', hids', -⟩ := written_of_ends h hj hrj
  obtain ⟨journal, hjournal⟩ := D.represents h
  have hsame : x.header args = y.header args' :=
    Database.transaction_eq_of_idempotencyKey hjournal.keys (mem_of_written hc hws)
      (mem_of_written hd hws') hkey
  have hid : x.transactionId = y.transactionId := congrArg Transaction.id hsame
  have hcd : c = d := h.history.eq_of_id hc hd (x := x.transactionId)
    (by simp [hids, Stamp.ids]) (by simp [hids', Stamp.ids, hid])
  exact Option.some.inj (hci.symm.trans ((congrArg Commit.author hcd).trans hdj))

/-- A call is told of a duplicate only when the key is committed. -/
theorem committed_of_duplicate {key : String} {detectedBy : DetectedBy}
    (h : Reachable D.system st) (hcall : D.calls i = .createTransfer args)
    (hend : D.Ends st i (.error (.ledgerlock (.duplicateSubmission key detectedBy)))) :
    ∃ t ∈ (D.db st).transactions, t.idempotencyKey = args.idempotencyKey := by
  obtain ⟨n, f, hphase, hraises⟩ := Deployment.ends_error.mp hend
  rw [hcall] at hraises
  cases (h.accounted i).returned n _ hphase with
  | @rejected k _ _ _ hrej =>
      -- the key was there in the state that explains the rejection
      suffices ∃ t ∈ (replay D.opening (st.log.take k)).transactions,
          t.idempotencyKey = args.idempotencyKey by
        obtain ⟨t, ht, hkey⟩ := this
        exact ⟨t, transactions_since ht, hkey⟩
      rcases rejected_transfer hcall (h.history.take k) hrej with
        ⟨-, rfl⟩ | ⟨-, ⟨e, hjudge, rfl⟩ | ⟨hkey, -⟩⟩
      · cases hraises
      · obtain rfl : e = .ledgerlock (.duplicateSubmission key detectedBy) := hraises
        exact repeated_of_judge hjudge
      · exact hkey
  | conflict | invalid => cases hraises
  | fault _ hf => rcases hf with rfl | rfl <;> cases hraises
  | lost _ _ _ _ _ _ hf => rcases hf with rfl | rfl <;> cases hraises

/-- A call that begins once its key is committed comes to nothing but a
duplicate. -/
theorem duplicate_of_late_call (h : Reachable D.system st)
    (hcall : D.calls i = .createTransfer args)
    (hdistinct : args.sourceAccountId ≠ args.destinationAccountId)
    (hkey : ∃ t ∈ (D.db st).transactions, t.idempotencyKey = args.idempotencyKey)
    (hlate : st.phase i = .idle ∨ st.phase i = .between 0) (hsteps : Steps D.system st st')
    {r : Except Raised Reply} (hend : D.Ends st' i r) :
    (∃ detectedBy, r =
      .error (.ledgerlock (.duplicateSubmission args.idempotencyKey detectedBy))) ∨
    (D.faulty ∧ ((∃ n, r = .error (.ledgerlock (.writeConflict args.sourceAccountId n))) ∨
      r = .error (.python .operationFailure))) := by
  have hst' : Reachable D.system st' := Steps.trans h hsteps
  obtain ⟨n, outcome, hphase, rfl⟩ := hend
  -- every state the answer can come from holds the key
  have hold {k : Nat} (hk : st.log.length ≤ k) :
      ∃ t ∈ (replay D.opening (st'.log.take k)).transactions,
        t.idempotencyKey = args.idempotencyKey := by
    obtain ⟨t, ht, htkey⟩ := hkey
    refine ⟨t, transactions_since (n := st.log.length) ?_, htkey⟩
    rw [List.take_take, Nat.min_eq_left hk, ← List.prefix_iff_eq_take.mp hsteps.log_grows]
    exact ht
  have hnone {k : Nat} (hk : st.log.length ≤ k) :
      ¬ ∀ t ∈ (replay D.opening (st'.log.take k)).transactions,
        t.idempotencyKey ≠ args.idempotencyKey := fun hnew =>
    (hold hk).elim fun t ht => hnew t ht.1 ht.2
  have hwp := (LedgerCall.createTransfer args).body_wp
  have hsystem : D.system.call i = (LedgerCall.createTransfer args).toCall :=
    congrArg LedgerCall.toCall hcall
  rw [hcall]
  cases (hsteps.accounted h.sound hlate).returned n outcome hphase with
  | committed _ hm _ _ hprog =>
      rw [hsystem] at hprog
      obtain ⟨_, _, source, _, hjudge, -⟩ := hprog.wp_done (hwp _ n)
      obtain ⟨_, hacc⟩ := judge_eq_ok.mp hjudge
      exact absurd hacc.newKey (hnone hm)
  | @rejected k _ hm _ hrej =>
      left
      rcases rejected_transfer hcall (hst'.history.take k) hrej with
        ⟨hsame, -⟩ | ⟨-, ⟨e, hjudge, rfl⟩ | ⟨-, rfl⟩⟩
      · exact absurd hsame hdistinct
      · obtain ⟨id, hid⟩ := judge_of_repeated (hold hm)
        obtain rfl := Except.error.inj (hjudge.symm.trans hid)
        exact ⟨_, rfl⟩
      · exact ⟨_, rfl⟩
  | conflict hm _ hprog =>
      rw [hsystem] at hprog
      have hintends : Intends _ args _ _ _ := hprog.wp_write (hwp _ n)
      exact absurd hintends.checked (hnone hm)
  | invalid hm _ hprog =>
      rw [hsystem] at hprog
      have hintends : Intends _ args _ _ _ := hprog.wp_write (hwp _ n)
      exact absurd hintends.checked (hnone hm)
  | fault hfaulty hf =>
      refine .inr ⟨hfaulty, ?_⟩
      rcases hf with rfl | rfl
      · exact .inl ⟨n, rfl⟩
      · exact .inr rfl
  | lost _ _ hm _ _ hprog =>
      rw [hsystem] at hprog
      obtain ⟨_, _, source, _, hjudge, -⟩ := hprog.wp_done (hwp _ n)
      obtain ⟨_, hacc⟩ := judge_eq_ok.mp hjudge
      exact absurd hacc.newKey (hnone hm)

/-- A call that begins when its key is there is never held up: it can end at once. -/
theorem late_call_ends (hcall : D.calls i = .createTransfer args)
    (hdistinct : args.sourceAccountId ≠ args.destinationAccountId)
    (hkey : ∃ t ∈ (D.db st).transactions, t.idempotencyKey = args.idempotencyKey)
    (hlate : st.phase i = .idle ∨ st.phase i = .between 0) :
    ∃ st' detectedBy, Steps D.system st st' ∧ D.Ends st' i
      (.error (.ledgerlock (.duplicateSubmission args.idempotencyKey detectedBy))) := by
  have hsystem : D.system.call i = (LedgerCall.createTransfer args).toCall :=
    congrArg LedgerCall.toCall hcall
  have hadm : (D.system.call i).admission = none := by
    rw [hsystem]
    exact LedgerCall.admission_eq_none.mpr hdistinct
  obtain ⟨t, ht⟩ : ∃ t, (D.db st).findByIdempotencyKey args.idempotencyKey = some t := by
    rw [← Option.ne_none_iff_exists', ne_eq, Database.findByIdempotencyKey_eq_none]
    exact fun hnew => hkey.elim fun t ht => hnew t ht.1 ht.2
  -- from a session that is open
  have hopen (st₁ : LedgerState ν) (hdb : D.db st₁ = D.db st) (hphase : st₁.phase i = .between 0) :
      ∃ st' detectedBy, Steps D.system st₁ st' ∧ D.Ends st' i
        (.error (.ledgerlock (.duplicateSubmission args.idempotencyKey detectedBy))) := by
    have hprog : Progress (D.db st₁) ((D.system.call i).body 1) [] []
        (.raise (.ledgerlock
          (.duplicateSubmission args.idempotencyKey (.preCheck t.id)))) := by
      rw [hdb, hsystem]
      exact applyTransfer_repeated ht 1 _
    obtain ⟨st', hsteps, hreturned⟩ := Steps.raised (S := D.system) hphase hprog
    refine ⟨st', .preCheck t.id, hsteps, Deployment.ends_error.mpr ⟨1, _, hreturned, ?_⟩⟩
    rw [hcall]
    rfl
  rcases hlate with hidle | hbetween
  · have hinvoke := Step.move (S := D.system) (Move.invoke hidle hadm)
    obtain ⟨st', by', hsteps, hend⟩ :=
      hopen (st.moveTo i st.issued (.between 0)) rfl (by simp [State.moveTo])
    exact ⟨st', by', (Steps.single hinvoke).trans hsteps, hend⟩
  · exact hopen st rfl hbetween

end Answers

/-- What exactly-once application of a key comes to in a state of a run. -/
structure AppliedOnce {ν : Type} [DecidableEq ν] [ServerSum] (D : Deployment ν)
    (st : LedgerState ν) (key : String) : Prop where
  /-- At most one document has the key. -/
  document : (D.db st).withKey key = [] ∨ ∃ t, (D.db st).withKey key = [t]
  /-- It has one pair of entries, and no other. -/
  pair : ∀ t ∈ (D.db st).withKey key, ∃ debit credit,
    IsSide t .debit debit ∧ IsSide t .credit credit ∧
      ((D.db st).ledgerEntries.filter fun e => e.transactionId = t.id) = [debit, credit]
  /-- At most one call with the key has returned. -/
  caller : ∀ i j args args' reply reply', D.calls i = .createTransfer args →
    D.calls j = .createTransfer args' → args.idempotencyKey = key →
    args'.idempotencyKey = key → D.Ends st i (.ok reply) → D.Ends st j (.ok reply') → i = j
  /-- A call that returned returned the document, and the document is its own. -/
  own : ∀ i args reply, D.calls i = .createTransfer args → args.idempotencyKey = key →
    D.Ends st i (.ok reply) → ∃ result, reply = .written result ∧
      (D.db st).withKey key = [result.transactionDocument] ∧
      ∃ c ∈ st.log, c.author = some i ∧
        .insertTransaction result.transactionDocument ∈ c.writes
  /-- A call is told of a duplicate only if the document is committed. -/
  reported : ∀ i args detectedBy, D.calls i = .createTransfer args →
    D.Ends st i (.error (.ledgerlock (.duplicateSubmission key detectedBy))) →
    args.idempotencyKey = key → (D.db st).withKey key ≠ []
  /-- A call that begins after that is told of a duplicate, however it goes on,
  unless the server or the network fails it. -/
  late : (D.db st).withKey key ≠ [] → ∀ i args, D.calls i = .createTransfer args →
    args.idempotencyKey = key → args.sourceAccountId ≠ args.destinationAccountId →
    st.phase i = .idle ∨ st.phase i = .between 0 →
    ∀ st', Steps D.system st st' → ∀ r, D.Ends st' i r →
      (∃ detectedBy, r = .error (.ledgerlock (.duplicateSubmission key detectedBy))) ∨
      (D.faulty ∧ ((∃ n, r = .error (.ledgerlock (.writeConflict args.sourceAccountId n))) ∨
        r = .error (.python .operationFailure)))
  /-- Nothing holds up a call that begins after that. -/
  unblocked : (D.db st).withKey key ≠ [] → ∀ i args, D.calls i = .createTransfer args →
    args.idempotencyKey = key → args.sourceAccountId ≠ args.destinationAccountId →
    st.phase i = .idle ∨ st.phase i = .between 0 →
    ∃ st' detectedBy, Steps D.system st st' ∧
      D.Ends st' i (.error (.ledgerlock (.duplicateSubmission key detectedBy)))

theorem withKey_ne_nil {d : Database} {key : String} :
    d.withKey key ≠ [] ↔ ∃ t ∈ d.transactions, t.idempotencyKey = key := by
  rw [← List.isEmpty_eq_false_iff, List.isEmpty_eq_false_iff_exists_mem]
  simp only [mem_withKey]

/-- Every document with the key is the same one. -/
theorem withKey_eq {d : Database} (hd : d.keys.Nodup) {t : Transaction}
    (ht : t ∈ d.transactions) : d.withKey t.idempotencyKey = [t] := by
  have hnodup : (d.withKey t.idempotencyKey).Nodup :=
    (List.Nodup.of_map _ (Database.transaction_ids_nodup hd)).filter _
  refine eq_singleton_of_nodup hnodup (mem_withKey.mpr ⟨ht, rfl⟩) fun u hu => ?_
  obtain ⟨hu, hkey⟩ := mem_withKey.mp hu
  exact Database.transaction_eq_of_idempotencyKey hd hu ht hkey

/-- For every key, in every reachable state of every run, with commits whose
acknowledgement is lost and every policy of retrying. -/
theorem exactlyOnce {ν : Type} [DecidableEq ν] [ServerSum] (D : Deployment ν)
    {st : LedgerState ν} (h : Reachable D.system st) (key : String) :
    AppliedOnce D st key := by
  obtain ⟨journal, hjournal⟩ := D.represents h
  refine ⟨?_, fun t ht => ?_, ?_, ?_, ?_, ?_, ?_⟩
  · cases hdocs : (D.db st).withKey key with
    | nil => exact .inl rfl
    | cons t rest =>
        obtain ⟨ht, rfl⟩ := mem_withKey.mp (hdocs ▸ List.mem_cons_self)
        exact .inr ⟨t, hdocs ▸ withKey_eq hjournal.keys ht⟩
  · obtain ⟨ht, -⟩ := mem_withKey.mp ht
    rw [hjournal.transactions] at ht
    obtain ⟨p, hp, rfl⟩ := List.mem_map.mp ht
    exact (hjournal.wellPosted hp).entries
  · intro i j args args' reply reply' hi hj hki hkj hri hrj
    exact caller_unique h hi hj (hki.trans hkj.symm) hri hrj
  · intro i args reply hcall heq hend
    subst heq
    obtain ⟨c, hc, hauthor, source, x, n, hws, -, rfl⟩ := written_of_ends h hcall hend
    refine ⟨_, rfl, withKey_eq hjournal.keys (mem_of_written hc hws), c, hc, hauthor, ?_⟩
    rw [hws, transferWrites]
    simp
  · intro i args detectedBy hcall hend heq
    subst heq
    exact withKey_ne_nil.mpr (committed_of_duplicate h hcall hend)
  · intro hkey i args hcall heq hdistinct hlate st' hsteps r hend
    subst heq
    exact duplicate_of_late_call h hcall hdistinct (withKey_ne_nil.mp hkey) hlate hsteps hend
  · intro hkey i args hcall heq hdistinct hlate
    subst heq
    exact late_call_ends hcall hdistinct (withKey_ne_nil.mp hkey) hlate

section Example

open scoped Example

/-- In the run of the example the payment is applied once, and a third
submission is told so. -/
theorem exactlyOnce_paid : ∃ st x y, Reachable Example.deployment.system st ∧
    Example.deployment.db st = Example.paidDb x y ∧
    AppliedOnce Example.deployment st "payment-0001" ∧
    ∃ st' detectedBy, Steps Example.deployment.system st st' ∧ Example.deployment.Ends st' 2
      (.error (.ledgerlock (.duplicateSubmission "payment-0001" detectedBy))) := by
  obtain ⟨st, x, y, hst, hdb, -, hidle⟩ := Example.paid
  have honce := exactlyOnce _ hst "payment-0001"
  refine ⟨st, x, y, hst, hdb, honce, honce.unblocked ?_ 2 Example.payment rfl rfl (by decide)
    (.inl (hidle 2 (by decide) (by decide)))⟩
  rw [hdb]
  exact List.cons_ne_nil _ _

end Example

end Ledgerlock
