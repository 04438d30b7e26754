import Ledgerlock.Mvcc.Authors
import Ledgerlock.Spec.Example

/-!
# Ledgerlock.Spec.Conflicts

Who stands in whose way.

An attempt of a transfer locks its idempotency key, the documents it makes itself,
and its source if that is a USER account (`Locks`); an attempt of a reconciliation
locks nothing. Documents of an attempt's own making are nobody else's, so two calls
can only be in conflict over a key they share or a USER account they both debit
(`rival_of_conflict`). A call without such a rival is never made to wait or to try
again.
-/

namespace Ledgerlock

open Mvcc

/-! ### What an attempt locks -/

/-- What an attempt on the snapshot `d` that has drawn `ids` may hold. -/
inductive Locks (d : Database) (args : TransferArgs) (ids : List ObjectId) : DbKey → Prop
  | key : Locks d args ids (.idempotencyKey args.idempotencyKey)
  | own {k : DbKey} : k.ids ≠ [] → (∀ x ∈ k.ids, x ∈ ids) → Locks d args ids k
  | source {a : Account} : d.findAccount args.sourceAccountId = some a →
      a.accountType = .user → Locks d args ids (.account args.sourceAccountId)

theorem Locks.concat {d : Database} {args : TransferArgs} {ids : List ObjectId} {k : DbKey}
    (h : Locks d args ids k) (x : ObjectId) : Locks d args (ids ++ [x]) k := by
  cases h with
  | key => exact .key
  | own hne hids => exact .own hne fun y hy => List.mem_append_left _ (hids y hy)
  | source ha huser => exact .source ha huser

/-- Two attempts that have drawn different ids, none of them an account's, hold
something in common only if they share a key or debit one USER account. -/
theorem Locks.shared {d d' : Database} {args args' : TransferArgs} {ids ids' : List ObjectId}
    {k : DbKey} (h : Locks d args ids k) (h' : Locks d' args' ids' k)
    (hapart : ids.Disjoint ids') (hnew : ∀ x ∈ ids, d'.findAccount x = none)
    (hnew' : ∀ x ∈ ids', d.findAccount x = none) :
    args.idempotencyKey = args'.idempotencyKey ∨ args.sourceAccountId = args'.sourceAccountId ∧
      ∃ a, d.findAccount args.sourceAccountId = some a ∧ a.accountType = .user := by
  cases h with
  | key =>
      generalize hk : DbKey.idempotencyKey args.idempotencyKey = k at h'
      cases h' with
      | key => exact .inl (DbKey.idempotencyKey.inj hk)
      | own hne => exact absurd rfl (hk ▸ hne)
      | source => cases hk
  | own hne hids =>
      obtain ⟨x, hx⟩ := List.exists_mem_of_ne_nil _ hne
      cases h' with
      | key => exact absurd rfl hne
      | own _ hids' => exact (hapart (hids x hx) (hids' x hx)).elim
      | source ha =>
          have hfound := hnew _ (hids args'.sourceAccountId (by simp [DbKey.ids]))
          exact absurd (hfound.symm.trans ha) (by simp)
  | @source a ha huser =>
      generalize hk : DbKey.account args.sourceAccountId = k at h'
      cases h' with
      | key => cases hk
      | own _ hids' =>
          subst hk
          have hfound := hnew' _ (hids' args.sourceAccountId (by simp [DbKey.ids]))
          exact absurd (hfound.symm.trans ha) (by simp)
      | source => exact .inr ⟨DbKey.account.inj hk, a, ha, huser⟩

/-! ### Coming to an end of one's own -/

/-- An outcome of the call's own: a result, or an exception of the program's that does
not speak of a conflict. -/
def OwnOutcome (r : Except (Failure Raised) Reply) : Prop :=
  (∃ reply, r = .ok reply) ∨ ∃ e, r = .error (.raised e) ∧
    e.errorClass ≠ .ledgerlock .writeConflict ∧ e.errorClass ≠ .operationFailure

/-- The call has made no attempt but one, and that one has come, or is on its way, to
an end of its own. -/
inductive Unhindered : Phase Database DbWrite ObjectId Raised Reply → Prop
  | idle : Unhindered .idle
  | between : Unhindered (.between 0)
  | running (a : Attempt Database DbWrite ObjectId Raised Reply) : Unhindered (.running 1 a)
  | returned {n : Nat} {r : Except (Failure Raised) Reply} : n ≤ 1 → OwnOutcome r →
      Unhindered (.returned n r)

theorem Unhindered.attempts {n : Nat} {a : Attempt Database DbWrite ObjectId Raised Reply}
    (h : Unhindered (.running n a)) : n = 1 := by
  cases h
  rfl

theorem Unhindered.own {n : Nat} {r : Except (Failure Raised) Reply}
    (h : Unhindered (.returned n r)) : n ≤ 1 ∧ OwnOutcome r := by
  cases h with
  | returned hn hr => exact ⟨hn, hr⟩

section Rivals

variable {ν : Type} {D : Deployment ν}

/-- Two transfers share a key, or debit the same USER account. -/
def Deployment.Rival (D : Deployment ν) (i j : ν) : Prop :=
  ∃ args args', D.calls i = .createTransfer args ∧ D.calls j = .createTransfer args' ∧
    (args.idempotencyKey = args'.idempotencyKey ∨
      args.sourceAccountId = args'.sourceAccountId ∧
        ∃ a ∈ D.accounts, a.id = args.sourceAccountId ∧ a.accountType = .user)

/-- A reconciliation is nobody's rival. -/
theorem not_rival_reconcile {j : ν} (hj : D.calls j = .reconcile) (i : ν) :
    ¬ D.Rival i j ∧ ¬ D.Rival j i := by
  constructor
  · intro hrival
    obtain ⟨_, _, -, hcall, -⟩ := hrival
    rw [hj] at hcall
    cases hcall
  · intro hrival
    obtain ⟨_, _, hcall, -⟩ := hrival
    rw [hj] at hcall
    cases hcall

end Rivals

section Calls

variable {ν : Type} [ServerSum] {D : Deployment ν}

theorem Intends.locks_footprint {d : Database} {args : TransferArgs} {ws : List DbWrite}
    {ids : List ObjectId} {w : DbWrite} (h : Intends d args ws ids w) :
    ∀ k ∈ w.footprint, Locks d args ids k := by
  intro k hk
  rcases h.locks k hk with hnew | ⟨rfl, a, ha, huser⟩
  · rcases h.keys k hnew with rfl | ⟨hne, hids⟩
    · exact .key
    · exact .own hne hids
  · exact .source ha huser

/-- The writes a call comes to are a transfer's. -/
theorem locks_of_write {d : Database} {call : LedgerCall} {n : Nat} {ws : List DbWrite}
    {ids : List ObjectId} {w : DbWrite} {p : LedgerTx Reply}
    (h : Progress d (call.toCall.body n) ws ids (.write w p)) :
    ∃ args, call = .createTransfer args ∧ Intends d args ws ids w := by
  have hwp := h.wp_write (call.body_wp d n)
  cases call with
  | createTransfer args => exact ⟨args, rfl, hwp⟩
  | reconcile => exact hwp.elim

/-- The locks a call holds are a transfer's. -/
theorem locks_of_progress {d : Database} {call : LedgerCall} {n : Nat} {ws : List DbWrite}
    {ids : List ObjectId} {p : LedgerTx Reply} (h : Progress d (call.toCall.body n) ws ids p)
    {k : DbKey} (hk : k ∈ ws.flatMap DbWrite.footprint) :
    ∃ args, call = .createTransfer args ∧ Locks d args ids k := by
  obtain ⟨w, hw, hk⟩ := List.mem_flatMap.mp hk
  cases call with
  | createTransfer args =>
      refine ⟨args, rfl, h.forall_writes (Q := fun ids w => ∀ k ∈ w.footprint, Locks d args ids k)
        (LedgerCall.body_wp _ d n) (fun _ _ _ hwrite => ?_) (fun _ x _ hlocks k hk => ?_) w hw k hk⟩
      · exact Intends.locks_footprint hwrite
      · exact (hlocks k hk).concat x
  | reconcile =>
      exact (h.forall_writes (Q := fun _ _ => False) (LedgerCall.body_wp _ d n)
        (fun _ _ _ hwrite => hwrite) (fun _ _ _ hfalse => hfalse) w hw).elim

/-! ### Who can be in the way -/

variable {log : List (Commit ν DbWrite ObjectId)}

/-- With nobody at work on `accounts`, holders are what they were. -/
theorem holder_of_history (hquiet : ∀ st w, ¬ D.operator st w) (hlog : History D.system log)
    (id : ObjectId) : (replay D.opening log).holder id = D.opening.holder id := by
  induction hlog with
  | nil => rfl
  | @snoc log c _ hc ih =>
      rw [replay_concat]
      cases ledgerCommit_of_follows hc with
      | transfer => rw [transferWrites_holder, ih]
      | reconcile => exact ih
      | accountWrite _ hop => exact absurd hop (hquiet _ _)

theorem findAccount_of_history (hquiet : ∀ st w, ¬ D.operator st w)
    (hlog : History D.system log) {id : ObjectId} {a : Account}
    (ha : (replay D.opening log).findAccount id = some a) :
    ∃ b ∈ D.accounts, b.id = id ∧ b.accountType = a.accountType := by
  have hholder := Database.holder_of_findAccount ha
  rw [holder_of_history hquiet hlog] at hholder
  obtain ⟨b, hb, hsame⟩ := Option.map_eq_some_iff.mp hholder
  obtain ⟨hmem, hid⟩ := Database.findAccount_some hb
  exact ⟨b, hmem, hid, congrArg Holder.accountType hsame⟩

/-- A fresh id is no account's. -/
theorem findAccount_eq_none (hquiet : ∀ st w, ¬ D.operator st w) (hlog : History D.system log)
    {id : ObjectId} (hid : id ∉ D.system.issued) :
    (replay D.opening log).findAccount id = none := by
  cases hfind : (replay D.opening log).findAccount id with
  | none => rfl
  | some a =>
      obtain ⟨b, hb, hbid, -⟩ := findAccount_of_history hquiet hlog hfind
      exact absurd ⟨b, hb, hbid⟩ hid

/-- Attempts of two calls, on any two states of a run, that hold something in
common are rivals. -/
theorem rival_of_locks (hquiet : ∀ st w, ¬ D.operator st w) (hlog : History D.system log)
    {m m' : Nat} {i j : ν} {args args' : TransferArgs} {ids ids' : List ObjectId} {k : DbKey}
    (hi : D.calls i = .createTransfer args) (hj : D.calls j = .createTransfer args')
    (h : Locks (replay D.opening (log.take m)) args ids k)
    (h' : Locks (replay D.opening (log.take m')) args' ids' k) (hapart : ids.Disjoint ids')
    (hnew : ∀ x ∈ ids, x ∉ D.system.issued) (hnew' : ∀ x ∈ ids', x ∉ D.system.issued) :
    D.Rival i j := by
  have hnone := fun x hx => findAccount_eq_none hquiet (hlog.take m') (hnew x hx)
  have hnone' := fun x hx => findAccount_eq_none hquiet (hlog.take m) (hnew' x hx)
  rcases h.shared h' hapart hnone hnone' with hkey | ⟨hsource, a, ha, huser⟩
  · exact ⟨args, args', hi, hj, .inl hkey⟩
  · obtain ⟨b, hb, hid, htype⟩ := findAccount_of_history hquiet (hlog.take m) ha
    exact ⟨args, args', hi, hj, .inr ⟨hsource, b, hb, hid, htype.trans huser⟩⟩

variable [DecidableEq ν] {st : LedgerState ν} {i : ν} {n : Nat}
  {a : Attempt Database DbWrite ObjectId Raised Reply} {w : DbWrite} {p : LedgerTx Reply}

/-- Whoever a write is in conflict with is a rival, and is at work now or has committed
since the snapshot. -/
theorem rival_of_conflict (hquiet : ∀ st w, ¬ D.operator st w) (h : Reachable D.system st)
    (hp : st.phase i = .running n a) (hw : a.rest = .write w p) (hheld : ¬ st.Free i a.start w) :
    ∃ j, j ≠ i ∧ D.Rival i j ∧ ((∃ m b, st.phase j = .running m b) ∨
      ∃ c ∈ st.log.drop a.start, c.author = some j) := by
  have ha := h.sound.running _ _ _ hp
  have hprog := ha.progress
  rw [hw] at hprog
  obtain ⟨args, hcall, hintends⟩ := locks_of_write hprog
  have hlocks := hintends.locks_footprint
  by_contra hnone
  refine hheld ⟨fun j hj m b hb k hk hkb => ?_, fun c hc k hk hkc => ?_⟩
  · -- another attempt that is open
    have hbs := h.sound.running _ _ _ hb
    obtain ⟨args', hcall', hlocks'⟩ := locks_of_progress hbs.progress hkb
    have hrival := rival_of_locks hquiet h.history hcall hcall' (hlocks k hk) hlocks'
      (h.sound.apart _ _ _ _ _ _ hj.symm hp hb).ids (fun x hx => (ha.ids_new x hx).1)
      fun x hx => (hbs.ids_new x hx).1
    exact hnone ⟨j, hj, hrival, .inl ⟨m, b, hb⟩⟩
  · -- a commit since the snapshot
    obtain ⟨l, hl⟩ := List.mem_iff_getElem?.mp hc
    rw [List.getElem?_drop] at hl
    have hfollows := h.history.follows hl
    have hfresh := hfollows.fresh
    cases hfollows with
    | @txn c j m r hauthor _ hle _ hprog' _ =>
        have hj : j ≠ i := by
          intro hji
          subst hji
          rcases (h.settled hl hauthor).settled with ⟨_, _, hphase, -⟩ | ⟨-, hacc⟩
          · rw [hp] at hphase
            cases hphase
          · have := hacc.running _ _ hp
            omega
        rw [List.take_take] at hprog'
        obtain ⟨args', hcall', hlocks'⟩ := locks_of_progress hprog' hkc
        have hrival := rival_of_locks hquiet h.history hcall hcall' (hlocks k hk) hlocks'
          (fun x hx hxc => (ha.ids_new x hx).2 c (List.mem_of_mem_drop hc) hxc)
          (fun x hx => (ha.ids_new x hx).1) fun x hx => (hfresh x hx).1
        exact hnone ⟨j, hj, hrival, .inr ⟨c, hc, hauthor⟩⟩
    | direct _ hd => exact hquiet _ _ hd

/-! ### A set of calls made together -/

variable {st₀ : LedgerState ν}

/-- Among calls made together, a conflict is with a rival of the set. -/
theorem rival_of_steps (hquiet : ∀ st w, ¬ D.operator st w) (h₀ : Reachable D.system st₀)
    (hrest : st₀.Resting) (h : Steps D.system st₀ st) (hp : st.phase i = .running n a)
    (hw : a.rest = .write w p) (hheld : ¬ st.Free i a.start w) :
    ∃ j, j ≠ i ∧ st₀.phase j = .idle ∧ D.Rival i j := by
  have hrecent : st₀.log.length ≤ a.start :=
    (Steps.accounted h₀.sound (.inl (hrest.idle_of_running h hp)) h).running _ _ hp
  obtain ⟨j, hj, hrival, ⟨m, b, hb⟩ | ⟨c, hc, hauthor⟩⟩ :=
    rival_of_conflict hquiet (Steps.trans h₀ h) hp hw hheld
  · exact ⟨j, hj, hrest.idle_of_running h hb, hrival⟩
  · refine ⟨j, hj, hrest.idle_of_author h ?_ hauthor, hrival⟩
    obtain ⟨k, hk⟩ := Nat.exists_eq_add_of_le hrecent
    rw [hk, ← List.drop_drop] at hc
    exact List.mem_of_mem_drop hc

/-- A call that is refused is a transfer from an account to itself. -/
theorem ownOutcome_of_refused {call : LedgerCall} {e : Raised}
    (h : call.toCall.admission = some e) : OwnOutcome (.error (.raised e)) := by
  cases call with
  | createTransfer args =>
      obtain ⟨-, rfl⟩ := admission_eq_some h
      exact .inr ⟨_, rfl, by simp [Raised.errorClass, LedgerlockError.code]⟩
  | reconcile => cases h

/-- An exception that leaves the program is the decision on the snapshot. -/
theorem ownOutcome_of_raised {d : Database} {call : LedgerCall} {ws : List DbWrite}
    {ids : List ObjectId} {e : Raised} (h : Progress d (call.toCall.body n) ws ids (.raise e)) :
    OwnOutcome (.error (.raised e)) := by
  have hwp := h.wp_raise (call.body_wp d n)
  cases call with
  | createTransfer args => exact .inr ⟨e, rfl, judge_error_class hwp⟩
  | reconcile => exact hwp.elim

/-- A write that conflicts with nothing is granted. -/
theorem granted_of_free (h : Reachable D.system st) (hp : st.phase i = .running n a)
    (hw : a.rest = .write w p) (hfree : st.Free i a.start w) :
    w.accepted = true ∧ w.repeatsKey (st.viewOf D.system a) = false ∧
      w.repeatsKey (st.db D.system) = false := by
  have ha := h.sound.running _ _ _ hp
  have hprog := ha.progress
  rw [hw] at hprog
  obtain ⟨args, -, hintends⟩ := locks_of_write hprog
  have htaken := idsTaken_of_history (h.history.take a.start)
  have hview : w.repeatsKey (st.viewOf D.system a) = false := by
    refine hintends.no_clash htaken fun x hx hissued => ?_
    rcases hissued with hx' | ⟨c, hc, hx'⟩
    · exact (ha.ids_new x hx).1 hx'
    · exact (ha.ids_new x hx).2 c (List.mem_of_mem_take hc) hx'
  refine ⟨hintends.accepted, hview, repeatsKey_eq_false.mpr fun k hk hkd => ?_⟩
  -- what is in the indexes now was there at the snapshot, or was committed since
  rcases mem_keys_since (n := a.start) hkd with hks | ⟨c, hc, hkc⟩
  · exact repeatsKey_eq_false.mp hview k hk (mem_keys_view.mpr (.inl hks))
  · exact hfree.2 c hc (w.newKeys_subset k hk) (newKeysOf_subset_footprint hkc)

/-- With nobody in the way, a step of the call itself leaves it unhindered. -/
theorem Unhindered.move {issued : Set ObjectId}
    {q : Phase Database DbWrite ObjectId Raised Reply} (hfaulty : ¬ D.faulty)
    (h : Reachable D.system st)
    (hfree : ∀ n a w p, st.phase i = .running n a → a.rest = .write w p → st.Free i a.start w)
    (hi : Unhindered (st.phase i)) (hm : Move D.system st i issued q) : Unhindered q := by
  cases hm with
  | invoke => exact .between
  | refuse _ hadm => exact .returned (by decide) (ownOutcome_of_refused hadm)
  | begin hp =>
      rw [hp] at hi
      cases hi
      exact .running _
  | read hp | write hp | newId hp | now _ hp =>
      rw [hp] at hi
      cases hi
      exact .running _
  | raise hp he =>
      have hprog := (h.sound.running _ _ _ hp).progress
      rw [he] at hprog
      rw [hp] at hi
      exact .returned hi.attempts.le (ownOutcome_of_raised hprog)
  | duplicate hp hw hclash =>
      obtain ⟨-, hview, hdb⟩ := granted_of_free h hp hw (hfree _ _ _ _ hp hw)
      rcases hclash with hclash | hclash
      · exact absurd hclash (ne_true_of_eq_false hview)
      · exact absurd hclash (ne_true_of_eq_false hdb)
  | invalid hp hw hacc =>
      obtain ⟨haccepted, -⟩ := granted_of_free h hp hw (hfree _ _ _ _ hp hw)
      exact absurd haccepted (ne_true_of_eq_false hacc)
  | conflict hp hw hheld => exact absurd (hfree _ _ _ _ hp hw) hheld
  | fault hf => exact absurd hf hfaulty

theorem Unhindered.step {st' : LedgerState ν} (hfaulty : ¬ D.faulty) (hlossy : ¬ D.lossy)
    (h : Reachable D.system st)
    (hfree : ∀ n a w p, st.phase i = .running n a → a.rest = .write w p → st.Free i a.start w)
    (hi : Unhindered (st.phase i)) (hstep : Step D.system st st') : Unhindered (st'.phase i) := by
  cases hstep with
  | @move j _ q hm =>
      show Unhindered (Function.update st.phase j q i)
      by_cases hij : i = j
      · subst hij
        rw [Function.update_self]
        exact hi.move hfaulty h hfree hm
      · rwa [Function.update_of_ne hij]
  | @commit j n a r hp =>
      show Unhindered (Function.update st.phase j _ i)
      by_cases hij : i = j
      · subst hij
        rw [Function.update_self]
        rw [hp] at hi
        exact .returned hi.attempts.le (.inl ⟨r, rfl⟩)
      · rwa [Function.update_of_ne hij]
  | commitLost hl => exact absurd hl hlossy
  | direct => exact hi

end Calls

/-! ### Contention does not spread -/

section Together

variable {ν : Type} [ServerSum] [DecidableEq ν] {D : Deployment ν} {calls : ν → LedgerCall}
  {st₀ st : LedgerState ν} {i : ν}

/-- A call of the set with no rival in it conflicts with nobody, wherever the set has
got to. -/
theorem free_of_unrivalled (h₀ : Reachable (D.withCalls calls).system st₀) (hrest : st₀.Resting)
    (hi : ∀ j, j ≠ i → st₀.phase j = .idle → ¬ (D.withCalls calls).Rival i j)
    (h : Steps (D.withCalls calls).system st₀ st) {n : Nat}
    {a : Attempt Database DbWrite ObjectId Raised Reply} {w : DbWrite} {p : LedgerTx Reply}
    (hp : st.phase i = .running n a) (hw : a.rest = .write w p) : st.Free i a.start w := by
  by_contra hheld
  obtain ⟨j, hj, hidle, hrival⟩ := rival_of_steps (fun _ _ h => h) h₀ hrest h hp hw hheld
  exact hi j hj hidle hrival

/-- A call without a rival goes its own way. -/
theorem unhindered_of_unrivalled (h₀ : Reachable (D.withCalls calls).system st₀)
    (hrest : st₀.Resting) (hidle : st₀.phase i = .idle)
    (hi : ∀ j, j ≠ i → st₀.phase j = .idle → ¬ (D.withCalls calls).Rival i j)
    (h : Steps (D.withCalls calls).system st₀ st) : Unhindered (st.phase i) := by
  induction h with
  | refl =>
      rw [hidle]
      exact .idle
  | tail h hstep ih =>
      exact ih.step (fun hf => hf) (fun hl => hl) (Steps.trans h₀ h)
        (fun _ _ _ _ hp hw => free_of_unrivalled h₀ hrest hi h hp hw) hstep

/-- A call without a rival can be carried to its end while the others stay where they are. -/
theorem canEnd_of_unrivalled (h₀ : Reachable (D.withCalls calls).system st₀) (hrest : st₀.Resting)
    (hi : ∀ j, j ≠ i → st₀.phase j = .idle → ¬ (D.withCalls calls).Rival i j)
    (h : Steps (D.withCalls calls).system st₀ st) : CanEnd (D.withCalls calls).system st i := by
  refine Granted.canEnd (fun st' hs _ n a w p hp hw => ?_)
    (Reachable.issued_finite (Steps.trans h₀ h) (D.withCalls calls).issued_finite)
  have hfree := free_of_unrivalled h₀ hrest hi (Steps.trans h hs) hp hw
  obtain ⟨haccepted, hview, -⟩ := granted_of_free (Steps.trans (Steps.trans h₀ h) hs) hp hw hfree
  exact ⟨hfree, haccepted, hview⟩

/-- Any set of calls made together, from a state where nobody is at work, with nothing
else going on. An attempt is given up as transient only if some other call of the set
shares the key or debits the same USER account, which a reconciliation never does. A
call without such a rival makes one attempt, which comes to an end of its own, or can be
carried to one whatever the others are at. -/
theorem contention_local (h₀ : Reachable (D.withCalls calls).system st₀) (hrest : st₀.Resting)
    (h : Steps (D.withCalls calls).system st₀ st) :
    (∀ i n a st', st.phase i = .running n a → Step (D.withCalls calls).system st st' →
      st'.phase i = .between n ∨ st'.phase i = .returned n (.error .transient) →
      ∃ j, j ≠ i ∧ st₀.phase j = .idle ∧ (D.withCalls calls).Rival i j) ∧
    (∀ i j, calls j = .reconcile → ¬ (D.withCalls calls).Rival i j) ∧
    ∀ i, st₀.phase i = .idle →
      (∀ j, j ≠ i → st₀.phase j = .idle → ¬ (D.withCalls calls).Rival i j) →
      Unhindered (st.phase i) ∧ CanEnd (D.withCalls calls).system st i := by
  refine ⟨?_, fun i j hj => (not_rival_reconcile (D := D.withCalls calls) hj i).1, ?_⟩
  · intro i n a st' hp hstep haborted
    by_contra hnone
    have hi : ∀ j, j ≠ i → st₀.phase j = .idle → ¬ (D.withCalls calls).Rival i j :=
      fun j hj hidle hrival => hnone ⟨j, hj, hidle, hrival⟩
    have hend := unhindered_of_unrivalled h₀ hrest (hrest.idle_of_running h hp) hi (h.tail hstep)
    have hnow := unhindered_of_unrivalled h₀ hrest (hrest.idle_of_running h hp) hi h
    rw [hp] at hnow
    obtain rfl := hnow.attempts
    rcases haborted with hbetween | hreturned
    · rw [hbetween] at hend
      cases hend
    · rw [hreturned] at hend
      obtain ⟨-, hown⟩ := hend.own
      rcases hown with ⟨_, hok⟩ | ⟨_, hraised, -⟩
      · cases hok
      · cases hraised
  · intro i hidle hi
    exact ⟨unhindered_of_unrivalled h₀ hrest hidle hi h, canEnd_of_unrivalled h₀ hrest hi h⟩

end Together

namespace Example

/-- 20 minor units for Alice. -/
def payback : TransferArgs :=
  { payment with
    idempotencyKey := "payback-0001"
    sourceAccountId := 2
    destinationAccountId := 1
    amountMinor := 20
    submittedBy := some 12 }

/-- A funding, two payments that cross each other, and reconciliations. -/
def crossingCalls : Nat → LedgerCall
  | 0 => .createTransfer funding
  | 1 => .createTransfer payment
  | 2 => .createTransfer payback
  | _ + 3 => .reconcile

end Example

open Example in
/-- The payment has no rival among the payments that cross it and the reconciliations. -/
theorem contention_local_crossing :
    ∃ st₀, Reachable (deployment.withCalls crossingCalls).system st₀ ∧ st₀.Resting ∧
      st₀.phase 1 = .idle ∧ st₀.phase 2 = .idle ∧
      ∀ st, Steps (deployment.withCalls crossingCalls).system st₀ st →
        Unhindered (st.phase 1) ∧ CanEnd (deployment.withCalls crossingCalls).system st 1 := by
  obtain ⟨st₀, x, hst, -, hreturned, hidle⟩ := funded crossingCalls rfl
  have hrest : st₀.Resting := by
    intro i
    by_cases hi : i = 0
    · exact .inr (hi ▸ hreturned)
    · exact .inl (hidle i hi)
  refine ⟨st₀, hst, hrest, hidle 1 (by decide), hidle 2 (by decide), fun st h => ?_⟩
  refine (contention_local hst hrest h).2.2 1 (hidle 1 (by decide)) ?_
  intro j hj hidle' hrival
  obtain ⟨args, args', hcall, hcall', hsame⟩ := hrival
  obtain rfl : payment = args := LedgerCall.createTransfer.inj hcall
  match j with
  | 0 =>
      obtain ⟨n, r, hphase⟩ := hreturned
      rw [hphase] at hidle'
      cases hidle'
  | 1 => exact hj rfl
  | 2 =>
      obtain rfl : payback = args' := LedgerCall.createTransfer.inj hcall'
      rcases hsame with hkey | ⟨hsource, -⟩
      · exact absurd hkey (by decide)
      · exact absurd hsource (by decide)
  | j + 3 => cases hcall'

end Ledgerlock
