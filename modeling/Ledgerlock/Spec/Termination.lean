import Ledgerlock.Mvcc.Progress
import Ledgerlock.Spec.Delivery

/-!
# Ledgerlock.Spec.Termination

Nothing keeps a request waiting.

A handler makes so many visits to the database at most, whatever the others do, and can
always make the next one; when it has come to its end the request is answered, or waits for
the call of `create_transfer` it has made (`requests_terminate`).
-/

namespace Ledgerlock

open Interleave (Config Prog Run Step)
open Mvcc

section Requests

variable {ν : Type} [ServerSum] [DecidableEq ν] {A : Api ν}

/-- There is always an id that nobody uses or is about to. -/
theorem ApiInv.exists_offer {s : ApiState ν} (h : ApiInv A s) : ∃ x, A.env.offers s x := by
  have hheld : {id | ∃ c n a, s.ledger.phase c = .running n a ∧
      DbKey.account id ∈ a.held}.Finite := by
    refine (h.reachable.begun_finite.biUnion
      (t := fun c => {id | ∃ n a, s.ledger.phase c = .running n a ∧ DbKey.account id ∈ a.held})
      fun c _ => ?_).subset
      fun id ⟨c, n, a, hc, hmem⟩ => Set.mem_biUnion (by simp [hc]) ⟨n, a, hc, hmem⟩
    cases hc : s.ledger.phase c with
    | running n a =>
        refine ((List.finite_toSet a.held).preimage
          (f := DbKey.account) fun _ _ _ _ h => DbKey.account.inj h).subset ?_
        rintro id ⟨_, _, h, hmem⟩
        cases h
        exact hmem
    | idle | between | returned => simp
  obtain ⟨id, hid⟩ := ((h.reachable.issued_finite A.deployment.issued_finite).union
    hheld).infinite_compl.nonempty
  obtain ⟨hissued, hnone⟩ := not_or.mp hid
  refine ⟨⟨0, 0, id⟩, hissued, fun hkey => hissued ?_,
    fun c n a hc hmem => hnone ⟨c, n, a, hc, hmem⟩⟩
  exact idsTaken_of_reachable h.reachable _ hkey id (List.mem_singleton.mpr rfl)

/-! ### Handlers -/

theorem Api.lookup_within {α : Type} (q : Database → Except LedgerlockError α) :
    (A.lookup q).Within 1 := by
  intro x s
  dsimp only
  split <;> trivial

omit [ServerSum] [DecidableEq ν] in
theorem Api.callTransfer_within (i : ν) (args : TransferArgs) :
    (Api.callTransfer i args).Within 1 := fun _ _ => trivial

/-- Two accounts are looked up, and the call is made. -/
theorem Api.handler_within (A : Api ν) (i : ν) (r : ApiRequest) : (A.handler i r).Within 3 := by
  cases r with
  | createAccount user payload =>
      unfold Api.handler
      dsimp only
      split
      · trivial
      · unfold Api.createAccount
        split
        · trivial
        · refine Prog.Within.mono (m := 1) (fun x s => ?_) (by decide)
          dsimp only
          split <;> trivial
  | moveMoney r =>
      obtain ⟨user, header, route⟩ := r
      cases route with
      | createTransaction payload =>
          unfold Api.handler
          dsimp only
          split
          · trivial
          · refine Prog.Within.bind (m := 1) (n := 2) (A.lookup_within _) fun source => ?_
            split
            · trivial
            · exact Prog.Within.bind (m := 1) (n := 1) (A.lookup_within _)
                fun _ => Api.callTransfer_within _ _
      | fundAccount payload =>
          unfold Api.handler
          dsimp only
          split
          · trivial
          · exact Prog.Within.bind (m := 1) (n := 2) (A.lookup_within _) fun _ =>
              Prog.Within.bind (m := 1) (n := 1) (A.lookup_within _)
                fun _ => Api.callTransfer_within _ _

theorem Api.query_within {α : Type} (q : Database → Except ReadError α) :
    (A.query q).Within 1 := by
  intro x s
  dsimp only
  cases q (A.db s) <;> trivial

/-- A handler that reads looks twice at most. -/
theorem ReadRoute.program_within (order : ServerSort) (computedAt : Timestamp)
    (user : ObjectId) (route : ReadRoute) :
    (route.program A order computedAt user).Within 2 := by
  cases route with
  | listAccounts query =>
      exact (Prog.Within.bind (m := 0) (n := 1) (Prog.Within.ofExcept _ 0)
        fun _ => Api.query_within _).mono (by decide)
  | readAccount accountId =>
      exact (Prog.Within.bind (m := 0) (n := 1) (Prog.Within.ofExcept _ 0)
        fun _ => Api.query_within _).mono (by decide)
  | readBalance accountId =>
      exact Prog.Within.bind (m := 0) (n := 2) (Prog.Within.ofExcept _ 0) fun _ =>
        Prog.Within.bind (m := 1) (n := 1) (Api.query_within _) fun _ => Api.query_within _
  | readTransaction transactionId =>
      refine Prog.Within.bind (m := 0) (n := 2) (Prog.Within.ofExcept _ 0) fun _ =>
        Prog.Within.bind (m := 1) (n := 1) (Api.query_within _) fun document => ?_
      cases document with
      | none => trivial
      | some document => exact Api.query_within _

/-- A call that is waited for has been made. -/
theorem called_of_done {l : List (Option ν)}
    {c : Config ν (ApiState ν) AccountStamp ErrorResponse Api.Handled}
    (h : Run A.env A.start l c) {i : ν} {args : TransferArgs}
    (hi : c.prog i = .done (.called args)) : (i, args) ∈ c.shared.called := by
  induction h generalizing i args with
  | nil => exact absurd hi (A.handler_ne_done i _ _)
  | @concat l c d m hrun hs ih =>
      cases hs with
      | @act _ j f k x hp =>
          have hevery := hrun.every (A.handler_actions j)
          rw [hp] at hevery
          have hkept : ∀ y ∈ c.shared.called, y ∈ (f x c.shared).called := by
            intro y hy
            cases hevery.1 with
            | read => exact hy
            | call => exact List.mem_cons_of_mem _ hy
            | insert hinsert =>
                rcases hinsert x c.shared with ⟨_, -, -, hf, -⟩ | ⟨hf, -⟩
                · rw [hf]
                  exact hy
                · rw [hf]
                  exact hy
          have hprog : Function.update c.prog j (k x c.shared) i = .done (.called args) := hi
          by_cases hij : i = j
          · subst hij
            rw [Function.update_self] at hprog
            cases hevery.1 with
            | read hread => exact absurd hprog (hread _ _ _)
            | call =>
                obtain rfl := Api.Handled.called.inj (Prog.done.inj hprog)
                exact List.mem_cons_self
            | insert hinsert =>
                rcases hinsert x c.shared with ⟨_, -, -, -, hk⟩ | ⟨-, hk⟩
                · cases hk.symm.trans hprog
                · cases hk.symm.trans hprog
          · rw [Function.update_of_ne hij] at hprog
            exact hkept _ (ih hprog)
      | env hm =>
          have hcalled := ih hi
          cases hm with
          | ledger | provision => exact hcalled

end Requests

/-! ### Guards -/

theorem getCurrentUser_within (token : AccessToken) : (getCurrentUser token).Within 3 := by
  refine Prog.Within.bind (m := 1) (n := 2) (fun x s => ?_) fun _ => ?_
  · dsimp only
    split_ifs <;> trivial
  refine Prog.Within.bind (m := 1) (n := 1) (fun _ _ => trivial) fun revoked => ?_
  split_ifs
  · trivial
  refine Prog.Within.bind (m := 1) (n := 0) (fun _ _ => trivial) fun user => ?_
  cases user <;> trivial

theorem AuthRequest.program_within [Bcrypt] (minutes : Nat) (request : AuthRequest) :
    (request.program minutes).Within 4 := by
  cases request with
  | register email password =>
      refine Prog.Within.mono (m := 2) (fun x s => ?_) (by decide)
      dsimp only
      split
      · trivial
      · exact fun _ _ => trivial
  | login email password =>
      refine Prog.Within.mono (m := 1 + 1) (Prog.Within.bind (fun _ _ => trivial)
        fun user => ?_) (by decide)
      cases user with
      | none => trivial
      | some user =>
          dsimp only
          split_ifs
          · exact fun _ _ => trivial
          · trivial
  | logout token =>
      exact Prog.Within.bind (m := 3) (n := 1) (getCurrentUser_within token)
        fun _ _ _ => trivial
  | authenticated token =>
      exact Prog.Within.bind (m := 3) (n := 1) (getCurrentUser_within token) fun _ => trivial

/-! ### The service -/

namespace Service

variable {ν : Type} [ServerSum] [DecidableEq ν] (S : Service ν)

theorem handle_within (i : ν) (user : ObjectId) (endpoint : Endpoint) :
    (S.handle i user endpoint).Within 3 := by
  cases endpoint with
  | logout | readCurrentUser => trivial
  | createAccount | moveMoney => exact (S.api.handler_within i _).lift
  | read route =>
      exact Prog.Within.mono (m := 2) (n := 3) (Prog.Within.lift (route.program_within _ _ _))
        (by decide)
  | readReconciliation =>
      exact Prog.Within.mono (m := 1) (n := 3) (Prog.Within.lift (Api.query_within _)) (by decide)

variable [Bcrypt]

theorem program_within (i : ν) : (S.program i).Within 7 := by
  unfold program
  split
  · trivial
  refine Prog.Within.guarded (m := 4) (n := 3) ?_ fun admission => ?_
  · unfold ServiceRequest.guard
    split
    · refine Prog.Within.lift (Prog.Within.bind (m := 3) (n := 1) (getCurrentUser_within _)
        fun user => Prog.Within.bind (m := 1) (n := 0) (fun _ _ => trivial) fun document => ?_)
      cases document <;> trivial
    · exact (AuthRequest.program_within _ _).lift
  · unfold proceed
    split
    · exact S.handle_within _ _ _
    · trivial

variable {S} {c d : ServiceConfig ν} {now : Instant} {l : List (Option ν)} {i : ν}

/-! ### Alone -/

/-- From `s` to `t` the calls of the others than `i` are where they were, and nothing has been
committed for them. -/
structure OthersIdle (i : ν) (s t : ApiState ν) : Prop where
  log_grows : s.ledger.log <+: t.ledger.log
  phase : ∀ k, k.1 ≠ i → t.ledger.phase k = s.ledger.phase k
  commits : ∀ m ∈ t.ledger.log.drop s.ledger.log.length, ∀ k, m.author = some k → k.1 = i

omit [ServerSum] [DecidableEq ν] [Bcrypt] in
theorem OthersIdle.of_eq {s t : ApiState ν} (h : t.ledger = s.ledger) : OthersIdle i s t where
  log_grows := h ▸ List.prefix_rfl
  phase _ _ := h ▸ rfl
  commits := by simp [h]

omit [ServerSum] [DecidableEq ν] [Bcrypt] in
theorem OthersIdle.trans {s t u : ApiState ν} (h : OthersIdle i s t) (h' : OthersIdle i t u) :
    OthersIdle i s u where
  log_grows := h.log_grows.trans h'.log_grows
  phase k hk := (h'.phase k hk).trans (h.phase k hk)
  commits m hm := by
    obtain ⟨later, hlater⟩ := h'.log_grows
    have hlength := h.log_grows.length_le
    rw [← hlater, List.drop_append_of_le_length hlength, List.mem_append] at hm
    rcases hm with hm | hm
    · exact h.commits m hm
    · exact h'.commits m (by rwa [← hlater, List.drop_left])

omit [Bcrypt] in
/-- An action of a handler moves no call on, and what it commits is for none. -/
theorem bodyOf_othersIdle (S : Service ν) (i : ν) :
    (S.bodyOf i).Every (fun f _ => ∀ x s, OthersIdle i s (f x s)) fun _ => True := by
  by_cases hi : i ∈ S.apiReaders
  · exact (S.bodyOf_readOnly hi).mono fun f k hf x s => by
      rw [hf x s]
      exact .of_eq rfl
  · rw [S.bodyOf_of_notMem hi]
    refine Prog.Every.rename (D := fun _ => True) ((S.api.handler_actions i).mono
      fun f k hfk x s => ?_) fun _ _ => trivial
    cases hfk with
    | read | call => exact .of_eq rfl
    | insert hinsert =>
        rcases hinsert x s with ⟨account, -, -, hf, -⟩ | ⟨hf, -⟩
        · rw [hf]
          exact ⟨List.prefix_append _ _, fun _ _ => rfl, by simp [State.commitDirect]⟩
        · exact .of_eq (by rw [hf])

theorem Reached.step_othersIdle (h : S.Reached c) (hstep : Step S.env (some i) c d) :
    OthersIdle i c.shared.2 d.shared.2 := by
  obtain ⟨now, g, q, a, b, hparts⟩ := h.parts
  obtain ⟨l, hbodies⟩ := hparts.bodies
  cases hstep with
  | @act _ _ f k x hp =>
      have hstage := hparts.splits.stage i
      rw [hp] at hstage
      rcases hstage.of_act (hparts.splits.result i) with ⟨g', _, -, hf, -⟩ | ⟨q', _, hq, hf, -⟩
      · show OthersIdle i c.shared.2 (f x c.shared).2
        rw [hf]
        exact .of_eq rfl
      · have hbody := hbodies.every (S.bodyOf_othersIdle i)
        rw [hq] at hbody
        show OthersIdle i c.shared.2 (f x c.shared).2
        rw [hf]
        exact hbody.1 x.2 c.shared.2

theorem Reached.run_othersIdle (h : S.Reached c) (hrun : Run S.env c l d)
    (hown : ∀ m ∈ l, m = some i) : OthersIdle i c.shared.2 d.shared.2 := by
  induction hrun with
  | nil => exact .of_eq rfl
  | @concat l d d' m hrun hstep ih =>
      obtain rfl := hown m (by simp)
      exact (ih fun m hm => hown m (List.mem_append_left _ hm)).trans
        ((h.run hrun).step_othersIdle hstep)

theorem Reached.exists_offer (h : S.Reached c) : ∃ x, S.env.offers c.shared x := by
  obtain ⟨x, hx⟩ := authEnv_offers c.shared.1
  obtain ⟨y, hy⟩ := h.apiInv.exists_offer
  exact ⟨(x, y), hx, hy⟩

omit [Bcrypt] in
/-- What the ledger can do by itself it can do in the service. -/
theorem run_ledger {st : LedgerState (TransferCall ν)}
    (h : Steps S.api.deployment.system c.shared.2.ledger st)
    (hbegun : ∀ k, st.phase k ≠ .idle → k ∈ c.shared.2.called)
    (hauthors : ∀ k ∈ st.log.drop c.shared.2.ledger.log.length, k.author ≠ none) :
    ∃ l, Run S.env c l ⟨(c.shared.1, { c.shared.2 with ledger := st }), c.prog⟩ ∧
      ∀ i, some i ∉ l := by
  -- nobody does anything meanwhile
  obtain ⟨l, hrun⟩ := Api.run_ledger (A := S.api)
    (c := ⟨c.shared.2, fun _ => .raise handleUnexpectedError⟩) h hbegun hauthors
  have hnobody (i : ν) : some i ∉ l := by
    intro hi
    obtain ⟨_, e, _, _, hfirst, hnot, hstep, -⟩ := hrun.exists_first hi
    refine hstep.not_ended ?_
    rw [hfirst.prog_of_notMem hnot]
    exact .raise _
  obtain ⟨d, hrun', hshared, -, hsame⟩ := hrun.simulate (F := S.env)
    (e := fun t => (c.shared.1, t)) (b := c) (R := fun _ p _ => p.Ended)
    (fun _ _ _ _ hended => nomatch hended) (fun _ _ hm => .inr ⟨hm, rfl⟩) rfl
    fun i hi => absurd hi (hnobody i)
  refine ⟨l, ?_, hnobody⟩
  have hd : d = ⟨(c.shared.1, { c.shared.2 with ledger := st }), c.prog⟩ := by
    obtain ⟨shared, prog⟩ := d
    obtain rfl : shared = _ := hshared
    obtain rfl : prog = c.prog := funext fun i => hsame i (hnobody i)
    rfl
  exact hd ▸ hrun'

omit [ServerSum] [DecidableEq ν] [Bcrypt] in
/-- When there is nothing left to do a request is answered, or it waits for a call. -/
theorem responds_or_called [ServerSum] [DecidableEq ν] (hended : (c.prog i).Ended) :
    (∃ r, S.Responds c i r) ∨
      ∃ admission args, c.prog i = .done (admission, .handled (.called args)) := by
  generalize hp : c.prog i = p at hended
  cases hended with
  | raise e => exact .inl ⟨_, .raised hp⟩
  | done x =>
      obtain ⟨admission, result⟩ := x
      cases hresponse : result.response admission with
      | some r => exact .inl ⟨r, .ended hp hresponse⟩
      | none =>
          cases result with
          | nothing =>
              cases admission with
              | auth response => cases response <;> cases hresponse
              | profile user => cases hresponse
          | handled result =>
              cases result with
              | created account => cases hresponse
              | called args => exact .inr ⟨admission, args, rfl⟩
          | read | report => cases hresponse

/-- The call can be brought to its end. -/
theorem Reached.exists_returned (h : S.Reached c) {admission : Admission} {args : TransferArgs}
    (hi : c.prog i = .done (admission, .handled (.called args))) :
    ∃ l d r, Run S.env c l d ∧ S.Responds d i r ∧ (∀ j, some j ∉ l) ∧
      OthersIdle i c.shared.2 d.shared.2 := by
  obtain ⟨now, g, q, a, b, hparts⟩ := h.parts
  have hinv := hparts.apiInv
  obtain ⟨l, hapi⟩ := hparts.api
  have hcalled := called_of_done hapi (hparts.handled hi)
  rw [hparts.ledger] at hcalled
  obtain ⟨st, hsteps, ⟨n, outcome, hreturned⟩, hothers, hown⟩ :=
    hinv.reachable.canReturn S.api.deployment.issued_finite (i, args)
  have hbegun : ∀ k, st.phase k ≠ .idle → k ∈ c.shared.2.called := by
    intro k hk
    by_cases hcall : k = (i, args)
    · exact hcall ▸ hcalled
    · exact hinv.begun k (hothers k hcall ▸ hk)
  obtain ⟨l', hrun, hnobody⟩ := run_ledger (c := c) hsteps hbegun fun k hk hnone => by
    cases (hown k hk).symm.trans hnone
  refine ⟨l', _, _, hrun, .returned hi ⟨n, outcome, hreturned, rfl⟩, hnobody, ?_⟩
  refine ⟨hsteps.log_grows, fun k hk => hothers k fun heq => hk ?_, fun m hm k hauthor => ?_⟩
  · rw [heq]
  · obtain rfl := Option.some.inj ((hown m hm).symm.trans hauthor)
    rfl

/-- A request makes seven visits to the clock and the database at most, and wherever it and
the others have got to it can be answered without anybody else's doing anything: neither the
others nor their calls take a step. -/
theorem requests_terminate (h : Run S.env (S.start now) l c) (i : ν) :
    l.count (some i) ≤ 7 ∧ ∃ l' d r, Run S.env c l' d ∧ S.Responds d i r ∧
      (∀ j, j ≠ i → some j ∉ l' ∧ d.prog j = c.prog j) ∧
      OthersIdle i c.shared.2 d.shared.2 := by
  refine ⟨(h.within (S.program_within i)).1, ?_⟩
  obtain ⟨l₁, d, hrun, hended, hown⟩ := Interleave.exists_run_ended (E := S.env)
    (fun l d hrun => Reached.exists_offer ⟨now, _, h.trans hrun⟩) i
  have hc : S.Reached c := ⟨now, _, h⟩
  have hidle := hc.run_othersIdle hrun hown
  have hothers : ∀ j, j ≠ i → some j ∉ l₁ := fun j hj hmem =>
    hj (Option.some.inj (hown _ hmem))
  rcases responds_or_called hended with ⟨r, hr⟩ | ⟨admission, args, hi⟩
  · exact ⟨l₁, d, r, hrun, hr, fun j hj =>
      ⟨hothers j hj, hrun.prog_of_notMem (hothers j hj)⟩, hidle⟩
  · obtain ⟨l₂, e, r, hrun', hr, hnobody, hidle'⟩ := (hc.run hrun).exists_returned hi
    have hothers' : ∀ j, j ≠ i → some j ∉ l₁ ++ l₂ := fun j hj hmem =>
      (List.mem_append.mp hmem).elim (hothers j hj) (hnobody j)
    exact ⟨_, e, r, hrun.trans hrun', hr, fun j hj =>
      ⟨hothers' j hj, (hrun.trans hrun').prog_of_notMem (hothers' j hj)⟩, hidle.trans hidle'⟩

end Service

open Example in
/-- When Alice has paid she can log in. -/
theorem requests_terminate_served : ∃ (now : Instant) (l : List (Option Nat))
    (c : ServiceConfig Nat) (x y : Stamp), Run bank.env (bank.start now) l c ∧
    bank.db c.shared = servedDb x y ∧ l.count (some 4) ≤ 7 ∧
    ∃ l' d r, Run bank.env c l' d ∧ bank.Responds d 4 r ∧
      (∀ j, j ≠ 4 → some j ∉ l' ∧ d.prog j = c.prog j) ∧
      Service.OthersIdle 4 c.shared.2 d.shared.2 := by
  obtain ⟨c, x, y, ⟨now, l, hrun⟩, hdb, -⟩ := served
  exact ⟨now, l, c, x, y, hrun, hdb, Service.requests_terminate hrun 4⟩

end Ledgerlock
