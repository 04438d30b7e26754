import Ledgerlock.Spec.Authorised
import Ledgerlock.Spec.Isolation

/-!
# Ledgerlock.Spec.Serving

Requests served with nobody else about.

A handler that nobody disturbs makes the call that `Request.asks` says of the present
state (`Api.run_asks`), and a run of the ledger by itself is a run of the API
(`Api.run_ledger`). `Example.funded_api` is put together from these: an account is
opened and funded through the API.
-/

namespace Ledgerlock

open Interleave (Config Prog Run)
open Mvcc

section Serving

variable {ν : Type} [ServerSum] [DecidableEq ν] {A : Api ν}
  {c : Config ν (ApiState ν) AccountStamp ErrorResponse Api.Handled} {i : ν} {id : ObjectId}

/-! ### Handlers by themselves -/

theorem Api.run_lookup {α : Type} {q : Database → Except LedgerlockError α}
    {f : α → Api.Handler ν Api.Handled} {a : α} (hi : c.prog i = A.lookup q >>= f)
    (hq : q (A.db c.shared) = .ok a) (hx : A.Unused c.shared id) :
    Run A.env c [some i] ⟨c.shared, Function.update c.prog i (f a)⟩ := by
  have hx : A.env.offers c.shared ⟨0, 0, id⟩ := hx
  have hrun : Run A.env c [some i] _ := .concat .nil (.act hi hx)
  dsimp only at hrun
  rw [hq] at hrun
  exact hrun

theorem Api.run_callTransfer {args : TransferArgs} (hi : c.prog i = Api.callTransfer i args)
    (hx : A.Unused c.shared id) :
    Run A.env c [some i] ⟨{ c.shared with called := (i, args) :: c.shared.called },
      Function.update c.prog i (.done (.called args))⟩ :=
  have hx : A.env.offers c.shared ⟨0, 0, id⟩ := hx
  .concat .nil (.act hi hx)

/-- A handler that nobody disturbs makes the call its request asks for. -/
theorem Api.run_asks {r : Request} {args : TransferArgs}
    (hi : c.prog i = A.handler i (.moveMoney r)) (h : r.asks (A.db c.shared) = .ok args)
    (hx : A.Unused c.shared id) :
    ∃ l, Run A.env c l ⟨{ c.shared with called := (i, args) :: c.shared.called },
      Function.update c.prog i (.done (.called args))⟩ := by
  -- the two lookups, and then the call
  have calls {α β : Type} {q : Database → Except LedgerlockError α}
      {q' : Database → Except LedgerlockError β} {a : α} {b : β}
      {f : α → Api.Handler ν Api.Handled} {g : β → Api.Handler ν Api.Handled}
      (hi : c.prog i = A.lookup q >>= f) (hq : q (A.db c.shared) = .ok a)
      (hf : f a = A.lookup q' >>= g) (hq' : q' (A.db c.shared) = .ok b)
      (hg : g b = Api.callTransfer i args) :
      ∃ l, Run A.env c l ⟨{ c.shared with called := (i, args) :: c.shared.called },
        Function.update c.prog i (.done (.called args))⟩ := by
    have hfirst := Api.run_lookup hi hq hx
    have hsecond := Api.run_lookup (c := ⟨c.shared, Function.update c.prog i (f a)⟩) (i := i)
      ((Function.update_self _ _ _).trans hf) hq' hx
    have hthird := Api.run_callTransfer
      (c := ⟨c.shared, Function.update (Function.update c.prog i (f a)) i (g b)⟩) (i := i)
      ((Function.update_self _ _ _).trans hg) hx
    have hrun := (hfirst.trans hsecond).trans hthird
    simp only [Function.update_idem] at hrun
    exact ⟨_, hrun⟩
  obtain ⟨user, header, route⟩ := r
  cases route with
  | createTransaction payload =>
      obtain ⟨⟨key, payload'⟩, hreceive, h⟩ := bind_eq_ok.mp h
      obtain ⟨source, hsource, h⟩ := bind_eq_ok.mp (mapError_eq_ok.mp h)
      simp only [Api.handler, hreceive] at hi
      split at h
      · cases h
      · rename_i howner
        obtain ⟨destination, hdestination, h⟩ := bind_eq_ok.mp h
        obtain rfl := Except.ok.inj h
        exact calls hi hsource (if_neg howner) hdestination rfl
  | fundAccount payload =>
      obtain ⟨⟨key, accountId, payload'⟩, hreceive, h⟩ := bind_eq_ok.mp h
      obtain ⟨destination, hdestination, h⟩ := bind_eq_ok.mp (mapError_eq_ok.mp h)
      simp only [Api.handler, hreceive] at hi
      split at h
      · cases h
      · rename_i boundary hboundary
        obtain rfl := Except.ok.inj h
        exact calls hi hdestination rfl (by rw [hboundary]) rfl

/-! ### The ledger by itself -/

/-- A run of the ledger in which only calls act that have been made. -/
theorem Api.run_ledger {st : LedgerState (TransferCall ν)}
    (h : Steps A.deployment.system c.shared.ledger st)
    (hbegun : ∀ k, st.phase k ≠ .idle → k ∈ c.shared.called)
    (hauthors : ∀ k ∈ st.log.drop c.shared.ledger.log.length, k.author ≠ none) :
    ∃ l, Run A.env c l ⟨{ c.shared with ledger := st }, c.prog⟩ := by
  induction h with
  | refl => exact ⟨[], .nil⟩
  | @tail st st' hsteps hstep ih =>
      have hgrows : st.log <+: st'.log := (Steps.single hstep).log_grows
      have hdrop : ∀ n, ∀ k ∈ st.log.drop n, k ∈ st'.log.drop n := by
        obtain ⟨later, hlog⟩ := hgrows
        intro n k hk
        rw [← hlog, List.drop_append]
        exact List.mem_append_left _ hk
      obtain ⟨l, hrun⟩ := ih (fun k hk => hbegun k (hstep.phase_ne_idle hk))
        fun k hk => hauthors k (hdrop _ k hk)
      refine ⟨_, hrun.concat (.env (.ledger hstep hbegun fun k hk hnone => ?_))⟩
      -- what is new in the last step is new
      refine absurd hnone (hauthors k ?_)
      have hle : c.shared.ledger.log.length ≤ st.log.length := hsteps.log_grows.length_le
      rw [show st.log.length = c.shared.ledger.log.length +
        (st.log.length - c.shared.ledger.log.length) by omega, ← List.drop_drop] at hk
      exact List.mem_of_mem_drop hk

/-- While nobody holds a lock there is an id to be had. -/
theorem Api.exists_unused {s : ApiState ν} (h : Reachable A.deployment.system s.ledger)
    (hquiet : ∀ k n a, s.ledger.phase k ≠ .running n a) : ∃ id, A.Unused s id := by
  obtain ⟨id, hid, -⟩ := h.supply A.deployment.issued_finite []
  refine ⟨id, hid, fun hkey => ?_, fun k n a hk => absurd hk (hquiet k n a)⟩
  exact hid (idsTaken_of_reachable h _ hkey id (List.mem_singleton.mpr rfl))

/-- A request that the present state grants, and that nobody disturbs, is carried out. -/
theorem Api.Reached.exists_written {r : Request} {args : TransferArgs} {source : Account}
    (h : A.Reached c) (hi : c.prog i = A.handler i (.moveMoney r))
    (hasks : r.asks (A.db c.shared) = .ok args)
    (hdistinct : args.sourceAccountId ≠ args.destinationAccountId)
    (hjudge : judge (A.db c.shared) args = .ok source)
    (hidle : c.shared.ledger.phase (i, args) = .idle) (hrest : c.shared.ledger.Resting) :
    ∃ d x, A.Reached d ∧ A.db d.shared = view (A.db c.shared) (transferWrites source args x) ∧
      d.shared.called = (i, args) :: c.shared.called ∧ d.shared.ledger.Resting ∧
      (∀ k, k ≠ (i, args) → d.shared.ledger.phase k = c.shared.ledger.phase k) ∧
      ∀ j, j ≠ i → d.prog j = c.prog j := by
  have hinv := h.inv
  obtain ⟨l, hrun⟩ := h
  have hquiet : ∀ k n a, c.shared.ledger.phase k ≠ .running n a := by
    intro k n a hk
    rcases hrest k with hk' | ⟨m, r, hk'⟩ <;> cases hk.symm.trans hk'
  obtain ⟨id, hid⟩ := Api.exists_unused hinv.reachable hquiet
  obtain ⟨l₁, hrun₁⟩ := Api.run_asks hi hasks hid
  obtain ⟨st, x, hsteps, hdb, ⟨n, hreturned⟩, hothers, hown⟩ :=
    A.deployment.exists_written hinv.reachable hidle (fun k _ => hquiet k) rfl hdistinct hjudge
  have hbegun : ∀ k, st.phase k ≠ .idle → k ∈ (i, args) :: c.shared.called := by
    intro k hk
    by_cases hcall : k = (i, args)
    · exact hcall ▸ List.mem_cons_self
    · rw [hothers k hcall] at hk
      exact List.mem_cons_of_mem _ (hinv.begun k hk)
  obtain ⟨l₂, hrun₂⟩ := Api.run_ledger (A := A)
    (c := ⟨{ c.shared with called := (i, args) :: c.shared.called },
      Function.update c.prog i (.done (.called args))⟩) hsteps hbegun
    fun k hk hnone => by cases (hown k hk).symm.trans hnone
  refine ⟨_, x, ⟨_, (hrun.trans hrun₁).trans hrun₂⟩, hdb, rfl, fun k => ?_, hothers,
    fun j hj => Function.update_of_ne hj _ _⟩
  by_cases hk : k = (i, args)
  · subst hk
    exact .inr ⟨n, _, hreturned⟩
  · rcases hrest k with hk' | ⟨m, r, hk'⟩
    · exact .inl ((hothers k hk).trans hk')
    · exact .inr ⟨m, r, (hothers k hk).trans hk'⟩

end Serving

/-! ### A run -/

namespace Example

theorem isCurrencyCode_usd : isCurrencyCode "USD" = true := by decide

/-- Alice opens an account, funds it, and pays into the SYSTEM account, whose id the
funding has told her. -/
def apiRequests : Nat → ApiRequest
  | 0 => .createAccount 11
      (.valid ⟨⟨"USD", isCurrencyCode_usd⟩, ⟨"Everyday spending", by decide⟩⟩)
  | 1 => .moveMoney (fund 11 1 "funding-0001")
  | _ + 2 => .moveMoney (pay 11 1 0 "payment-0001")

def api : Api Nat where
  requests := apiRequests
  supportedCurrencies := ["USD"]
  lossy := False
  faulty := False

/-- Her account is open. -/
def openedDb : Database := ⟨[boundary, alice], [], []⟩

/-- A boundary account is provisioned, and a request opens Alice's. -/
theorem opened (A : Api Nat) (h₀ : A.requests 0 = apiRequests 0)
    (hcurrencies : A.supportedCurrencies = ["USD"]) :
    ∃ c, A.Reached c ∧ A.db c.shared = openedDb ∧ c.shared.called = [] ∧
      (∀ k, c.shared.ledger.phase k = .idle) ∧
      ∀ i, i ≠ 0 → c.prog i = A.handler i (A.requests i) := by
  have hmissing : ensureSystemAccount ⟨[], [], []⟩ "USD" 0 0 0 =
      .ok (some (.insertAccount boundary)) := rfl
  have hboundary : Step A.deployment.system A.start.shared.ledger
      (A.start.shared.ledger.commitDirect (.insertAccount boundary)) := by
    refine .direct (.provision hmissing) (fun _ _ _ h => by cases h) rfl rfl ?_
    simp [Api.start, System.start, Deployment.system, Api.deployment]
  have hprovision : A.env.moves A.start.shared _ :=
    .provision hmissing hboundary
  have hunused : A.env.offers
      ⟨A.start.shared.ledger.commitDirect (.insertAccount boundary), [], [0]⟩ ⟨0, 0, 1⟩ := by
    refine ⟨?_, ?_, fun _ _ _ h => by cases h⟩
    · simp [State.commitDirect, Api.start, System.start, Deployment.system, Api.deployment,
        DocStore.creates, DbWrite.creates, boundary]
    · show DbKey.account 1 ∉ Database.keys ⟨[boundary], [], []⟩
      decide
  have hinsert : A.start.prog 0 = Api.insertAccount 11 "USD" "Everyday spending" := by
    show A.handler 0 (A.requests 0) = _
    rw [h₀]
    show A.createAccount 11 _ = _
    rw [Api.createAccount, hcurrencies]
    rfl
  have hrun := Run.concat (.concat .nil (.env hprovision)) (.act (i := 0) hinsert hunused)
  exact ⟨_, ⟨_, hrun⟩, rfl, rfl, fun _ => rfl, fun i hi => Function.update_of_ne hi _ _⟩

theorem opened_api : ∃ c, api.Reached c ∧ api.db c.shared = openedDb ∧ c.shared.called = [] ∧
    (∀ k, c.shared.ledger.phase k = .idle) ∧
    ∀ i, i ≠ 0 → c.prog i = api.handler i (apiRequests i) :=
  opened api rfl rfl

/-- Her account is funded. -/
theorem funded_api : ∃ c x, api.Reached c ∧ api.db c.shared =
      view openedDb (transferWrites boundary (fundArgs 11 1 "funding-0001") x) ∧
    c.shared.called = [(1, fundArgs 11 1 "funding-0001")] ∧ c.shared.ledger.Resting ∧
    (∀ k, k ≠ (1, fundArgs 11 1 "funding-0001") → c.shared.ledger.phase k = .idle) ∧
    ∀ i, i ≠ 0 → i ≠ 1 → c.prog i = api.handler i (apiRequests i) := by
  obtain ⟨c, hc, hdb, hcalled, hidle, hprog⟩ := opened_api
  have hasks : (fund 11 1 "funding-0001").asks (api.db c.shared) =
      .ok (fundArgs 11 1 "funding-0001") := by
    rw [hdb]
    rfl
  have hjudge : judge (api.db c.shared) (fundArgs 11 1 "funding-0001") = .ok boundary := by
    rw [hdb]
    rfl
  obtain ⟨d, x, hd, hdb', hcalled', hrest, hothers, hprog'⟩ :=
    hc.exists_written (hprog 1 (by decide)) hasks (by decide) hjudge (hidle _)
      fun k => .inl (hidle k)
  refine ⟨d, x, hd, by rw [hdb', hdb], by rw [hcalled', hcalled], hrest, fun k hk => ?_,
    fun i h₀ h₁ => (hprog' i h₁).trans (hprog i h₀)⟩
  rw [hothers k hk, hidle]

/-- The account is opened, funded, and pays the SYSTEM account. -/
theorem returned_api : ∃ c x y, api.Reached c ∧ api.db c.shared =
    view (view openedDb (transferWrites boundary (fundArgs 11 1 "funding-0001") x))
      (transferWrites alice (payArgs 11 1 0 "payment-0001") y) := by
  obtain ⟨c, x, hc, hdb, hcalled, hrest, hidle, hprog⟩ := funded_api
  have hasks : (pay 11 1 0 "payment-0001").asks (api.db c.shared) =
      .ok (payArgs 11 1 0 "payment-0001") := by
    rw [hdb]
    rfl
  have hjudge : judge (api.db c.shared) (payArgs 11 1 0 "payment-0001") = .ok alice := by
    rw [hdb]
    rfl
  obtain ⟨d, y, hd, hdb', -⟩ := hc.exists_written (hprog 2 (by decide) (by decide)) hasks
    (by decide) hjudge (hidle _ (by decide)) hrest
  exact ⟨d, x, y, hd, by rw [hdb', hdb]⟩

end Example

end Ledgerlock
