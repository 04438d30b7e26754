import Ledgerlock.Spec.Idempotency
import Ledgerlock.Spec.Provenance

/-!
# Ledgerlock.Spec.Delivery

What those are told who move money.

A commit belongs to one call, and a call to one request. As long as no acknowledgement of a
commit is lost, the request is told of its transaction as soon as it is there. If one is,
the driver runs the transaction again, which then finds its own key, or gives up
(`LostAnswer`).
-/

namespace Ledgerlock

open Interleave (Config Prog)
open Mvcc

/-- What is raised by a call whose commit is there, but was not acknowledged. -/
inductive LostAnswer (args : TransferArgs) : Raised → Prop
  | duplicate (detectedBy : DetectedBy) :
      LostAnswer args (.ledgerlock (.duplicateSubmission args.idempotencyKey detectedBy))
  | conflict (attempts : Nat) :
      LostAnswer args (.ledgerlock (.writeConflict args.sourceAccountId attempts))
  | failure : LostAnswer args (.python .operationFailure)

section Calls

variable {ν : Type} [DecidableEq ν] [ServerSum] {D : Deployment ν} {st : LedgerState ν} {i : ν}
  {args : TransferArgs}

omit [DecidableEq ν] [ServerSum] in
/-- A failure of the driver's, or one labelled transient. -/
theorem lostAnswer_of_fault {f : Failure Raised} (hf : f = .transient ∨ f = .driver)
    (attempts : Nat) : LostAnswer args (createTransferRaises args attempts f) := by
  rcases hf with rfl | rfl
  · exact .conflict attempts
  · exact .failure

/-- A call that has committed returns what it has written, unless the commit was lost. -/
theorem answer_of_author (h : Reachable D.system st) (hcall : D.calls i = .createTransfer args)
    {c : Commit ν DbWrite ObjectId} (hc : c ∈ st.log) (hauthor : c.author = some i)
    {r : Except Raised Reply} (hend : D.Ends st i r) :
    (∃ reply, r = .ok reply) ∨ D.lossy ∧ ∃ e, r = .error e ∧ LostAnswer args e := by
  obtain ⟨k, hk⟩ := List.mem_iff_getElem?.mp hc
  obtain ⟨n, outcome, hphase, rfl⟩ := hend
  rw [hcall]
  rcases (h.settled hk hauthor).settled with ⟨n', r, hphase', hr⟩ | ⟨hlossy, hacc⟩
  · obtain ⟨rfl, rfl⟩ : n = n' ∧ outcome = r := by simpa [hphase] using hphase'
    rcases hr with ⟨reply, rfl⟩ | ⟨hlossy, rfl | rfl⟩
    · exact .inl ⟨reply, rfl⟩
    · exact .inr ⟨hlossy, _, rfl, .conflict n⟩
    · exact .inr ⟨hlossy, _, rfl, .failure⟩
  · -- every state it can still be answered from holds its key
    cases hacc.returned n outcome hphase with
    | committed => exact .inl ⟨_, rfl⟩
    | @rejected m _ hm _ hrej =>
        refine .inr ⟨hlossy, _, rfl, ?_⟩
        have hkey := key_of_author h.history hk hauthor hcall (Nat.lt_of_succ_le hm)
        obtain ⟨hdistinct, -⟩ :=
          (ledgerCommit_of_follows (h.history.follows hk)).of_author hauthor hcall
        rcases rejected_transfer hcall (h.history.take m) hrej with
          ⟨hsame, -⟩ | ⟨-, ⟨e, hjudge, rfl⟩ | ⟨-, rfl⟩⟩
        · exact absurd hsame hdistinct
        · obtain ⟨id, hid⟩ := judge_of_repeated hkey
          obtain rfl := Except.error.inj (hjudge.symm.trans hid)
          exact .duplicate _
        · exact .duplicate _
    | conflict => exact .inr ⟨hlossy, _, rfl, .conflict n⟩
    | invalid => exact .inr ⟨hlossy, _, rfl, .failure⟩
    | fault _ hf => exact .inr ⟨hlossy, _, rfl, lostAnswer_of_fault hf n⟩
    | lost _ _ _ _ _ _ hf => exact .inr ⟨hlossy, _, rfl, lostAnswer_of_fault hf n⟩

/-- As long as nothing is lost it has returned. -/
theorem ends_of_author (hlossy : ¬ D.lossy) (h : Reachable D.system st)
    {c : Commit ν DbWrite ObjectId} (hc : c ∈ st.log) (hauthor : c.author = some i) :
    ∃ reply, D.Ends st i (.ok reply) := by
  obtain ⟨k, hk⟩ := List.mem_iff_getElem?.mp hc
  rcases (h.settled hk hauthor).settled with ⟨n, r, hphase, ⟨reply, rfl⟩ | ⟨hlost, -⟩⟩ | ⟨hlost, -⟩
  · exact ⟨reply, Deployment.ends_ok.mpr ⟨n, hphase⟩⟩
  · exact absurd hlost hlossy
  · exact absurd hlost hlossy

end Calls

theorem Asks.isCurrencyCode {r : ApiRequest} {args : TransferArgs} (h : Asks r args) :
    isCurrencyCode args.currency = true := by
  unfold Asks at h
  split at h
  · exact h.elim
  · obtain ⟨key, p, -, rfl⟩ := h
    exact p.currency.property
  · obtain ⟨key, accountId, p, -, h⟩ := h
    rw [h]
    exact p.currency.property

namespace Service

variable {ν : Type} [ServerSum] [DecidableEq ν] {S : Service ν} [Bcrypt] {c : ServiceConfig ν}
  {now : Instant} {i : ν} {g : Config ν AuthStore AuthInput AuthError Admission}
  {q : Config ν (ApiState ν) AccountStamp ErrorEnvelope BodyResult}
  {a : Config ν AuthStore AuthInput AuthError AuthResponse}
  {b : Config ν (ApiState ν) AccountStamp ErrorResponse Api.Handled}

/-- A request that has made a call is told what the call comes to. -/
theorem Parts.responds_of_called (h : S.Parts now c g q a b) {args : TransferArgs}
    (hcalled : (i, args) ∈ c.shared.2.called) {r : Except ErrorEnvelope ServiceResponse} :
    S.Responds c i r ↔
      ∃ x, S.api.deployment.Ends c.shared.2.ledger (i, args) x ∧ r = callResponse x := by
  obtain ⟨hdone, -⟩ := called_asked h.api (h.ledger ▸ hcalled)
  obtain ⟨admission, hprog⟩ := h.prog_of_handled hdone
  constructor
  · intro hr
    cases hr with
    | raised hraise => cases hprog.symm.trans hraise
    | ended hended hresponse =>
        obtain ⟨rfl, rfl⟩ := Prod.mk.inj (Prog.done.inj (hprog.symm.trans hended))
        cases hresponse
    | returned hreturned hends =>
        obtain ⟨-, hargs⟩ := Prod.mk.inj (Prog.done.inj (hprog.symm.trans hreturned))
        obtain rfl := Api.Handled.called.inj (BodyResult.handled.inj hargs)
        exact ⟨_, hends, rfl⟩
  · rintro ⟨x, hends, rfl⟩
    exact .returned hprog hends

/-- Who is told of a transaction has written it. -/
theorem Parts.told (h : S.Parts now c g q a b) {body : TransactionPublic}
    (hr : S.Responds c i (.ok (.transaction body))) : ∃ k ∈ c.shared.2.ledger.log,
      ∃ args, ∃ x : Stamp, k.author = some (i, args) ∧ k.ids = x.ids ∧
        x.header args ∈ (S.db c.shared).transactions ∧ body = .fromDocument (x.header args) := by
  have hinv := h.apiInv
  generalize hresponse : Except.ok (ServiceResponse.transaction body) = r at hr
  cases hr with
  | raised => cases hresponse
  | @ended admission result _ _ hr =>
      rw [← hresponse] at hr
      cases result with
      | nothing =>
          cases admission with
          | auth response => cases response <;> cases hr
          | profile user => cases hr
      | read | report => cases hr
      | handled result =>
          cases result with
          | called args => cases hr
          | created account =>
              obtain ⟨shown, -, heq⟩ := respondWith_eq_ok.mp (Option.some.inj hr)
              cases heq
  | @returned _ args x _ hends =>
      rcases callResponse_eq_ok hresponse.symm with ⟨result, shown, rfl, hshown, heq⟩ | ⟨_, -, heq⟩
      · obtain rfl := ServiceResponse.transaction.inj heq
        obtain ⟨k, hk, hauthor, source, y, n, hws, hids, hreply⟩ :=
          written_of_ends hinv.reachable rfl hends
        obtain rfl := Reply.written.inj hreply
        obtain ⟨-, rfl⟩ := validated_eq_ok.mp hshown
        exact ⟨k, hk, args, y, hauthor, hids, mem_of_written hk hws, rfl⟩
      · cases heq

/-- Every transaction has one request that is told of it, and told so as long as no commit
is lost; otherwise it may be told one of three things. And whatever anybody is told of is
there. -/
theorem transaction_told (h : S.Reached c) :
    (∀ i body, S.Responds c i (.ok (.transaction body)) →
      ∃ t ∈ (S.db c.shared).transactions, body = .fromDocument t) ∧
    ∀ t ∈ (S.db c.shared).transactions, ∃ i token header route,
      S.requests i = .authenticated (.bearer token) (.moveMoney header route) ∧
      Asks (.moveMoney ⟨token.sub, header, route⟩) t.args ∧
      (¬ S.lossy → S.Responds c i (.ok (.transaction (.fromDocument t)))) ∧
      (∀ r, S.Responds c i r → r = .ok (.transaction (.fromDocument t)) ∨
        S.lossy ∧ ∃ e, LostAnswer t.args e ∧ r = .error e.response.envelope) ∧
      ∀ j, S.Responds c j (.ok (.transaction (.fromDocument t))) → j = i := by
  obtain ⟨now, g, q, a, b, hparts⟩ := h.parts
  have hinv := hparts.apiInv
  refine ⟨fun i body hr => ?_, fun t ht => ?_⟩
  · obtain ⟨k, -, args, x, -, -, hmem, rfl⟩ := hparts.told hr
    exact ⟨_, hmem, rfl⟩
  obtain ⟨k, hk, i, args, x, hauthor, hids, rfl⟩ := hinv.transaction ht
  have hcalled := hinv.authors k hk _ hauthor
  obtain ⟨token, header, route, hrequest, -, hasks⟩ := hparts.caller h hcalled
  -- what the call returns is this transaction
  have hanswer (reply : Reply)
      (hends : S.api.deployment.Ends c.shared.2.ledger (i, args) (.ok reply)) :
      callResponse (.ok reply) = .ok (.transaction (.fromDocument (x.header args))) := by
    obtain ⟨k', hk', hauthor', source, y, n, hws, -, rfl⟩ :=
      written_of_ends hinv.reachable rfl hends
    have hsame : y.header args = x.header args :=
      Database.transaction_eq_of_idempotencyKey hinv.keys (mem_of_written hk' hws) ht rfl
    show respondWith _ (TransactionPublic.ofStored (y.header args)) = _
    rw [hsame]
    exact respondWith_eq_ok.mpr ⟨_, validated_eq_ok.mpr ⟨if_pos hasks.isCurrencyCode, rfl⟩, rfl⟩
  refine ⟨i, token, header, route, hrequest, hasks, fun hlossy => ?_, fun r hr => ?_,
    fun j hr => ?_⟩
  · obtain ⟨reply, hends⟩ := ends_of_author hlossy hinv.reachable hk hauthor
    exact (hparts.responds_of_called hcalled).mpr ⟨_, hends, (hanswer reply hends).symm⟩
  · obtain ⟨y, hends, rfl⟩ := (hparts.responds_of_called hcalled).mp hr
    rcases answer_of_author hinv.reachable rfl hk hauthor hends with
      ⟨reply, rfl⟩ | ⟨hlossy, e, rfl, he⟩
    · exact .inl (hanswer reply hends)
    · exact .inr ⟨hlossy, e, he, rfl⟩
  · obtain ⟨k', hk', args', y, hauthor', hids', -, hbody⟩ := hparts.told hr
    have hid : x.transactionId = y.transactionId := congrArg TransactionPublic.id hbody
    have hcommit : k = k' := hinv.reachable.history.eq_of_id hk hk' (x := x.transactionId)
      (by simp [hids, Stamp.ids]) (by simp [hids', Stamp.ids, hid])
    rw [← hcommit, hauthor] at hauthor'
    exact (congrArg Prod.fst (Option.some.inj hauthor')).symm

end Service

open Example in
/-- Alice is told of her payment, and nobody else is. -/
theorem transaction_told_served : ∃ (c : ServiceConfig Nat) (x y : Stamp) (i : Nat),
    bank.Reached c ∧ bank.db c.shared = servedDb x y ∧
    bank.Responds c i
      (.ok (.transaction (.fromDocument (y.header (payArgs 11 1 0 "payment-0001"))))) ∧
    ∀ j, bank.Responds c j
      (.ok (.transaction (.fromDocument (y.header (payArgs 11 1 0 "payment-0001"))))) → j = i := by
  obtain ⟨c, x, y, hc, hdb, -⟩ := served
  have hpayment : y.header (payArgs 11 1 0 "payment-0001") ∈ (bank.db c.shared).transactions := by
    rw [hdb]
    exact List.mem_append_right [x.header (fundArgs 11 1 "funding-0001")]
      (List.mem_singleton_self _)
  obtain ⟨i, -, -, -, -, -, htold, -, hunique⟩ := (Service.transaction_told hc).2 _ hpayment
  exact ⟨c, x, y, i, hc, hdb, htold (fun h => h), hunique⟩

end Ledgerlock
