import Ledgerlock.Spec.Bank
import Ledgerlock.Spec.Conflicts
import Ledgerlock.Spec.Response

/-!
# Ledgerlock.Spec.Decision

What those are answered who ask for money to be moved.

A handler looks up two accounts, one after the other, and then calls `create_transfer`, which
makes its decision on a state of its own. All the same the answer is the one of `respond` on a
single committed state, one no older than the request (`Service.transfer_decided`): what a
lookup has found stays as far as the request is concerned (`Database.Grows.asks`), and the
call reads nothing that is older than itself. A call that is given up for a conflict has found
somebody else in its way (`Hindered`).
-/

namespace Ledgerlock

open Bookkeeping (Bank Event)
open Interleave (Config Post Prog Protocol Run Step)
open Mvcc

/-! ### What a request asks for -/

namespace Database

variable {d d' : Database}

/-- An account stays there, and stays somebody's. -/
theorem Grows.getAccountOrRaise (h : d.Grows d') (hkeys : d'.keys.Nodup) {accountId : ObjectId}
    {a : Account} (hd : d.getAccountOrRaise accountId = .ok a) :
    ∃ a', d'.getAccountOrRaise accountId = .ok a' ∧ a'.ownerId = a.ownerId := by
  obtain ⟨hmem, rfl⟩ := findAccount_some (getAccountOrRaise_eq_ok.mp hd)
  obtain ⟨a', hmem', hsame⟩ := h.exists_account hmem
  obtain ⟨hid, howner, -⟩ := Account.same_of_opened hsame
  exact ⟨a', hid ▸ getAccountOrRaise_eq_ok.mpr (findAccount_of_mem hkeys hmem'), howner⟩

/-- The SYSTEM account of a currency stays what it is. -/
theorem Grows.getSystemAccount (h : d.Grows d') (hkeys : d'.keys.Nodup) {currency : String}
    {a : Account} (hd : d.getSystemAccount currency = some a) :
    ∃ a', d'.getSystemAccount currency = some a' ∧ a'.id = a.id := by
  obtain ⟨hmem, htype, hcurrency⟩ := getSystemAccount_eq_some hd
  obtain ⟨a', hmem', hsame⟩ := h.exists_account hmem
  obtain ⟨hid, -, hcurrency', -⟩ := Account.same_of_opened hsame
  have htype' : a'.accountType = a.accountType := congrArg (·.accountType) hsame
  cases hfind : d'.getSystemAccount currency with
  | none =>
      have hbound : d'.IsBoundary currency a'.id :=
        ⟨a', hmem', rfl, htype'.trans htype, hcurrency'.trans hcurrency⟩
      exact absurd hfind (getSystemAccount_ne_none hbound)
  | some b =>
      obtain ⟨hb, hbtype, hbcurrency⟩ := getSystemAccount_eq_some hfind
      have hsame : b = a' := systemAccount_eq hkeys hb hmem' hbtype (htype'.trans htype)
        (hbcurrency.trans (hcurrency'.trans hcurrency).symm)
      exact ⟨b, rfl, hsame ▸ hid⟩

/-- What a request asks for once it always does. -/
theorem Grows.asks (h : d.Grows d') (hkeys : d'.keys.Nodup) {r : Request} {args : TransferArgs}
    (hd : r.asks d = .ok args) : r.asks d' = .ok args := by
  obtain ⟨user, header, route⟩ := r
  cases route with
  | createTransaction payload =>
      obtain ⟨⟨key, p⟩, hreceive, hd⟩ := bind_eq_ok.mp hd
      obtain ⟨source, hsource, hd⟩ := bind_eq_ok.mp (mapError_eq_ok.mp hd)
      obtain ⟨source', hsource', howner⟩ := h.getAccountOrRaise hkeys hsource
      refine bind_eq_ok.mpr ⟨(key, p), hreceive, mapError_eq_ok.mpr (bind_eq_ok.mpr
        ⟨source', hsource', ?_⟩)⟩
      rw [howner]
      split at hd
      · cases hd
      · rename_i hmine
        rw [if_neg hmine]
        obtain ⟨destination, hdestination, hd⟩ := bind_eq_ok.mp hd
        obtain ⟨destination', hdestination', -⟩ := h.getAccountOrRaise hkeys hdestination
        exact bind_eq_ok.mpr ⟨destination', hdestination', hd⟩
  | fundAccount payload =>
      obtain ⟨⟨key, accountId, p⟩, hreceive, hd⟩ := bind_eq_ok.mp hd
      obtain ⟨destination, hdestination, hd⟩ := bind_eq_ok.mp (mapError_eq_ok.mp hd)
      obtain ⟨destination', hdestination', hsame⟩ := h.getOwnedAccountOrRaise hkeys hdestination
      obtain ⟨hid, -⟩ := Account.same_of_opened hsame
      refine bind_eq_ok.mpr ⟨(key, accountId, p), hreceive, mapError_eq_ok.mpr (bind_eq_ok.mpr
        ⟨destination', hdestination', ?_⟩)⟩
      cases hboundary : d.getSystemAccount p.currency with
      | none =>
          rw [hboundary] at hd
          cases hd
      | some boundary =>
          rw [hboundary] at hd
          obtain ⟨boundary', hboundary', hid'⟩ := h.getSystemAccount hkeys hboundary
          rw [hboundary', hid]
          dsimp only
          rw [hid']
          exact hd

end Database

/-! ### What goes on while a request is served -/

/-- What is opened is a USER account, and `create_account` opens it. -/
theorem Opens.accountWrite {supportedCurrencies : List String} {r : ApiRequest}
    {account : Account} (h : Opens supportedCurrencies r account) :
    account.accountType = .user ∧ AccountWrite (.insertAccount account) := by
  have hcurrency := h.isCurrencyCode
  unfold Opens at h
  split at h
  · rename_i user payload
    obtain ⟨-, h⟩ := h
    rw [h] at hcurrency ⊢
    suffices hcreate : createAccount user payload.currency payload.label account.createdAt
        account.updatedAt account.id = .ok _ from ⟨rfl, .create hcreate⟩
    exact bind_eq_ok.mpr ⟨_, validated_eq_ok.mpr ⟨if_pos hcurrency, rfl⟩, rfl⟩
  · exact h.elim

section Handlers

variable {ν : Type} [ServerSum] [DecidableEq ν] {A : Api ν} {i j : ν} {r : Request}
  {s s₀ t u : ApiState ν}

/-- What a call of `create_transfer` finds. -/
structure CallsInv (A : Api ν) (s : ApiState ν) : Prop where
  reachable : Reachable A.deployment.system s.ledger
  begun : ∀ k, s.ledger.phase k ≠ .idle → k ∈ s.called

/-- The ledger takes its steps, and nobody calls on behalf of request `i`. -/
structure CallsRely (A : Api ν) (i : ν) (s t : ApiState ν) : Prop where
  steps : Steps A.deployment.system s.ledger t.ledger
  called : ∀ args, (i, args) ∈ t.called → (i, args) ∈ s.called

theorem CallsInv.keys (h : CallsInv A s) : (A.db s).keys.Nodup := by
  obtain ⟨journal, hjournal⟩ := A.deployment.represents h.reachable
  exact hjournal.keys

theorem ApiInv.calls (h : ApiInv A s) : CallsInv A s := ⟨h.reachable, h.begun⟩

theorem CallsRely.grows (h : CallsRely A i s t) : (A.db s).Grows (A.db t) :=
  Database.grows_of_prefix _ h.steps.log_grows

theorem Api.Moves.calls (h : A.Moves s t) : CallsRely A i s t := by
  cases h with
  | ledger hstep => exact ⟨.single hstep, fun _ hcalled => hcalled⟩
  | provision _ hstep => exact ⟨.single hstep, fun _ hcalled => hcalled⟩

theorem ApiAction.calls {f : AccountStamp → ApiState ν → ApiState ν}
    {k : AccountStamp → ApiState ν → Api.Handler ν Api.Handled} (h : ApiAction A j f k)
    (hji : j ≠ i) {x : AccountStamp} (hx : A.Unused s x.insertedId) :
    CallsRely A i s (f x s) := by
  cases h with
  | read => exact ⟨.refl _, fun _ hcalled => hcalled⟩
  | call =>
      refine ⟨.refl _, fun args hcalled => ?_⟩
      rcases List.mem_cons.mp hcalled with heq | hcalled
      · exact absurd (Prod.mk.inj heq).1.symm hji
      · exact hcalled
  | insert hinsert =>
      rcases hinsert x s with ⟨account, hopens, hid, hf, -⟩ | ⟨hf, -⟩
      · obtain ⟨htype, hwrite⟩ := hopens.accountWrite
        have hunused : A.Unused s account.id := hid ▸ hx
        rw [hf]
        exact ⟨.single (hunused.step htype hwrite), fun _ hcalled => hcalled⟩
      · rw [hf]
        exact ⟨.refl _, fun _ hcalled => hcalled⟩

def callsProtocol (A : Api ν) (i : ν) : Protocol A.env where
  inv := CallsInv A
  rely := CallsRely A i
  rely_refl _ := ⟨.refl _, fun _ h => h⟩
  rely_trans _ _ _ h h' := ⟨.trans h.steps h'.steps, fun args hcalled =>
    h.called args (h'.called args hcalled)⟩
  inv_moves s t hs hm := by
    cases hm with
    | ledger hstep hbegun => exact ⟨hs.reachable.tail hstep, hbegun⟩
    | provision _ hstep => exact ⟨hs.reachable.tail hstep, hs.begun⟩
  rely_moves _ _ _ hm := hm.calls

/-! ### Handlers -/

/-- Since `s` there has been a state on which the request asks for this call, and which the
call was made in. -/
def Api.Asked (A : Api ν) (i : ν) (r : Request) (s t : ApiState ν) (args : TransferArgs) : Prop :=
  ∃ st, Steps A.deployment.system s.ledger st ∧ Steps A.deployment.system st t.ledger ∧
    st.phase (i, args) = .idle ∧ r.asks (A.deployment.db st) = .ok args

/-- Since `s` there has been a state on which the request is turned down. -/
def Api.TurnedDown (A : Api ν) (r : Request) (s t : ApiState ν) (e : ErrorResponse) : Prop :=
  ∃ n, s.ledger.log.length ≤ n ∧ n ≤ t.ledger.log.length ∧ r.asks (A.dbAfter t n) = .error e

/-- The handler decides as `Request.asks` does on one state. -/
def askedPost (A : Api ν) (i : ν) (r : Request) (s : ApiState ν) :
    Post (ApiState ν) ErrorResponse Api.Handled where
  done result t := ∃ args, result = .called args ∧ A.Asked i r s t args
  raise e t := A.TurnedDown r s t e

theorem Api.dbAfter_now (hst : s.ledger.log <+: t.ledger.log) :
    A.dbAfter t s.ledger.log.length = A.db s := by
  rw [Api.dbAfter_of_prefix hst le_rfl]
  exact A.dbAfter_length s

theorem turnedDown_of_now (hst : CallsRely A i s t) (htu : CallsRely A i t u)
    {e : ErrorResponse} (he : r.asks (A.db t) = .error e) : A.TurnedDown r s u e := by
  refine ⟨t.ledger.log.length, hst.steps.log_grows.length_le, htu.steps.log_grows.length_le, ?_⟩
  rw [Api.dbAfter_now htu.steps.log_grows]
  exact he

/-- A lookup that raises turns the request down. -/
theorem lookup_decides {α : Type} {q : Database → Except LedgerlockError α}
    {f : α → Api.Handler ν Api.Handled} (hs₀ : CallsRely A i s₀ s) (hs : CallsInv A s)
    (herror : ∀ t, CallsRely A i s t → CallsInv A t → ∀ e, q (A.db t) = .error e →
      r.asks (A.db t) = .error (handleLedgerlockError e))
    (hok : ∀ t, CallsRely A i s t → CallsInv A t → ∀ a, q (A.db t) = .ok a →
      ∀ u, CallsRely A i t u → CallsInv A u →
      (f a).wp (callsProtocol A i) (fun _ _ => True) (askedPost A i r s₀) u) :
    (A.lookup q >>= f).wp (callsProtocol A i) (fun _ _ => True) (askedPost A i r s₀) s := by
  refine Prog.wp_bind hs fun t _ hst ht _ => ⟨trivial, ht, ?_⟩
  cases hq : q (A.db t) with
  | ok a =>
      simp only [hq]
      exact hok t hst ht a hq
  | error e =>
      simp only [hq]
      exact fun u htu _ => turnedDown_of_now ((callsProtocol A i).rely_trans _ _ _ hs₀ hst) htu
        (herror t hst ht e hq)

/-- A call that the request keeps asking for is made. -/
theorem callTransfer_decides {args : TransferArgs} (hs₀ : CallsRely A i s₀ s)
    (hnone : (i, args) ∉ s₀.called)
    (hasks : ∀ t, CallsRely A i s t → CallsInv A t → r.asks (A.db t) = .ok args) :
    (Api.callTransfer i args).wp (callsProtocol A i) (fun _ _ => True) (askedPost A i r s₀) s := by
  intro t _ hst ht _
  have hs₀t := (callsProtocol A i).rely_trans _ _ _ hs₀ hst
  -- nothing has been begun that has not been called
  have hidle : t.ledger.phase (i, args) = .idle := by
    by_contra hbegun
    exact hnone (hs₀t.called args (ht.begun _ hbegun))
  exact ⟨trivial, ⟨ht.reachable, fun k hk => List.mem_cons_of_mem _ (ht.begun k hk)⟩,
    fun u htu _ => ⟨args, rfl, t.ledger, hs₀t.steps, htu.steps, hidle, hasks t hst ht⟩⟩

theorem createTransaction_decides {user : ObjectId} {header : Option String}
    {payload : Payload TransferCreateRequest} {key : String} {p : TransferCreateRequest}
    (hreceive : receive header payload = .ok (key, p)) (hs : CallsInv A s)
    (hnone : ∀ args, (i, args) ∉ s.called) :
    (A.createTransaction i user key p).wp (callsProtocol A i) (fun _ _ => True)
      (askedPost A i ⟨user, header, .createTransaction payload⟩ s) s := by
  have hasks (d : Database) :
      (⟨user, header, .createTransaction payload⟩ : Request).asks d =
        (Ledgerlock.createTransaction d user key p).mapError handleLedgerlockError := by
    simp only [Request.asks, hreceive, bind, Except.bind]
  have hrefl := (callsProtocol A i).rely_refl s
  refine lookup_decides hrefl hs (fun t _ _ e he => ?_) fun t hst ht source hsource u htu hu => ?_
  · rw [hasks, Ledgerlock.createTransaction, he]
    rfl
  split
  · rename_i howner
    refine fun v huv _ => turnedDown_of_now hst ((callsProtocol A i).rely_trans _ _ _ htu huv) ?_
    rw [hasks, Ledgerlock.createTransaction, hsource]
    exact congrArg (Except.mapError _) (if_pos howner)
  rename_i howner
  have hsu := (callsProtocol A i).rely_trans _ _ _ hst htu
  -- the source is still theirs when the destination is looked up
  have hlater (v : ApiState ν) (huv : CallsRely A i u v) (hv : CallsInv A v) :
      Ledgerlock.createTransaction (A.db v) user key p =
        (A.db v).getAccountOrRaise p.destinationAccountId >>= fun _ => .ok
          { idempotencyKey := key
            sourceAccountId := p.sourceAccountId
            destinationAccountId := p.destinationAccountId
            amountMinor := p.amountMinor
            currency := p.currency
            description := p.description
            kind := .transfer
            submittedBy := some user } := by
    obtain ⟨source', hsource', howner'⟩ :=
      (htu.grows.trans huv.grows).getAccountOrRaise hv.keys hsource
    rw [Ledgerlock.createTransaction, hsource']
    exact if_neg (howner'.symm ▸ howner)
  refine lookup_decides hsu hu (fun v huv hv e he => ?_)
    fun v huv hv destination hdestination w hvw _ => ?_
  · rw [hasks, hlater v huv hv, he]
    rfl
  · refine callTransfer_decides ((callsProtocol A i).rely_trans _ _ _ hsu
      ((callsProtocol A i).rely_trans _ _ _ huv hvw)) (hnone _) fun x hwx hx => ?_
    refine (hvw.grows.trans hwx.grows).asks hx.keys ?_
    rw [hasks, hlater v huv hv, hdestination]
    rfl

theorem fundAccount_decides {user : ObjectId} {header : Option String}
    {payload : Payload (ObjectId × FundingCreateRequest)} {key : String} {accountId : ObjectId}
    {p : FundingCreateRequest} (hreceive : receive header payload = .ok (key, accountId, p))
    (hs : CallsInv A s) (hnone : ∀ args, (i, args) ∉ s.called) :
    (A.fundAccount i user key accountId p).wp (callsProtocol A i) (fun _ _ => True)
      (askedPost A i ⟨user, header, .fundAccount payload⟩ s) s := by
  have hasks (d : Database) : (⟨user, header, .fundAccount payload⟩ : Request).asks d =
      (Ledgerlock.fundAccount d user key accountId p).mapError handleLedgerlockError := by
    simp only [Request.asks, hreceive, bind, Except.bind]
  have hrefl := (callsProtocol A i).rely_refl s
  refine lookup_decides hrefl hs (fun t _ _ e he => ?_)
    fun t hst ht destination hdestination u htu hu => ?_
  · rw [hasks, Ledgerlock.fundAccount, he]
    rfl
  have hsu := (callsProtocol A i).rely_trans _ _ _ hst htu
  refine lookup_decides hsu hu (fun v huv hv e he => ?_) fun v huv hv boundary hboundary w hvw _ =>
    callTransfer_decides ((callsProtocol A i).rely_trans _ _ _ hsu
      ((callsProtocol A i).rely_trans _ _ _ huv hvw)) (hnone _) fun x hwx hx => ?_
  · obtain ⟨destination', hdestination', -⟩ :=
      (htu.grows.trans huv.grows).getOwnedAccountOrRaise hv.keys hdestination
    rw [hasks, Ledgerlock.fundAccount, hdestination']
    cases hfind : (A.db v).getSystemAccount p.currency with
    | none =>
        rw [hfind] at he
        obtain rfl := Except.error.inj he
        rfl
    | some a =>
        rw [hfind] at he
        cases he
  · refine (hvw.grows.trans hwx.grows).asks hx.keys ?_
    obtain ⟨destination', hdestination', hsame⟩ :=
      (htu.grows.trans huv.grows).getOwnedAccountOrRaise hv.keys hdestination
    obtain ⟨hid, -⟩ := Account.same_of_opened hsame
    rw [hasks, Ledgerlock.fundAccount, hdestination']
    cases hfind : (A.db v).getSystemAccount p.currency with
    | none =>
        rw [hfind] at hboundary
        cases hboundary
    | some a =>
        rw [hfind] at hboundary
        obtain rfl := Except.ok.inj hboundary
        simp only [bind, Except.bind, hid]
        rfl

/-- Every handler that moves money decides as `Request.asks` does on one state. -/
theorem moveMoney_decides (hs : CallsInv A s) (hnone : ∀ args, (i, args) ∉ s.called) :
    (A.handler i (.moveMoney r)).wp (callsProtocol A i) (fun _ _ => True)
      (askedPost A i r s) s := by
  obtain ⟨user, header, route⟩ := r
  cases route with
  | createTransaction payload =>
      cases hreceive : receive header payload with
      | ok received =>
          simp only [Api.handler, hreceive]
          exact createTransaction_decides hreceive hs hnone
      | error e =>
          simp only [Api.handler, hreceive]
          refine fun t hst _ => turnedDown_of_now ((callsProtocol A i).rely_refl s) hst ?_
          simp only [Request.asks, hreceive, bind, Except.bind]
  | fundAccount payload =>
      cases hreceive : receive header payload with
      | ok received =>
          simp only [Api.handler, hreceive]
          exact fundAccount_decides hreceive hs hnone
      | error e =>
          simp only [Api.handler, hreceive]
          refine fun t hst _ => turnedDown_of_now ((callsProtocol A i).rely_refl s) hst ?_
          simp only [Request.asks, hreceive, bind, Except.bind]

end Handlers

/-! ### Calls -/

/-- A response as the service gives it. -/
def Response.answer : Response → Except ErrorEnvelope ServiceResponse
  | .created body => .ok (.transaction body)
  | .error e => .error e.envelope

/-- `x` is what a request is answered on the state `d`, with an id and a time of its own if
there is a transaction. -/
def Request.AnsweredOn [ServerSum] (r : Request) (d : Database)
    (x : Except ErrorEnvelope ServiceResponse) : Prop :=
  ∃ response : Response, response.anonymous = respond d r ∧ x = response.answer

theorem answeredOn_of_error [ServerSum] {r : Request} {d : Database} {e : ErrorResponse}
    (h : respond d r = .error e) : r.AnsweredOn d (.error e.envelope) := ⟨.error e, h.symm, rfl⟩

section Calls

variable {ν : Type} [ServerSum] [DecidableEq ν] {D : Deployment ν} {st₀ st : LedgerState ν}
  {i : ν} {args : TransferArgs} {r : Request} {x : Except Raised Reply}

/-- Somebody else is in the way of call `i`: another call holds what it is about to lock, or it
has been written since its snapshot. -/
def Hindered (st : LedgerState ν) (i : ν) : Prop :=
  ∃ n a w p, st.phase i = .running n a ∧ a.rest = .write w p ∧ ∃ k ∈ DbWrite.footprint w,
    (∃ j, j ≠ i ∧ ∃ m b, st.phase j = .running m b ∧ k ∈ b.held) ∨
      ∃ c ∈ st.log.drop a.start, c.author ≠ some i ∧ k ∈ c.footprint

theorem hindered_of_conflict (h : Reachable D.system st) {n : Nat}
    {a : Attempt Database DbWrite ObjectId Raised Reply} {w : DbWrite} {p : LedgerTx Reply}
    (hp : st.phase i = .running n a) (hw : a.rest = .write w p)
    (hheld : ¬ st.Free i a.start w) : Hindered st i := by
  by_contra hnone
  refine hheld ⟨fun j hj m b hb k hk hkb => ?_, fun c hc k hk hkc => ?_⟩
  · exact hnone ⟨n, a, w, p, hp, hw, k, hk, .inl ⟨j, hj, m, b, hb, hkb⟩⟩
  · refine hnone ⟨n, a, w, p, hp, hw, k, hk, .inr ⟨c, hc, fun hauthor => ?_, hkc⟩⟩
    -- a commit of its own would be older than the attempt
    obtain ⟨l, hl⟩ := List.mem_iff_getElem?.mp hc
    rw [List.getElem?_drop] at hl
    rcases (h.settled hl hauthor).settled with ⟨_, _, hphase, -⟩ | ⟨-, hacc⟩
    · cases hp.symm.trans hphase
    · have := hacc.running _ _ hp
      omega

/-- A call that nobody gets in the way of is unhindered, if nothing fails. -/
theorem hindered_or_unhindered (hfaulty : ¬ D.faulty) (hlossy : ¬ D.lossy)
    (h₀ : Reachable D.system st₀) (hidle : st₀.phase i = .idle) (h : Steps D.system st₀ st) :
    Unhindered (st.phase i) ∨
      ∃ st₁, Steps D.system st₀ st₁ ∧ Steps D.system st₁ st ∧ Hindered st₁ i := by
  induction h with
  | refl =>
      rw [hidle]
      exact .inl .idle
  | @tail st st' h hstep ih =>
      rcases ih with hunhindered | ⟨st₁, hbefore, hafter, hhindered⟩
      · by_cases hhindered : Hindered st i
        · exact .inr ⟨st, h, .single hstep, hhindered⟩
        · refine .inl (hunhindered.step hfaulty hlossy (Steps.trans h₀ h)
            (fun n a w p hp hw => ?_) hstep)
          by_contra hheld
          exact hhindered (hindered_of_conflict (Steps.trans h₀ h) hp hw hheld)
      · exact .inr ⟨st₁, hbefore, hafter.tail hstep, hhindered⟩

/-- How a call that was made in `st₀` fails when the failure says nothing about the ledger:
somebody else was in its way, or this is a deployment whose server or network may fail. -/
inductive GivenUp (D : Deployment ν) (st₀ st : LedgerState ν) (i : ν) (args : TransferArgs) :
    Raised → Prop
  | conflict {st₁ : LedgerState ν} (attempts : Nat) : Steps D.system st₀ st₁ →
      Steps D.system st₁ st → Hindered st₁ i →
      GivenUp D st₀ st i args (.ledgerlock (.writeConflict args.sourceAccountId attempts))
  | fault {f : Failure Raised} (attempts : Nat) : D.faulty ∨ D.lossy →
      f = .transient ∨ f = .driver → GivenUp D st₀ st i args (createTransferRaises args attempts f)

theorem GivenUp.since {st₀' : LedgerState ν} {e : Raised} (h : GivenUp D st₀ st i args e)
    (h₀ : Steps D.system st₀' st₀) : GivenUp D st₀' st i args e := by
  cases h with
  | conflict attempts hbefore hafter hhindered =>
      exact .conflict attempts (Steps.trans h₀ hbefore) hafter hhindered
  | fault attempts hfails hf => exact .fault attempts hfails hf

/-- A call that is given up for a conflict has had one. -/
theorem givenUp_of_transient (h₀ : Reachable D.system st₀) (hidle : st₀.phase i = .idle)
    (h : Steps D.system st₀ st) {n : Nat} (hphase : st.phase i = .returned n (.error .transient)) :
    GivenUp D st₀ st i args (createTransferRaises args n .transient) := by
  by_cases hfails : D.faulty ∨ D.lossy
  · exact .fault n hfails (.inl rfl)
  · obtain ⟨hfaulty, hlossy⟩ := not_or.mp hfails
    rcases hindered_or_unhindered hfaulty hlossy h₀ hidle h with
      hunhindered | ⟨st₁, hbefore, hafter, hhindered⟩
    · rw [hphase] at hunhindered
      obtain ⟨-, ⟨_, hok⟩ | ⟨_, hraised, -⟩⟩ := hunhindered.own
      · cases hok
      · cases hraised
    · exact .conflict n hbefore hafter hhindered

/-- A call that a request keeps asking for ends as the request is answered on one of the
states there have been since, or it is given up. -/
theorem decided_of_steps (h₀ : Reachable D.system st₀) (hidle : st₀.phase i = .idle)
    (h : Steps D.system st₀ st) (hcall : D.calls i = .createTransfer args)
    (hcurrency : isCurrencyCode args.currency = true)
    (hasks : ∀ n, st₀.log.length ≤ n → r.asks (replay D.opening (st.log.take n)) = .ok args)
    (hend : D.Ends st i x) :
    (∃ n, st₀.log.length ≤ n ∧ n ≤ st.log.length ∧
        r.AnsweredOn (replay D.opening (st.log.take n)) (callResponse x)) ∨
      ∃ e, x = .error e ∧ GivenUp D st₀ st i args e := by
  obtain ⟨attempts, outcome, hphase, rfl⟩ := hend
  have hst : Reachable D.system st := Steps.trans h₀ h
  have hsystem : D.system.call i = (LedgerCall.createTransfer args).toCall :=
    congrArg LedgerCall.toCall hcall
  have hwp := (LedgerCall.createTransfer args).body_wp
  rw [hcall]
  cases (h.accounted h₀.sound (.inl hidle)).returned attempts outcome hphase with
  | @committed k result hadm hm hk hauthor hprog =>
      rw [hsystem] at hadm hprog
      obtain ⟨written, rfl, source, stamp, hjudge, -, -, -, rfl⟩ := hprog.wp_done (hwp _ _)
      have hdistinct := LedgerCall.admission_eq_none.mp hadm
      have hn : k.start ≤ st.log.length := by
        obtain ⟨j, hj⟩ := List.mem_iff_getElem?.mp hk
        cases hst.history.follows hj with
        | txn _ _ hle => exact hle.trans (List.length_take_le' _ _)
        | direct => cases hauthor
      have hanswers : Answers _ r _ _ _ := .created (x := stamp) (hasks _ hm) hdistinct hjudge
      refine .inl ⟨_, hm, hn, _, hanswers.respond_eq, ?_⟩
      exact Service.respondWith_eq_ok.mpr
        ⟨_, validated_eq_ok.mpr ⟨if_pos hcurrency, rfl⟩, rfl⟩
  | @rejected n f hm hn hrej =>
      have hrespond := hasks n hm
      refine .inl ⟨n, hm, hn, ?_⟩
      rcases rejected_transfer hcall (hst.history.take n) hrej with
        ⟨hsame, rfl⟩ | ⟨hdistinct, ⟨e, hjudge, rfl⟩ | ⟨hkey, rfl⟩⟩
      · refine answeredOn_of_error ?_
        rw [respond, hrespond]
        exact if_pos hsame
      · refine answeredOn_of_error ?_
        rw [respond, hrespond]
        simp only [if_neg hdistinct, hjudge]
        rfl
      · -- how the key was noticed is not told
        obtain ⟨id, hjudge⟩ := judge_of_repeated hkey
        refine answeredOn_of_error ?_
        rw [respond, hrespond]
        simp only [if_neg hdistinct, hjudge]
        rfl
  | conflict => exact .inr ⟨_, rfl, givenUp_of_transient h₀ hidle h hphase⟩
  | invalid _ _ hprog hrefused =>
      -- the validator has nothing against what the models have let through
      rw [hsystem] at hprog
      have hintends : Intends _ args _ _ _ := hprog.wp_write (hwp _ _)
      exact absurd hintends.accepted (ne_true_of_eq_false hrefused)
  | fault hfaulty hf => exact .inr ⟨_, rfl, .fault attempts (.inl hfaulty) hf⟩
  | lost hlossy _ _ _ _ _ hf => exact .inr ⟨_, rfl, .fault attempts (.inr hlossy) hf⟩

end Calls

/-! ### The service -/

/-- What is found before the caller is looked at is found on any state. -/
theorem asks_of_refusal {header : Option String} {route : Route} {e : ErrorResponse}
    (h : (Endpoint.moveMoney header route).refusal = some e) (user : ObjectId) (d : Database) :
    (⟨user, header, route⟩ : Request).asks d = .error e := by
  have hreceive {α : Type} {payload : Payload α} (h : refusedEarly header payload = some e) :
      receive header payload = .error e := by
    cases payload with
    | unparsable => exact congrArg Except.error (Option.some.inj h)
    | invalid | valid =>
        cases hkey : requireIdempotencyKey header with
        | error error =>
            simp only [refusedEarly, hkey, Option.some.injEq] at h
            simp only [receive, hkey, ← h]
            rfl
        | ok key => simp [refusedEarly, hkey] at h
  cases route with
  | createTransaction payload | fundAccount payload =>
      simp only [Request.asks, hreceive h, bind, Except.bind]

namespace Service

variable {ν : Type} [ServerSum] [DecidableEq ν] {S : Service ν} [Bcrypt] {c d : ServiceConfig ν}
  {l : List (Option ν)} {i : ν} {token : AccessToken} {header : Option String} {route : Route}

omit [Bcrypt] in
/-- The others leave the calls of a request alone. -/
theorem calls_kept {b b' : Config ν (ApiState ν) AccountStamp ErrorResponse Api.Handled}
    (h : S.api.Reached b) {m : Option ν} (hstep : Step S.api.env m b b') (hm : m ≠ some i) :
    CallsRely S.api i b.shared b'.shared := by
  obtain ⟨l, hrun⟩ := h
  cases hstep with
  | @act _ j f k x hp hx =>
      have hevery := hrun.every (S.api.handler_actions j)
      rw [hp] at hevery
      exact hevery.1.calls (fun hji => hm (congrArg some hji)) hx
  | env hmoves => exact hmoves.calls

/-- The handler of a request that is still to come is still to come. -/
theorem Waiting.handler (h : S.Waiting c i) : ∃ now g q a b, S.Parts now c g q a b ∧
    b.prog i = S.api.start.prog i := by
  obtain ⟨now, g, q, a, b, hparts, -, hbody⟩ := h.parts
  refine ⟨now, g, q, a, b, hparts, ?_⟩
  by_cases hi : i ∈ S.apiReaders
  · exact hparts.api_idle i hi
  · rw [hparts.api_prog i hi, S.bodyOf_of_notMem hi] at hbody
    exact Prog.rename_injective (fun _ _ h => BodyResult.handled.inj h)
      ErrorResponse.envelope_injective hbody

/-- A request that is still to come has called nothing. -/
theorem Waiting.not_called (h : S.Waiting c i) (args : TransferArgs) :
    (i, args) ∉ c.shared.2.called := by
  obtain ⟨now, g, q, a, b, hparts, hhandler⟩ := h.handler
  intro hcalled
  obtain ⟨hdone, -⟩ := called_asked hparts.api (hparts.ledger ▸ hcalled)
  exact S.api.handler_ne_done i _ _ (hhandler.symm.trans hdone)

/-- The handler of a request that is still to come decides as `Request.asks` does on one state
there is from then on. -/
theorem Parts.asked {now : Instant} {g : Config ν AuthStore AuthInput AuthError Admission}
    {q : Config ν (ApiState ν) AccountStamp ErrorEnvelope BodyResult}
    {a : Config ν AuthStore AuthInput AuthError AuthResponse}
    {b b' : Config ν (ApiState ν) AccountStamp ErrorResponse Api.Handled} {r : Request}
    (h : S.Parts now c g q a b) (hwaiting : S.Waiting c i)
    (hhandler : b.prog i = S.api.start.prog i) (hi : S.api.requests i = .moveMoney r)
    (hrun : Run S.api.env b l b') :
    (b'.prog i).wp (callsProtocol S.api i) (fun _ _ => True) (askedPost S.api i r c.shared.2)
      b'.shared := by
  obtain ⟨l₀, hb⟩ := h.api
  refine hrun.wp_of_keeps (fun l e he => (Api.Reached.inv ⟨_, hb.trans he⟩).calls)
    (fun l e m e' he hstep hm => calls_kept ⟨_, hb.trans he⟩ hstep hm) ?_
  rw [hhandler, h.ledger]
  show (S.api.handler i (S.api.requests i)).wp _ _ _ _
  rw [hi]
  exact moveMoney_decides h.apiInv.calls hwaiting.not_called

/-- What a request that moves money is answered, in any company: the caller is turned away, or
the answer is that of one moment while they wait, or the call is given up. -/
theorem Waiting.decided (h : S.Waiting c i)
    (hi : S.requests i = .authenticated (.bearer token) (.moveMoney header route))
    (hrun : Run S.env c l d) {r : Except ErrorEnvelope ServiceResponse} (hr : S.Responds d i r) :
    (∃ e : AuthError, r = .error e.envelope) ∨
      (S.refusal i = none → S.Vouched d i token) ∧
      ((∃ n, c.shared.2.ledger.log.length ≤ n ∧ n ≤ d.shared.2.ledger.log.length ∧
          (⟨token.sub, header, route⟩ : Request).AnsweredOn (S.api.dbAfter d.shared.2 n) r) ∨
        ∃ args e, Asks (.moveMoney ⟨token.sub, header, route⟩) args ∧
          GivenUp S.api.deployment c.shared.2.ledger d.shared.2.ledger (i, args) args e ∧
          r = .error e.response.envelope) := by
  obtain ⟨now, g, q, a, b, hparts, hhandler⟩ := h.handler
  obtain ⟨-, g', -, q', -, a', l', b', hparts', -, -, -, hapi, -⟩ := hparts.extend hrun
  have hinv := hparts'.apiInv
  have hrequest : S.api.requests i = .moveMoney ⟨token.sub, header, route⟩ := by
    show write (S.requests i) = _
    rw [hi]
    rfl
  have hasked := hparts.asked h hhandler hrequest hapi
  have hnow := (callsProtocol S.api i).rely_refl b'.shared
  obtain hdenied | hvouched :=
    (h.reached.run hrun).vouched_of_responds hi (by simp) (by simp) hr
  · exact .inl hdenied
  cases hparts'.writeAnswer (fun hreader => (hreader token).2 header route hi) hr with
  | @refused e hrefused =>
      refine .inr ⟨hvouched, .inl ⟨_, le_rfl, (h.reached.log_grows hrun).length_le, ?_⟩⟩
      rw [refusal, hi] at hrefused
      cases hearly : (Endpoint.moveMoney header route).refusal with
      | none => simp [ServiceRequest.refusal, hearly, Credentials.refusal] at hrefused
      | some e' =>
          obtain rfl : e'.envelope = e := by
            simpa [ServiceRequest.refusal, hearly] using hrefused
          refine answeredOn_of_error ?_
          rw [respond, asks_of_refusal hearly]
  | denied => exact .inl ⟨_, rfl⟩
  | @rejected e _ hraise =>
      rw [hraise] at hasked
      obtain ⟨n, hn, hn', hasks⟩ := hasked _ hnow hparts'.api.inv.calls
      rw [hparts'.ledger] at hn' hasks
      refine .inr ⟨hvouched, .inl ⟨n, hn, hn', answeredOn_of_error ?_⟩⟩
      rw [respond, hasks]
  | created _ hdone =>
      rw [hdone] at hasked
      obtain ⟨_, hargs, -⟩ := hasked _ hnow hparts'.api.inv.calls
      cases hargs
  | @returned args x _ hdone hends =>
      rw [hdone] at hasked
      obtain ⟨_, hargs, st, hbefore, hafter, hidle, hasks⟩ := hasked _ hnow hparts'.api.inv.calls
      obtain rfl := Api.Handled.called.inj hargs
      rw [hparts'.ledger] at hafter hends
      obtain ⟨l₀, hb⟩ := hparts'.api
      obtain ⟨-, hword⟩ := called_asked hparts'.api (called_of_done hb hdone)
      rw [hrequest] at hword
      -- it goes on asking
      have hagain (m : Nat) (hm : st.log.length ≤ m) :
          (⟨token.sub, header, route⟩ : Request).asks (S.api.dbAfter d.shared.2 m) = .ok args := by
        obtain ⟨journal, hjournal⟩ := hinv.represents m
        refine (Database.grows_of_prefix _ ?_).asks hjournal.keys hasks
        exact List.prefix_take_iff.mpr ⟨hafter.log_grows, hm⟩
      refine .inr ⟨hvouched, ?_⟩
      rcases decided_of_steps (Steps.trans h.reached.apiInv.reachable hbefore) hidle hafter rfl
        hword.isCurrencyCode hagain hends with ⟨m, hm, hm', hanswered⟩ | ⟨e, rfl, he⟩
      · exact .inl ⟨m, hbefore.log_grows.length_le.trans hm, hm', hanswered⟩
      · exact .inr ⟨args, e, hword, he.since hbefore, rfl⟩

end Service

end Ledgerlock
