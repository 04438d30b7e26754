import Ledgerlock.Api
import Ledgerlock.Mvcc.Authors
import Ledgerlock.Spec.Outcome

/-!
# Ledgerlock.Spec.Authorised

Every call of `create_transfer` that the API makes is one its caller may make.

A handler checks its caller against what it reads outside any transaction, so what it
has checked must still hold when the transfer is written. It does, because nothing ever
changes the owner or the type of an account (`Database.holder`): a call that was
`Authorised` when it was made stays so, and `ApiInv` says it of every call there is.
-/

namespace Ledgerlock

open Interleave (Config Prog Protocol Run)
open Mvcc

/-! ### Authorised calls -/

/-- A call of `create_transfer` that the database authorises a request to make: a
transfer from an account of the user's own, or a funding of one. -/
inductive Authorised (d : Database) : ApiRequest → TransferArgs → Prop
  | transfer {user : ObjectId} {header : Option String} {payload : TransferCreateRequest}
      {args : TransferArgs} {source : Holder} : args.kind = .transfer →
      args.submittedBy = some user → args.destinationAccountId = payload.destinationAccountId →
      d.holder args.sourceAccountId = some source → source.ownerId = some user →
      Authorised d (.moveMoney ⟨user, header, .createTransaction (.valid payload)⟩) args
  | funding {user : ObjectId} {header : Option String}
      {payload : ObjectId × FundingCreateRequest} {args : TransferArgs}
      {boundary destination : Holder} : args.kind = .funding → args.submittedBy = some user →
      d.holder args.sourceAccountId = some boundary → boundary.accountType = .system →
      d.holder args.destinationAccountId = some destination → destination.ownerId = some user →
      Authorised d (.moveMoney ⟨user, header, .fundAccount (.valid payload)⟩) args

/-- An authorisation does not lapse. -/
theorem Authorised.later {d d' : Database} {r : ApiRequest} {args : TransferArgs}
    (h : Authorised d r args) (hd : ∀ id u, d.holder id = some u → d'.holder id = some u) :
    Authorised d' r args := by
  cases h with
  | transfer hkind hsubmitted hpayload hsource howner =>
      exact .transfer hkind hsubmitted hpayload (hd _ _ hsource) howner
  | funding hkind hsubmitted hsource htype hdestination howner =>
      exact .funding hkind hsubmitted (hd _ _ hsource) htype (hd _ _ hdestination) howner

theorem Authorised.submitted {d : Database} {r : ApiRequest} {args : TransferArgs}
    (h : Authorised d r args) : args.submittedBy = some r.user := by
  cases h with
  | transfer _ hsubmitted => exact hsubmitted
  | funding _ hsubmitted => exact hsubmitted

/-- A funding goes to an account of the user's own. -/
theorem Authorised.funded {d : Database} {r : ApiRequest} {args : TransferArgs}
    (h : Authorised d r args) (hkind : args.kind = .funding) :
    ∃ destination, d.holder args.destinationAccountId = some destination ∧
      destination.ownerId = some r.user := by
  cases h with
  | transfer hkind' => exact absurd (hkind.symm.trans hkind') (by decide)
  | funding _ _ _ _ hdestination howner => exact ⟨_, hdestination, howner⟩

theorem receive_eq_ok {α : Type} {header : Option String} {payload : Payload α} {key : String}
    {a : α} (h : receive header payload = .ok (key, a)) : payload = .valid a := by
  cases payload with
  | unparsable statusCode message => cases h
  | invalid problems =>
      obtain ⟨_, -, h⟩ := bind_eq_ok.mp h
      cases h
  | valid payload =>
      obtain ⟨_, -, h⟩ := bind_eq_ok.mp h
      obtain ⟨-, rfl⟩ := Prod.mk.inj (Except.ok.inj h)
      rfl

/-- A new account leaves the others what they are. -/
theorem holder_of_insert {d : Database} {a : Account} {id : ObjectId} {u : Holder}
    (h : (d.write (.insertAccount a)).holder id = some u) :
    d.holder id = some u ∨ a.id = id ∧ a.holder = u := by
  rw [Database.holder_insertAccount] at h
  cases hid : d.holder id with
  | some v =>
      rw [hid, Option.some_or] at h
      exact .inl h
  | none =>
      rw [hid, Option.none_or] at h
      split at h
      · rename_i ha
        exact .inr ⟨ha, Option.some.inj h⟩
      · cases h

theorem createAccount_eq_ok {user insertedId : ObjectId} {currency label : String}
    {createdAt updatedAt : Timestamp} {w : DbWrite}
    (h : createAccount user currency label createdAt updatedAt insertedId = .ok w) :
    ∃ a, w = .insertAccount a ∧ a.id = insertedId ∧ a.accountType = .user := by
  obtain ⟨account, haccount, hw⟩ := bind_eq_ok.mp h
  obtain rfl := Except.ok.inj hw
  obtain ⟨-, rfl⟩ := validated_eq_ok.mp haccount
  exact ⟨_, rfl, rfl, rfl⟩

variable {ν : Type} [ServerSum] [DecidableEq ν] {A : Api ν} {s t : ApiState ν}

/-! ### The invariant -/

/-- What holds in every state that requests come to. -/
structure ApiInv (A : Api ν) (s : ApiState ν) : Prop where
  reachable : Reachable A.deployment.system s.ledger
  begun : ∀ c, s.ledger.phase c ≠ .idle → c ∈ s.called
  authors : ∀ k ∈ s.ledger.log, ∀ c, k.author = some c → c ∈ s.called
  authorised : ∀ i args, (i, args) ∈ s.called → Authorised (A.db s) (A.requests i) args
  boundaries : ∀ id u, (A.db s).holder id = some u → u.accountType = .system →
    u.ownerId = none ∧ id ∈ s.provisioned

/-- The accounts there are stay what they are. -/
def ApiRely (A : Api ν) (s t : ApiState ν) : Prop :=
  ∀ id u, (A.db s).holder id = some u → (A.db t).holder id = some u

theorem ApiInv.keys (h : ApiInv A s) : (A.db s).keys.Nodup := by
  obtain ⟨journal, hjournal⟩ := A.deployment.represents h.reachable
  exact hjournal.keys

/-- An account is found with its holder. -/
theorem ApiInv.holder (h : ApiInv A s) {a : Account} (ha : a ∈ (A.db s).accounts) :
    (A.db s).holder a.id = some a.holder :=
  (Database.holder_iff h.keys).mpr ⟨a, ha, rfl, rfl⟩

/-- A step of a call, or of an operator, opens no account. -/
theorem ledger_holder {st : LedgerState (TransferCall ν)} (h : ApiInv A s)
    (hstep : Step A.deployment.system s.ledger st)
    (hdirect : ∀ c ∈ st.log.drop s.ledger.log.length, c.author = none →
      ∃ id status, c.writes = [.setStatus id status]) (id : ObjectId) :
    (A.deployment.db st).holder id = (A.db s).holder id := by
  have hcommit {c : Commit (TransferCall ν) DbWrite ObjectId}
      (hlog : st.log = s.ledger.log ++ [c]) :
      (A.deployment.db st).holder id = (A.db s).holder id := by
    have hdb : A.deployment.db st = view (A.db s) c.writes := by
      rw [Deployment.db, State.db, hlog, replay_concat]
      rfl
    rw [hdb]
    have hfollows : Follows A.deployment.system s.ledger.log c := by
      have hhistory := Reachable.history (h.reachable.tail hstep)
      rw [hlog] at hhistory
      have hc := hhistory.follows (n := s.ledger.log.length) List.getElem?_concat_length
      rwa [List.take_left] at hc
    have hlast : c ∈ st.log.drop s.ledger.log.length := by
      rw [hlog, List.drop_left]
      exact List.mem_singleton.mpr rfl
    cases ledgerCommit_of_follows hfollows with
    | transfer => exact transferWrites_holder _ _ _ _ id
    | reconcile => rfl
    | accountWrite =>
        obtain ⟨id', status, hw⟩ := hdirect _ hlast rfl
        obtain rfl := (List.cons.inj hw).1
        exact Database.holder_write_eq (w := .setStatus id' status) (by simp) id
  cases hstep with
  | move => rfl
  | commit | commitLost => exact hcommit rfl
  | direct => exact hcommit rfl

/-- A direct write is the last commit. -/
theorem db_commitDirect (s : ApiState ν) (w : DbWrite) :
    A.deployment.db (s.ledger.commitDirect w) = (A.db s).write w := by
  show replay _ (s.ledger.log ++ [_]) = _
  rw [replay_concat]
  rfl

/-- The invariant survives the opening of an account that is no boundary, or is one
that `ensure_system_accounts` has opened. -/
theorem ApiInv.insert (h : ApiInv A s) {a : Account} {provisioned : List ObjectId}
    (hstep : Step A.deployment.system s.ledger (s.ledger.commitDirect (.insertAccount a)))
    (hsub : ∀ id ∈ s.provisioned, id ∈ provisioned)
    (ha : a.accountType = .system → a.ownerId = none ∧ a.id ∈ provisioned) :
    ApiInv A ⟨s.ledger.commitDirect (.insertAccount a), s.called, provisioned⟩ ∧
      ApiRely A s ⟨s.ledger.commitDirect (.insertAccount a), s.called, provisioned⟩ := by
  have hrely : ApiRely A s ⟨s.ledger.commitDirect (.insertAccount a), s.called, provisioned⟩ := by
    intro id u hu
    rw [Api.db, db_commitDirect]
    exact Database.holder_write _ hu
  refine ⟨⟨h.reachable.tail hstep, h.begun, fun k hk c hc => ?_, fun i args hcalled => ?_,
    fun id u hu htype => ?_⟩, hrely⟩
  · rcases List.mem_append.mp hk with hk | hk
    · exact h.authors k hk c hc
    · obtain rfl := List.mem_singleton.mp hk
      cases hc
  · exact (h.authorised i args hcalled).later hrely
  · rw [Api.db, db_commitDirect] at hu
    rcases holder_of_insert hu with hu | ⟨rfl, rfl⟩
    · obtain ⟨hnone, hmem⟩ := h.boundaries id u hu htype
      exact ⟨hnone, hsub id hmem⟩
    · exact ha htype

theorem Api.Moves.inv (h : ApiInv A s) (hm : A.Moves s t) : ApiInv A t ∧ ApiRely A s t := by
  cases hm with
  | @ledger st hstep hbegun hdirect =>
      have hholder := ledger_holder h hstep hdirect
      have hrely : ApiRely A s { s with ledger := st } := fun id u hu => (hholder id).trans hu
      refine ⟨⟨h.reachable.tail hstep, hbegun, fun k hk c hc => ?_, fun i args hcalled => ?_,
        fun id u hu => h.boundaries id u ((hholder id).symm.trans hu)⟩, hrely⟩
      · have hgrows : s.ledger.log <+: st.log := (Steps.single hstep).log_grows
        obtain ⟨later, hlog⟩ := hgrows
        rw [← hlog] at hk
        rcases List.mem_append.mp hk with hk | hk
        · exact h.authors k hk c hc
        · refine hbegun c (hstep.phase_of_author (c := k) ?_ hc)
          rw [← hlog, List.drop_left]
          exact hk
      · exact (h.authorised i args hcalled).later hrely
  | @provision d currency createdAt updatedAt id w hw hstep =>
      unfold ensureSystemAccount at hw
      split at hw
      · cases hw
      · obtain ⟨account, haccount, hw⟩ := bind_eq_ok.mp hw
        obtain rfl := Option.some.inj (Except.ok.inj hw)
        obtain ⟨-, rfl⟩ := validated_eq_ok.mp haccount
        exact h.insert hstep (fun _ hid => List.mem_cons_of_mem _ hid)
          fun _ => ⟨rfl, List.mem_cons_self⟩

/-- What the handlers keep up, and the world around them. -/
def apiProtocol (A : Api ν) : Protocol A.env where
  inv := ApiInv A
  rely := ApiRely A
  rely_refl _ _ _ h := h
  rely_trans _ _ _ h h' id u hu := h' id u (h id u hu)
  inv_moves _ _ h hm := (Api.Moves.inv h hm).1
  rely_moves _ _ h hm := (Api.Moves.inv h hm).2

/-! ### The handlers -/

/-- Nothing is asked of how a handler ends. -/
abbrev anyEnd {α : Type} : Interleave.Post (ApiState ν) ErrorResponse α :=
  ⟨fun _ _ => True, fun _ _ => True⟩

theorem lookup_wp {α β : Type} {q : Database → Except LedgerlockError α}
    {f : α → Api.Handler ν β} (hs : ApiInv A s)
    (h : ∀ t, ApiRely A s t → ApiInv A t → ∀ a, q (A.db t) = .ok a → ∀ u, ApiRely A t u →
      ApiInv A u → (f a).wp (apiProtocol A) (ApiRely A) anyEnd u) :
    (A.lookup q >>= f).wp (apiProtocol A) (ApiRely A) anyEnd s := by
  refine Prog.wp_bind hs fun t _ hst ht _ => ⟨fun _ _ hu => hu, ht, ?_⟩
  dsimp only
  split
  · rename_i a ha
    exact h t hst ht a ha
  · exact fun _ _ _ => trivial

/-- A call that is authorised may be made. -/
theorem callTransfer_wp {i : ν} {args : TransferArgs}
    (h : Authorised (A.db s) (A.requests i) args) :
    (Api.callTransfer i args).wp (apiProtocol A) (ApiRely A) anyEnd s := by
  intro t _ hst ht _
  refine ⟨fun _ _ hu => hu, ?_, fun _ _ _ => trivial⟩
  refine ⟨ht.reachable, fun c hc => List.mem_cons_of_mem _ (ht.begun c hc),
    fun k hk c hc => List.mem_cons_of_mem _ (ht.authors k hk c hc), fun j args' hcalled => ?_,
    ht.boundaries⟩
  rcases List.mem_cons.mp hcalled with hcalled | hcalled
  · obtain ⟨rfl, rfl⟩ := Prod.mk.inj hcalled
    exact h.later hst
  · exact ht.authorised j args' hcalled

/-- A USER account under an id that is not in use can be inserted. -/
theorem Api.Unused.step {a : Account} (h : A.Unused s a.id) (htype : a.accountType = .user)
    (hw : AccountWrite (.insertAccount a)) :
    Step A.deployment.system s.ledger (s.ledger.commitDirect (.insertAccount a)) := by
  have hkeys : (DbWrite.insertAccount a).newKeys = [.account a.id] := by
    simp [DbWrite.newKeys, Account.keys, htype]
  refine .direct hw (fun c n b hb k hk hheld => ?_) rfl (repeatsKey_eq_false.mpr fun k hk => ?_)
    fun x hx => ?_
  · have hk : k ∈ (DbWrite.insertAccount a).newKeys := hk
    obtain rfl : k = .account a.id := by simpa [hkeys] using hk
    exact h.held c n b hb hheld
  · obtain rfl : k = .account a.id := by simpa [hkeys] using hk
    exact h.key
  · obtain rfl : x = a.id := by simpa [DocStore.creates, DbWrite.creates] using hx
    exact h.issued

theorem insertAccount_wp (user : ObjectId) (currency label : String) :
    (Api.insertAccount user currency label).wp (apiProtocol A) (ApiRely A) anyEnd s := by
  intro t x hst ht hx
  cases hcreate : createAccount user currency label x.createdAt x.updatedAt x.insertedId with
  | error e =>
      simp only [hcreate]
      exact ⟨fun _ _ hu => hu, ht, fun _ _ _ => trivial⟩
  | ok w =>
      obtain ⟨a, rfl, hid, htype⟩ := createAccount_eq_ok hcreate
      simp only [hcreate]
      have hunused : A.Unused t a.id := hid ▸ hx
      have hstep := hunused.step htype (.create hcreate)
      obtain ⟨hinv, hrely⟩ := ht.insert hstep (fun _ hid => hid) fun hsystem =>
        absurd (htype.symm.trans hsystem) (by decide)
      exact ⟨hrely, hinv, fun _ _ _ => trivial⟩

theorem createTransaction_wp {i : ν} {user : ObjectId} {header : Option String}
    {payload : TransferCreateRequest} (key : String) (hs : ApiInv A s)
    (hi : A.requests i = .moveMoney ⟨user, header, .createTransaction (.valid payload)⟩) :
    (A.createTransaction i user key payload).wp (apiProtocol A) (ApiRely A) anyEnd s := by
  refine lookup_wp hs fun t _ _ source hsource u htu hu => ?_
  split
  · exact fun _ _ _ => trivial
  · rename_i howner
    have hsource := htu _ _
      (Database.holder_of_findAccount (Database.getAccountOrRaise_eq_ok.mp hsource))
    refine lookup_wp hu fun v huv hv _ _ w hvw hw => callTransfer_wp ?_
    rw [hi]
    exact .transfer rfl rfl rfl (hvw _ _ (huv _ _ hsource)) (not_not.mp howner)

theorem fundAccount_wp {i : ν} {user : ObjectId} {header : Option String} {accountId : ObjectId}
    {payload : FundingCreateRequest} (key : String) (hs : ApiInv A s)
    (hi : A.requests i = .moveMoney ⟨user, header, .fundAccount (.valid (accountId, payload))⟩) :
    (A.fundAccount i user key accountId payload).wp (apiProtocol A) (ApiRely A) anyEnd s := by
  refine lookup_wp hs fun t _ ht destination hdestination u htu hu => ?_
  obtain ⟨hmem, -, howner⟩ := Database.getOwnedAccountOrRaise_eq_ok hdestination
  have hdestination := htu _ _ (ht.holder hmem)
  refine lookup_wp hu fun v huv hv boundary hboundary w hvw _ => callTransfer_wp ?_
  split at hboundary
  · cases hboundary
  · rename_i found hfound
    obtain rfl := Except.ok.inj hboundary
    obtain ⟨hmem', htype, -⟩ := Database.getSystemAccount_eq_some hfound
    rw [hi]
    exact .funding rfl rfl (hvw _ _ (hv.holder hmem')) htype (hvw _ _ (huv _ _ hdestination))
      howner

/-- Every handler keeps up the protocol. -/
theorem handler_wp (i : ν) (hs : ApiInv A s) :
    (A.handler i (A.requests i)).wp (apiProtocol A) (ApiRely A) anyEnd s := by
  unfold Api.handler
  split
  · split
    · exact fun _ _ _ => trivial
    · unfold Api.createAccount
      split
      · exact fun _ _ _ => trivial
      · exact insertAccount_wp _ _ _
  · rename_i user header payload hi
    split
    · exact fun _ _ _ => trivial
    · rename_i key payload' hreceive
      obtain rfl := receive_eq_ok hreceive
      exact createTransaction_wp key hs hi
  · rename_i user header payload hi
    split
    · exact fun _ _ _ => trivial
    · rename_i key accountId payload' hreceive
      obtain rfl := receive_eq_ok hreceive
      exact fundAccount_wp key hs hi

/-! ### Every run -/

variable {c : Config ν (ApiState ν) AccountStamp ErrorResponse Api.Handled}

theorem ApiInv.start : ApiInv A A.start.shared where
  reachable := .refl _
  begun _ h := absurd rfl h
  authors _ h := nomatch h
  authorised _ _ h := nomatch h
  boundaries _ _ h := nomatch h

/-- The invariant holds in every state requests come to. -/
theorem Api.Reached.inv (h : A.Reached c) : ApiInv A c.shared := by
  obtain ⟨l, hrun⟩ := h
  have hstart : A.start.Sound (apiProtocol A) (fun _ => ApiRely A) fun _ => anyEnd :=
    ⟨ApiInv.start, fun i => handler_wp i ApiInv.start⟩
  exact (Run.sound (fun _ _ _ _ hG => hG) hstart hrun).1.inv

/-- The commits in the log of such a state that write anything to the journal are those of
calls it has been asked for. -/
theorem ApiInv.commit (h : ApiInv A s) {n : Nat} {k : Commit (TransferCall ν) DbWrite ObjectId}
    (hk : s.ledger.log[n]? = some k) :
    (∃ i args source x, k.author = some (i, args) ∧
      Authorised (A.db s) (A.requests i) args ∧ args.sourceAccountId ≠ args.destinationAccountId ∧
      0 < args.amountMinor ∧ k.writes = transferWrites source args x) ∨
    ∃ w, k.author = none ∧ AccountWrite w ∧ k.writes = [w] := by
  have hmem := List.mem_of_getElem? hk
  cases ledgerCommit_of_follows (h.reachable.history.follows hk) with
  | @transfer c args source x start hcall hdistinct hle _ hjudge =>
      obtain ⟨i, args'⟩ := c
      obtain rfl : args' = args := by simpa [Api.deployment] using hcall
      obtain ⟨destination, hacc⟩ := judge_eq_ok.mp hjudge
      have hcalled := h.authors _ hmem _ rfl
      exact .inl ⟨i, args', source, x, rfl, h.authorised i args' hcalled, hdistinct,
        hacc.amount_pos, rfl⟩
  | reconcile hcall => cases hcall
  | @accountWrite w st _ hop _ => exact .inr ⟨w, rfl, hop, rfl⟩

/-- Every entry is one of the pair of an authorised call, whose header is there too. -/
theorem ApiInv.entry (h : ApiInv A s) {e : LedgerEntry} (he : e ∈ (A.db s).ledgerEntries) :
    ∃ i args, ∃ x : Stamp, Authorised (A.db s) (A.requests i) args ∧
      x.header args ∈ (A.db s).transactions ∧ (e = x.debit args ∨ e = x.credit args) := by
  obtain he | ⟨k, hk, he⟩ := mem_ledgerEntries_replay.mp he
  · cases he
  obtain ⟨n, hn⟩ := List.mem_iff_getElem?.mp hk
  rcases h.commit hn with ⟨i, args, source, x, -, hauth, -, -, hw⟩ | ⟨w, -, hw, hws⟩
  · refine ⟨i, args, x, hauth, mem_transactions_replay.mpr (.inr ⟨k, hk, ?_⟩), ?_⟩
    · rw [hw]
      simp [transferWrites]
    · rw [hw] at he
      exact mem_transferWrites.mp he
  · rw [hws, List.mem_singleton] at he
    rcases hw.cases_write with ⟨a, rfl⟩ | ⟨id, status, rfl⟩ <;> cases he

end Ledgerlock
