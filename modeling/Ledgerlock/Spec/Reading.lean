import Ledgerlock.Spec.Delivery
import Ledgerlock.Spec.Audit
import Ledgerlock.Spec.Exactness
import Ledgerlock.Spec.Termination

/-!
# Ledgerlock.Spec.Reading

What readers see.

A handler that reads makes one query or two, each on what is committed at that moment, with
anything the writers do in between. What it has found stays there (`Database.Grows`), so
that its answer is the one of `ReadRoute.handle` on a single committed state, one no older
than the request (`Api.Seen`).
-/

namespace Ledgerlock

open Interleave (Config Post Prog Protocol Run)
open Mvcc

/-! ### What stays -/

theorem Database.getOwnedAccountOrRaise_of_mem {d : Database} (h : d.keys.Nodup)
    {a : Account} (ha : a ∈ d.accounts) {user : ObjectId} (howner : a.ownerId = some user) :
    d.getOwnedAccountOrRaise a.id user = .ok a := by
  have hfind : d.accounts.find? (fun b => b.id = a.id ∧ b.ownerId = some user) = some a :=
    find?_eq_some_of_nodup (Database.account_ids_nodup h) ha (by simp [howner])
      fun b hb => by simp_all
  rw [Database.getOwnedAccountOrRaise, hfind]

theorem Account.same_of_opened {a a' : Account} (h : a'.opened = a.opened) :
    a'.id = a.id ∧ a'.ownerId = a.ownerId ∧ a'.currency = a.currency ∧
      a'.toPublic = { a.toPublic with status := a'.status } := by
  refine ⟨congrArg (·.id) h, congrArg (·.ownerId) h, congrArg (·.currency) h, ?_⟩
  exact congrArg (fun b : Account => { b.toPublic with status := a'.status }) h

theorem Database.Grows.exists_account {d d' : Database} (h : d.Grows d') {a : Account}
    (ha : a ∈ d.accounts) : ∃ a' ∈ d'.accounts, a'.opened = a.opened :=
  List.mem_map.mp (h.accounts.subset (List.mem_map_of_mem ha))

/-- An account of a user stays theirs. -/
theorem Database.Grows.getOwnedAccountOrRaise {d d' : Database} (h : d.Grows d')
    (hkeys : d'.keys.Nodup) {accountId user : ObjectId} {document : Account}
    (hd : d.getOwnedAccountOrRaise accountId user = .ok document) :
    ∃ document', d'.getOwnedAccountOrRaise accountId user = .ok document' ∧
      document'.opened = document.opened := by
  obtain ⟨hmem, rfl, howner⟩ := Database.getOwnedAccountOrRaise_eq_ok hd
  obtain ⟨document', hmem', hsame⟩ := h.exists_account hmem
  refine ⟨document', ?_, hsame⟩
  obtain ⟨hid, howner', -⟩ := Account.same_of_opened hsame
  rw [← hid]
  exact getOwnedAccountOrRaise_of_mem hkeys hmem' (howner'.trans howner)

section Reads

variable {ν : Type} [ServerSum] [DecidableEq ν] {A : Api ν} {s t u : ApiState ν}

omit [ServerSum] [DecidableEq ν] in
theorem Api.dbAfter_of_prefix (h : s.ledger.log <+: t.ledger.log) {n : Nat}
    (hn : n ≤ s.ledger.log.length) : A.dbAfter t n = A.dbAfter s n := by
  obtain ⟨later, hlater⟩ := h
  rw [Api.dbAfter, Api.dbAfter, ← hlater, List.take_append_of_le_length hn]

theorem Api.inv_moves (A : Api ν) (s t : ApiState ν) (h : ApiInv A s) (hm : A.env.moves s t) :
    ApiInv A t := (Api.Moves.inv h hm).1

/-- The log only grows. -/
def readsProtocol (A : Api ν) : Protocol A.env where
  inv := ApiInv A
  rely s t := s.ledger.log <+: t.ledger.log
  rely_refl _ := List.prefix_rfl
  rely_trans _ _ _ h h' := h.trans h'
  inv_moves := A.inv_moves
  rely_moves _ _ _ hm := hm.log_grows

/-- What was there is there afterwards, and nothing that was not is. -/
theorem Api.grows_dbAfter (h : s.ledger.log <+: t.ledger.log) {n : Nat}
    (hn : s.ledger.log.length ≤ n) :
    (A.db s).Grows (A.dbAfter t n) ∧ (A.dbAfter t n).Grows (A.db t) := by
  refine ⟨Database.grows_of_prefix _ ?_, Database.grows_of_prefix _ (List.take_prefix n _)⟩
  exact List.prefix_take_iff.mpr ⟨h, hn⟩

theorem grows_of_rely (h : (readsProtocol A).rely s t) : (A.db s).Grows (A.db t) :=
  Database.grows_of_prefix _ h

/-! ### One moment -/

/-- What can be found out from one state of the ledger. -/
abbrev Look (ε α : Type) := Collections → AuthenticatedUser → Except ε α

/-- `x` is what `user` finds out from a state that was committed between `s` and `t`. -/
def Api.Seen {ε α : Type} (A : Api ν) (user : ObjectId) (look : Look ε α) (s t : ApiState ν)
    (x : Except ε α) : Prop :=
  ∃ n, s.ledger.log.length ≤ n ∧ n ≤ t.ledger.log.length ∧
    ∀ (c : Collections) (u : AuthenticatedUser),
      c.toDatabase = A.dbAfter t n → u.id = user → look c u = x

section Seen

variable {ε α : Type} {user : ObjectId} {look : Look ε α} {x : Except ε α}

omit [ServerSum] [DecidableEq ν] in
theorem Api.Seen.later (h : A.Seen user look s t x) (htu : t.ledger.log <+: u.ledger.log) :
    A.Seen user look s u x := by
  obtain ⟨n, hsn, hnt, hx⟩ := h
  refine ⟨n, hsn, hnt.trans htu.length_le, fun c v hc => hx c v ?_⟩
  rw [hc, Api.dbAfter_of_prefix htu hnt]

theorem Api.Seen.now (hst : s.ledger.log <+: t.ledger.log)
    (h : ∀ (c : Collections) (u : AuthenticatedUser), c.toDatabase = A.db t → u.id = user →
      look c u = x) : A.Seen user look s t x :=
  ⟨_, hst.length_le, le_rfl, fun c v hc => h c v (hc.trans (A.dbAfter_length t))⟩

omit [ServerSum] [DecidableEq ν] in
theorem Api.Seen.map {δ β : Type} {look' : Look δ β} {x' : Except δ β}
    (h : A.Seen user look s t x) (himp : ∀ c v, look c v = x → look' c v = x') :
    A.Seen user look' s t x' := by
  obtain ⟨n, hsn, hnt, hx⟩ := h
  exact ⟨n, hsn, hnt, fun c v hc hv => himp c v (hx c v hc hv)⟩

/-- What a look has seen are the collections of one moment. -/
theorem Api.Seen.exists_collections (h : A.Seen user look s t x) (ht : ApiInv A t) :
    ∃ n c u, s.ledger.log.length ≤ n ∧ n ≤ t.ledger.log.length ∧
      Collections.toDatabase c = A.dbAfter t n ∧ Healthy c.toDatabase ∧ u.id = user ∧
        look c u = x := by
  obtain ⟨n, hsn, hnt, hx⟩ := h
  obtain ⟨journal, hjournal⟩ := ht.represents n
  refine ⟨n, ⟨A.dbAfter t n, [], [], Database.account_ids_nodup hjournal.keys,
    Database.transaction_ids_nodup hjournal.keys⟩, ⟨user, "", "", 0⟩, hsn, hnt, rfl,
    hjournal.healthy, rfl, hx _ _ rfl rfl⟩

/-- The answer is what was seen. -/
def seenPost (A : Api ν) (user : ObjectId) (look : Look ε α) (s : ApiState ν) :
    Post (ApiState ν) ε α where
  done a t := A.Seen user look s t (.ok a)
  raise e t := A.Seen user look s t (.error e)

end Seen

theorem query_wp {α : Type} {q : Database → Except ReadError α} {Q : Post (ApiState ν) ReadError α}
    (h : ∀ t u, (readsProtocol A).rely s t → ApiInv A t → (readsProtocol A).rely t u →
      ApiInv A u → match q (A.db t) with
        | .ok a => Q.done a u
        | .error e => Q.raise e u) :
    (A.query q).wp (readsProtocol A) (fun _ _ => True) Q s := by
  intro t _ hst ht _
  refine ⟨trivial, ht, ?_⟩
  have hq := fun u => h t u hst ht
  show (Prog.ofExcept (q (A.db t)) : ReadProg ν α).wp _ _ _ _
  revert hq
  cases q (A.db t) with
  | ok a => exact id
  | error e => exact id

/-- The last query of a handler. -/
theorem seen_wp {α : Type} {q : Database → Except ReadError α} {user : ObjectId}
    {look : Look ReadError α} {s₀ : ApiState ν}
    (h : ∀ t, (readsProtocol A).rely s t → ApiInv A t → A.Seen user look s₀ t (q (A.db t))) :
    (A.query q).wp (readsProtocol A) (fun _ _ => True) (seenPost A user look s₀) s := by
  refine query_wp fun t u hst ht htu _ => ?_
  have hseen := (h t hst ht).later htu
  revert hseen
  cases q (A.db t) with
  | ok a => exact id
  | error e => exact id

variable {order : ServerSort} {computedAt : Timestamp} {user : ObjectId} {route : ReadRoute}

/-- `ReadRoute.handle` -/
def ReadRoute.look (order : ServerSort) (computedAt : Timestamp) (route : ReadRoute) :
    Look ReadError ReadBody :=
  fun c u => route.handle order c computedAt u

/-- The parameters come first. -/
theorem param_wp {α : Type} {y : Except String α} {f : α → ReadProg ν ReadBody}
    (herror : ∀ problems, y = .error problems → ∀ c u,
      route.look order computedAt c u = .error (.malformedRequest problems))
    (hok : ∀ a, y = .ok a → (f a).wp (readsProtocol A) (fun _ _ => True)
      (seenPost A user (route.look order computedAt) s) s) :
    ((Prog.ofExcept (y.mapError .malformedRequest) : ReadProg ν α) >>= f).wp (readsProtocol A)
      (fun _ _ => True) (seenPost A user (route.look order computedAt) s) s := by
  cases y with
  | error problems => exact fun t hst _ => .now hst fun c u _ _ => herror problems rfl c u
  | ok a => exact hok a rfl

/-- The handlers query by query, and on one state. -/
theorem ReadRoute.program_wp (order : ServerSort) (computedAt : Timestamp) (user : ObjectId)
    (route : ReadRoute) (hs : ApiInv A s) :
    (route.program A order computedAt user).wp (readsProtocol A) (fun _ _ => True)
      (seenPost A user (route.look order computedAt) s) s := by
  cases route with
  | listAccounts query =>
      refine param_wp (by rintro _ rfl _ _; rfl) ?_
      rintro query rfl
      refine seen_wp fun t hst _ => .now hst fun c u hc hu => ?_
      show ReadBody.accounts <$> Ledgerlock.listAccounts order c u query.limit query.offset = _
      rw [Ledgerlock.listAccounts, hc, hu]
      cases (A.db t).listAccountsForOwner order user query.limit query.offset with
      | error e => rfl
      | ok documents =>
          simp only [Except.mapError, bind, Except.bind]
          cases documents.mapM AccountPublic.fromDocument <;> rfl
  | readAccount accountId =>
      refine param_wp (by rintro _ rfl _ _; rfl) ?_
      rintro accountId rfl
      refine seen_wp fun t hst _ => .now hst fun c u hc hu => ?_
      show ReadBody.account <$> Ledgerlock.readAccount c u accountId = _
      rw [Ledgerlock.readAccount, hc, hu]
      cases (A.db t).getOwnedAccountOrRaise accountId user <;> rfl
  | readBalance accountId =>
      refine param_wp (by rintro _ rfl _ _; rfl) ?_
      rintro accountId rfl
      refine Prog.wp_bind hs (query_wp fun t u hst _ htu hu => ?_)
      cases hfind : (A.db t).getOwnedAccountOrRaise accountId user with
      | error e =>
          refine (Api.Seen.now hst fun c v hc hv => ?_).later htu
          show ReadBody.balance <$> Ledgerlock.readBalance c v computedAt accountId = _
          rw [Ledgerlock.readBalance, hc, hv, hfind]
          rfl
      | ok document =>
          -- the account is the same one later, but for its status and its counter
          refine seen_wp (q := fun d =>
            let balance := computeBalance d document.id
            ReadBody.balance <$>
              (balance.toResponse document.id document.currency computedAt).mapError
                .python) fun w huw hw => .now (hst.trans (htu.trans huw)) fun c v hc hv => ?_
          obtain ⟨document', hfind', hsame⟩ :=
            (grows_of_rely (htu.trans huw)).getOwnedAccountOrRaise hw.keys hfind
          obtain ⟨hid, -, hcurrency, -⟩ := Account.same_of_opened hsame
          show ReadBody.balance <$> Ledgerlock.readBalance c v computedAt accountId = _
          rw [Ledgerlock.readBalance, hc, hv, hfind', ← hid, ← hcurrency]
          rfl
  | readTransaction transactionId =>
      refine param_wp (by rintro _ rfl _ _; rfl) ?_
      rintro transactionId rfl
      refine Prog.wp_bind hs (query_wp fun t u hst _ htu hu => ?_)
      dsimp only [pure, Except.pure, Interleave.Post.andThen]
      cases hfind : (A.db t).getTransaction transactionId with
      | none =>
          refine fun v huv _ => (Api.Seen.now hst fun c w hc hw => ?_).later (htu.trans huv)
          show ReadBody.transaction <$> Ledgerlock.readTransaction order c w transactionId = _
          rw [Ledgerlock.readTransaction, hc, hfind]
          rfl
      | some document =>
          refine seen_wp fun w huw _ => .now (hst.trans (htu.trans huw)) fun c v hc hv => ?_
          have hmem : document ∈ c.transactions := by
            rw [hc]
            exact (grows_of_rely (htu.trans huw)).transactions.subset
              (List.mem_of_find?_eq_some hfind)
          have hid : document.id = transactionId := by simpa using List.find?_some hfind
          have hfind' : c.getTransaction transactionId = some document :=
            hid ▸ Collections.getTransaction_of_mem hmem
          show ReadBody.transaction <$> Ledgerlock.readTransaction order c v transactionId = _
          rw [Ledgerlock.readTransaction, hfind', hc, hv]
          cases (A.db w).listAccountsForOwner order user maxPageSize 0 with
          | error e => rfl
          | ok accounts =>
              simp only [Except.mapError, bind, Except.bind]
              split <;> rfl

end Reads

/-! ### The service -/

namespace Service

section Reads

variable {ν : Type} [ServerSum] [DecidableEq ν] {S : Service ν}

/-- The endpoints that read the ledger, and what they answer on one state of it. -/
def view (S : Service ν) (i : ν) : Endpoint → Option (Look ErrorEnvelope ServiceResponse)
  | .read route => some fun c u =>
      ((route.handle (S.order i) c (S.clock i) u).map .read).mapError ReadError.envelope
  | .readReconciliation => some fun c _ => .ok (.report (c.report (S.clock i)))
  | _ => none

/-- What is seen is what is answered. -/
def viewPost (A : Api ν) (user : ObjectId) (look : Look ErrorEnvelope ServiceResponse)
    (s : ApiState ν) : Post (ApiState ν) ErrorEnvelope BodyResult where
  done result t := ∃ response, (∀ admission, result.response admission = some (.ok response)) ∧
    A.Seen user look s t (.ok response)
  raise e t := A.Seen user look s t (.error e)

theorem handle_wp {i : ν} {endpoint : Endpoint} {look : Look ErrorEnvelope ServiceResponse}
    (hlook : S.view i endpoint = some look) (user : ObjectId) {s : ApiState ν}
    (hs : ApiInv S.api s) : (S.handle i user endpoint).wp (readsProtocol S.api)
      (fun _ _ => True) (viewPost S.api user look s) s := by
  cases endpoint with
  | logout | readCurrentUser | createAccount | moveMoney => cases hlook
  | read route =>
      obtain rfl := Option.some.inj hlook
      refine Prog.wp_rename (Prog.wp_mono (route.program_wp (S.order i) (S.clock i) user hs)
        (fun body t _ hseen => ⟨.read body, fun _ => rfl, hseen.map fun c u hx => ?_⟩)
        fun e t _ hseen => hseen.map fun c u hx => ?_)
      · show ((route.look _ _ c u).map _).mapError _ = _
        rw [hx]
        rfl
      · show ((route.look _ _ c u).map _).mapError _ = _
        rw [hx]
        rfl
  | readReconciliation =>
      obtain rfl := Option.some.inj hlook
      refine Prog.wp_rename (query_wp fun t u hst ht htu _ => ?_)
      refine ⟨_, fun _ => rfl, (Api.Seen.now hst fun c v hc _ => ?_).later htu⟩
      rw [← hc]

variable [Bcrypt] {c d : ServiceConfig ν} {l : List (Option ν)} {i : ν} {token : AccessToken}
  {endpoint : Endpoint} {look : Look ErrorEnvelope ServiceResponse}

omit [Bcrypt] in
/-- The bodies leave the ledger as the handlers that write do. -/
theorem bodies_inv {q : Config ν (ApiState ν) AccountStamp ErrorEnvelope BodyResult}
    (h : Run S.api.env ⟨S.api.start.shared, S.bodyOf⟩ l q) : ApiInv S.api q.shared := by
  obtain ⟨l', b, hapi, hshared, -⟩ := h.writers (b := S.api.start) rfl
    (fun i hi => S.bodyOf_readOnly hi) fun i hi => S.bodyOf_of_notMem hi
  rw [← hshared]
  exact Api.Reached.inv ⟨l', hapi⟩

omit [DecidableEq ν] [Bcrypt] in
/-- Whoever comes with a token is looked at. -/
theorem refusal_of_view (hlook : S.view i endpoint = some look)
    (hi : S.requests i = .authenticated (.bearer token) endpoint) :
    S.refusal i = none := by
  rw [refusal, hi]
  cases endpoint with
  | logout | readCurrentUser | createAccount | moveMoney => cases hlook
  | read | readReconciliation => rfl

/-- What a request that reads is answered, in any company: the caller is turned away, or they
are who they say and see the ledger as it is at one moment while they wait. -/
theorem Waiting.seen (h : S.Waiting c i)
    (hi : S.requests i = .authenticated (.bearer token) endpoint)
    (hlook : S.view i endpoint = some look) (hrun : Run S.env c l d)
    {r : Except ErrorEnvelope ServiceResponse} (hr : S.Responds d i r) :
    (∃ e : AuthError, r = .error e.envelope) ∨
      S.Vouched d i token ∧ S.api.Seen token.sub look c.shared.2 d.shared.2 r := by
  obtain ⟨now, g, q, a, b, hparts, -, hwaiting⟩ := h.parts
  obtain ⟨-, g', l₂, q', -, a', -, b', hparts', -, hbodies', -, -, -⟩ := hparts.extend hrun
  obtain ⟨l₁, hbodies⟩ := hparts.bodies
  have hstage := hparts'.splits.stage i
  have hresult := hparts'.splits.result i
  have hnone := refusal_of_view hlook hi
  -- the body
  have hbody : S.bodyOf i = S.handle i token.sub endpoint := by rw [bodyOf, hi]
  have hwp : (q'.prog i).wp (readsProtocol S.api) (fun _ _ => True)
      (viewPost S.api token.sub look q.shared) q'.shared := by
    refine hbodies'.wp_of_keeps (fun l e he => bodies_inv (hbodies.trans he))
      (fun l e m e' he hstep _ => bodies_log_grows (hbodies.trans he) (.concat .nil hstep)) ?_
    rw [hwaiting, hbody]
    exact handle_wp hlook _ (bodies_inv hbodies)
  have hinv : ApiInv S.api q'.shared := bodies_inv (hbodies.trans hbodies')
  have hnow := (readsProtocol S.api).rely_refl q'.shared
  rw [hparts.splits.shared, hparts'.splits.shared]
  -- the guard
  have hout : endpoint ≠ .logout ∧ endpoint ≠ .readCurrentUser := by
    constructor <;> rintro rfl <;> cases hlook
  obtain hdenied | hvouched :=
    (h.reached.run hrun).vouched_of_responds hi hout.1 hout.2 hr
  · exact .inl hdenied
  cases hr with
  | raised hraise =>
      rw [hraise] at hstage
      rcases hstage.of_raise hresult with hrefused | ⟨-, ⟨e, -, rfl⟩ | ⟨⟨admission, hguard⟩, hdone⟩⟩
      · cases hnone.symm.trans hrefused
      · exact .inl ⟨e, rfl⟩
      · rw [hdone] at hwp
        exact .inr ⟨hvouched hnone, hwp _ hnow hinv⟩
  | @ended admission result _ hdone hresponse =>
      rw [hdone] at hstage
      obtain ⟨-, hguard, hended⟩ := hstage.of_done hresult
      rw [hended] at hwp
      obtain ⟨response, hall, hseen⟩ := hwp _ hnow hinv
      obtain rfl := Option.some.inj ((hall admission).symm.trans hresponse)
      exact .inr ⟨hvouched hnone, hseen⟩
  | returned hdone =>
      rw [hdone] at hstage
      obtain ⟨-, -, hended⟩ := hstage.of_done hresult
      rw [hended] at hwp
      obtain ⟨response, hall, -⟩ := hwp _ hnow hinv
      cases hall (.profile ⟨0, ""⟩)

theorem program_readOnly (hi : S.requests i = .authenticated (.bearer token) endpoint)
    (hlook : S.view i endpoint = some look) : (S.program i).ReadOnly := by
  have hguard : ((AuthRequest.authenticated token).program
      S.accessTokenExpireMinutes).ReadOnly :=
    Prog.Every.bind (getCurrentUser_every fun _ _ _ _ => rfl) fun _ _ => trivial
  rw [program, refusal_of_view hlook hi, hi]
  refine Prog.ReadOnly.guarded ?_ fun admission => ?_
  · cases endpoint with
    | logout | readCurrentUser | createAccount | moveMoney => cases hlook
    | read | readReconciliation => exact hguard.rename
  · have hhandle (user : ObjectId) : (S.handle i user endpoint).ReadOnly := by
      cases endpoint with
      | logout | readCurrentUser | createAccount | moveMoney => cases hlook
      | read route => exact (route.program_readOnly _ _ _ _).rename
      | readReconciliation => exact (S.api.query_readOnly _).rename
    cases admission with
    | auth response =>
        cases response with
        | token | loggedOut => trivial
        | user user => exact hhandle user.id
    | profile user => trivial

end Reads

end Service

section Example

open Example

end Example

end Ledgerlock
