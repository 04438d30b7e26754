import Ledgerlock.Service
import Ledgerlock.Spec.Privacy
import Ledgerlock.Spec.Registration
import Ledgerlock.Spec.Serving

/-!
# Ledgerlock.Spec.Parts

The service taken apart.

A run of the service is a run of the requests of `Ledgerlock.Security` next to a run of the
API of `Ledgerlock.Api` (`Service.Reached.parts`), and what is known of either is known of
it. What joins the two is that a request has begun on the ledger only if
`get_current_user` has accepted its token (`Service.Parts.letIn`).
-/

namespace Ledgerlock

open Interleave (Config Prog Run Stage)
open Mvcc

theorem authenticated_user [Bcrypt] (minutes : Nat) (token : AccessToken) :
    ((AuthRequest.authenticated token).program minutes).Every (fun _ _ => True)
      fun response => ∃ user, response = .user user ∧ user.id = token.sub :=
  Prog.Every.bind (getCurrentUser_named fun _ _ => trivial)
    fun user huser => ⟨user, rfl, huser.1⟩

/-- A client can tell the codes apart. -/
theorem ErrorCode.value_injective : Function.Injective ErrorCode.value := by
  intro code code' h
  cases code <;> cases code' <;> first | rfl | exact absurd h (by decide)

/-- A client can tell the error responses apart. -/
theorem ErrorResponse.envelope_injective : Function.Injective ErrorResponse.envelope := by
  intro e e' h
  obtain ⟨hstatus, hcode, hmessage⟩ := ErrorEnvelope.mk.inj h
  cases e
  cases e'
  exact congr (congr (congrArg _ hstatus) (ErrorCode.value_injective hcode)) hmessage

/-- There is always a value that has not been drawn. -/
theorem authEnv_offers (s : AuthStore) : ∃ x, authEnv.offers s x := by
  obtain ⟨jti, hjti⟩ := Infinite.exists_notMem_finset (s.signed.map (·.jti)).toFinset
  obtain ⟨id, hid⟩ := Infinite.exists_notMem_finset (s.users.map (·.id)).toFinset
  refine ⟨⟨id, jti, ""⟩, fun t ht heq => hjti ?_, fun u hu heq => hid ?_⟩
  · exact List.mem_toFinset.mpr (List.mem_map.mpr ⟨t, ht, heq⟩)
  · exact List.mem_toFinset.mpr (List.mem_map.mpr ⟨u, hu, heq⟩)

theorem Api.unused_start {ν : Type} [ServerSum] [DecidableEq ν] (A : Api ν) (id : ObjectId) :
    A.Unused A.start.shared id where
  issued := by
    simp [Api.start, System.start, Deployment.system, Api.deployment]
  key := by
    show DbKey.account id ∉ Database.keys ⟨[], [], []⟩
    simp [Database.keys]
  held _ _ _ h := nomatch h

section ReadOnly

variable {ν : Type} [ServerSum] [DecidableEq ν] (A : Api ν)

theorem Api.query_readOnly {α : Type} (q : Database → Except ReadError α) :
    (A.query q).ReadOnly :=
  ⟨fun _ _ => rfl, fun _ s => Prog.ReadOnly.ofExcept (q (A.db s))⟩

/-- A handler that reads writes nothing. -/
theorem ReadRoute.program_readOnly (order : ServerSort) (computedAt : Timestamp)
    (user : ObjectId) (route : ReadRoute) :
    (route.program A order computedAt user).ReadOnly := by
  cases route with
  | listAccounts query => exact (Prog.ReadOnly.ofExcept _).bind fun _ => A.query_readOnly _
  | readAccount accountId => exact (Prog.ReadOnly.ofExcept _).bind fun _ => A.query_readOnly _
  | readBalance accountId =>
      exact (Prog.ReadOnly.ofExcept _).bind fun _ =>
        (A.query_readOnly _).bind fun _ => A.query_readOnly _
  | readTransaction transactionId =>
      refine (Prog.ReadOnly.ofExcept _).bind fun _ => (A.query_readOnly _).bind fun document => ?_
      cases document with
      | none => trivial
      | some document => exact A.query_readOnly _

end ReadOnly

namespace Service

variable {ν : Type} [ServerSum] [DecidableEq ν] (S : Service ν)

/-! ### Bodies -/

/-- The requests that write nothing to the ledger. -/
def apiReaders : Set ν :=
  {i | ∀ token,
    (∀ payload, S.requests i ≠ .authenticated (.bearer token) (.createAccount payload)) ∧
    ∀ header route, S.requests i ≠ .authenticated (.bearer token) (.moveMoney header route)}

omit [ServerSum] [DecidableEq ν] in
theorem writes_of_notMem {i : ν} (hi : i ∉ S.apiReaders) : ∃ token,
    (∃ payload, S.requests i = .authenticated (.bearer token) (.createAccount payload)) ∨
      ∃ header route, S.requests i = .authenticated (.bearer token) (.moveMoney header route) := by
  by_contra hnone
  refine hi fun token => ⟨fun payload h => hnone ?_, fun header route h => hnone ?_⟩
  · exact ⟨token, .inl ⟨payload, h⟩⟩
  · exact ⟨token, .inr ⟨header, route, h⟩⟩

/-- What is behind the guard of a request. -/
def bodyOf (i : ν) : Prog (ApiState ν) AccountStamp ErrorEnvelope BodyResult :=
  match S.requests i with
  | .authenticated (.bearer token) endpoint => S.handle i token.sub endpoint
  | _ => .done .nothing

/-- A body that writes is a handler of `Ledgerlock.Api`. -/
theorem bodyOf_of_notMem {i : ν} (hi : i ∉ S.apiReaders) :
    S.bodyOf i = (S.api.start.prog i).rename .handled ErrorResponse.envelope := by
  show S.bodyOf i = (S.api.handler i (write (S.requests i))).rename _ _
  unfold bodyOf
  split
  · rename_i token endpoint hrequest
    rw [hrequest]
    cases endpoint with
    | createAccount | moveMoney => rfl
    | logout | readCurrentUser | read | readReconciliation =>
        refine absurd (fun token' => ⟨fun payload h => ?_, fun header route h => ?_⟩) hi
        · cases hrequest.symm.trans h
        · cases hrequest.symm.trans h
  · rename_i hother
    exact absurd (fun token => ⟨fun _ => hother _ _, fun _ _ => hother _ _⟩) hi

theorem bodyOf_readOnly {i : ν} (hi : i ∈ S.apiReaders) : (S.bodyOf i).ReadOnly := by
  unfold bodyOf
  split
  · rename_i token endpoint hrequest
    cases endpoint with
    | createAccount payload => exact absurd hrequest ((hi token).1 payload)
    | moveMoney header route => exact absurd hrequest ((hi token).2 header route)
    | logout | readCurrentUser => trivial
    | read route => exact (route.program_readOnly _ _ _ _).rename
    | readReconciliation => exact (S.api.query_readOnly _).rename
  · trivial

/-- The handler of a request that writes nothing has nothing to do. -/
theorem not_mem_of_reader {i : ν} {l : List (Option ν)}
    {b : Config ν (ApiState ν) AccountStamp ErrorResponse Api.Handled}
    (h : Run S.api.env S.api.start l b) (hi : i ∈ S.apiReaders) : some i ∉ l := by
  intro hmem
  obtain ⟨l₁, e, e', l₂, hrun, hnot, hstep, -⟩ := h.exists_first hmem
  refine hstep.not_ended ?_
  rw [hrun.prog_of_notMem hnot]
  show (S.api.handler i (write (S.requests i))).Ended
  unfold write
  split
  · rename_i token payload hrequest
    exact absurd hrequest ((hi token).1 payload)
  · rename_i token header route hrequest
    exact absurd hrequest ((hi token).2 header route)
  · exact .raise _

/-! ### Guards -/

variable [Bcrypt]

/-- The requests, in the terms of `Ledgerlock.Security`. -/
def authRequests (i : ν) : AuthRequest := (S.requests i).authRequest S.lower S.emailStr

/-- What is left of them out there: a request that is turned away, and `GET /auth/me`. -/
def authReaders : Set ν :=
  {i | S.refusal i ≠ none ∨
    ∃ token, S.requests i = .authenticated (.bearer token) .readCurrentUser}

/-- The guard of a request; one that is turned away has none to pass. -/
def guardOf (i : ν) : AuthProg Admission :=
  match S.refusal i with
  | some _ => .raise .invalidCredentials
  | none => (S.requests i).guard S.accessTokenExpireMinutes S.lower S.emailStr

/-- A guard that lets a request through lets it through to its body. -/
theorem admit_result {i : ν} (hi : S.refusal i = none) :
    ((S.requests i).guard S.accessTokenExpireMinutes S.lower S.emailStr).Every
      (fun _ _ => True) fun admission => S.proceed i (S.requests i) admission = S.bodyOf i := by
  unfold bodyOf
  cases hrequest : S.requests i with
  | register payload =>
      exact Prog.Every.rename (D := fun _ => True)
        ((AuthRequest.program_actions _ _).mono fun _ _ _ => trivial) fun _ _ => rfl
  | login payload =>
      exact Prog.Every.rename (D := fun _ => True)
        ((AuthRequest.program_actions _ _).mono fun _ _ _ => trivial) fun _ _ => rfl
  | authenticated credentials endpoint =>
      cases credentials with
      | missing | otherScheme =>
          rw [refusal, hrequest] at hi
          cases hearly : endpoint.refusal <;>
            simp [ServiceRequest.refusal, hearly, Credentials.refusal] at hi
      | bearer token =>
          have hlet (endpoint : Endpoint) : ∀ response : AuthResponse,
              (∃ user, response = .user user ∧ user.id = token.sub) →
              S.proceed i (.authenticated (.bearer token) endpoint) (.auth response) =
                S.handle i token.sub endpoint := by
            rintro _ ⟨user, rfl, huser⟩
            rw [← huser]
            rfl
          cases endpoint with
          | logout =>
              exact Prog.Every.rename (D := fun _ => True)
                ((AuthRequest.program_actions _ _).mono fun _ _ _ => trivial)
                fun response _ => by cases response <;> rfl
          | readCurrentUser =>
              refine Prog.Every.rename (D := fun _ => True) (Prog.Every.bind
                (getCurrentUser_named fun _ _ => trivial) fun user _ => ?_)
                fun _ _ => rfl
              refine Prog.Every.bind (B := fun _ => True)
                ⟨fun _ => trivial, fun _ _ => trivial⟩ fun document _ => ?_
              cases document <;> trivial
          | createAccount | moveMoney | read | readReconciliation =>
              exact Prog.Every.rename (authenticated_user _ token) (hlet _)

omit [ServerSum] [DecidableEq ν] in
/-- A guard that waits for nothing else is a request of `Ledgerlock.Security`. -/
theorem guardOf_of_notMem {i : ν} (hi : i ∉ S.authReaders) :
    S.guardOf i = ((S.authRequests i).program S.accessTokenExpireMinutes).rename .auth id := by
  obtain ⟨hnone, hother⟩ := not_or.mp hi
  have hguard : S.guardOf i =
      (S.requests i).guard S.accessTokenExpireMinutes S.lower S.emailStr := by
    rw [guardOf, not_not.mp hnone]
  rw [hguard]
  unfold ServiceRequest.guard
  split
  · rename_i token hrequest
    exact absurd ⟨token, hrequest⟩ hother
  · rfl

omit [ServerSum] [DecidableEq ν] in
theorem guardOf_readOnly {i : ν} (hi : i ∈ S.authReaders) : (S.guardOf i).ReadOnly := by
  unfold guardOf
  split
  · trivial
  · rename_i hnone
    rcases hi with hrefused | ⟨token, hrequest⟩
    · exact absurd hnone hrefused
    · rw [hrequest]
      refine Prog.ReadOnly.rename (Prog.Every.bind
        (getCurrentUser_every fun _ _ _ _ => rfl) fun user _ => ?_)
      refine (Prog.ReadOnly.read _).bind fun document => ?_
      cases document <;> trivial

theorem program_of_notMem {i : ν} (hi : i ∉ S.authReaders) : S.program i =
    .guarded AuthError.envelope
      (((S.authRequests i).program S.accessTokenExpireMinutes).rename .auth id)
      (S.proceed i (S.requests i)) := by
  have hnone : S.refusal i = none := not_not.mp (not_or.mp hi).1
  rw [← S.guardOf_of_notMem hi, guardOf, program, hnone]

/-! ### The parts of a state -/

/-- The service before anything has happened. -/
def unused (now : Instant) : AuthStore := ⟨now, [], [], []⟩

/-- A state of the service, its guards in `g` and its bodies in `q`; of these, the requests
of `Ledgerlock.Security` in `a` and the handlers of `Ledgerlock.Api` in `b`. -/
structure Parts (now : Instant) (c : ServiceConfig ν)
    (g : Config ν AuthStore AuthInput AuthError Admission)
    (q : Config ν (ApiState ν) AccountStamp ErrorEnvelope BodyResult)
    (a : Config ν AuthStore AuthInput AuthError AuthResponse)
    (b : Config ν (ApiState ν) AccountStamp ErrorResponse Api.Handled) : Prop where
  splits : c.Splits S.refusal AuthError.envelope (fun i => S.proceed i (S.requests i)) S.bodyOf g q
  guards : ∃ l, Run authEnv ⟨unused now, S.guardOf⟩ l g
  bodies : ∃ l, Run S.api.env ⟨S.api.start.shared, S.bodyOf⟩ l q
  auth : ∃ l, Run authEnv
    (authStart S.accessTokenExpireMinutes S.authRequests (unused now)) l a
  api : S.api.Reached b
  auth_shared : a.shared = g.shared
  api_shared : b.shared = q.shared
  auth_idle : ∀ i ∈ S.authReaders,
    a.prog i = (S.authRequests i).program S.accessTokenExpireMinutes
  auth_prog : ∀ i ∉ S.authReaders, g.prog i = (a.prog i).rename .auth id
  api_idle : ∀ i ∈ S.apiReaders, b.prog i = S.api.start.prog i
  api_prog : ∀ i ∉ S.apiReaders, q.prog i = (b.prog i).rename .handled ErrorResponse.envelope

theorem start_splits (now : Instant) :
    (S.start now).Splits S.refusal AuthError.envelope (fun i => S.proceed i (S.requests i))
      S.bodyOf ⟨unused now, S.guardOf⟩ ⟨S.api.start.shared, S.bodyOf⟩ := by
  refine ⟨rfl, fun i => ?_, fun i => ?_⟩
  · show Stage _ _ _ _ (S.guardOf i) _ (S.program i)
    unfold guardOf program
    cases hrefusal : S.refusal i with
    | some e => exact .refused _ rfl
    | none => exact .guarding _ rfl
  · show (S.guardOf i).Every _ _
    unfold guardOf
    split
    · trivial
    · rename_i hnone
      exact S.admit_result hnone

theorem start_parts (now : Instant) :
    S.Parts now (S.start now) ⟨unused now, S.guardOf⟩ ⟨S.api.start.shared, S.bodyOf⟩
      (authStart S.accessTokenExpireMinutes S.authRequests (unused now)) S.api.start where
  splits := S.start_splits now
  guards := ⟨[], .nil⟩
  bodies := ⟨[], .nil⟩
  auth := ⟨[], .nil⟩
  api := ⟨[], .nil⟩
  auth_shared := rfl
  api_shared := rfl
  auth_idle _ _ := rfl
  auth_prog _ hi := S.guardOf_of_notMem hi
  api_idle _ _ := rfl
  api_prog _ hi := S.bodyOf_of_notMem hi

variable {S} {c d : ServiceConfig ν} {now : Instant} {l : List (Option ν)}
  {g : Config ν AuthStore AuthInput AuthError Admission}
  {q : Config ν (ApiState ν) AccountStamp ErrorEnvelope BodyResult}
  {a : Config ν AuthStore AuthInput AuthError AuthResponse}
  {b : Config ν (ApiState ν) AccountStamp ErrorResponse Api.Handled} {i : ν}

/-- As the service goes on, so do its parts. -/
theorem Parts.extend (h : S.Parts now c g q a b) (hrun : Run S.env c l d) :
    ∃ l₁ g' l₂ q' l₃ a' l₄ b', S.Parts now d g' q' a' b' ∧ Run authEnv g l₁ g' ∧
      Run S.api.env q l₂ q' ∧ Run authEnv a l₃ a' ∧ Run S.api.env b l₄ b' ∧
      ∀ i, some i ∉ l → some i ∉ l₁ ∧ some i ∉ l₂ := by
  obtain ⟨l₁, g', l₂, q', hguards, hbodies, hsplits, hidle⟩ := Run.split hrun h.splits
  obtain ⟨_, hguards₀⟩ := h.guards
  obtain ⟨_, hbodies₀⟩ := h.bodies
  obtain ⟨_, hauth₀⟩ := h.auth
  obtain ⟨_, hapi₀⟩ := h.api
  obtain ⟨l₃, a', hauth, hshared, hauth_idle, hauth_prog⟩ := hguards.writers h.auth_shared
    (fun i hi => hguards₀.every (S.guardOf_readOnly hi)) h.auth_prog
  obtain ⟨l₄, b', hapi, hshared', hapi_idle, hapi_prog⟩ := hbodies.writers h.api_shared
    (fun i hi => hbodies₀.every (S.bodyOf_readOnly hi)) h.api_prog
  refine ⟨l₁, g', l₂, q', l₃, a', l₄, b', ?_, hguards, hbodies, hauth, hapi, hidle⟩
  exact
    { splits := hsplits
      guards := ⟨_, hguards₀.trans hguards⟩
      bodies := ⟨_, hbodies₀.trans hbodies⟩
      auth := ⟨_, hauth₀.trans hauth⟩
      api := ⟨_, hapi₀.trans hapi⟩
      auth_shared := hshared
      api_shared := hshared'
      auth_idle := fun i hi => (hauth_idle i hi).trans (h.auth_idle i hi)
      auth_prog := hauth_prog
      api_idle := fun i hi => (hapi_idle i hi).trans (h.api_idle i hi)
      api_prog := hapi_prog }

/-- A run of the service is a run of each of its parts. -/
theorem Reached.parts (h : S.Reached c) : ∃ now g q a b, S.Parts now c g q a b := by
  obtain ⟨now, l, hrun⟩ := h
  obtain ⟨-, g, -, q, -, a, -, b, hparts, -⟩ := (S.start_parts now).extend hrun
  exact ⟨now, g, q, a, b, hparts⟩

theorem Parts.store (h : S.Parts now c g q a b) : a.shared = c.shared.1 := by
  rw [h.auth_shared, h.splits.shared]

theorem Parts.ledger (h : S.Parts now c g q a b) : b.shared = c.shared.2 := by
  rw [h.api_shared, h.splits.shared]

theorem Parts.apiInv (h : S.Parts now c g q a b) : ApiInv S.api c.shared.2 := by
  rw [← h.ledger]
  exact h.api.inv

theorem Reached.apiInv (h : S.Reached c) : ApiInv S.api c.shared.2 := by
  obtain ⟨now, g, q, a, b, hparts⟩ := h.parts
  exact hparts.apiInv

theorem Reached.run (h : S.Reached c) (hrun : Run S.env c l d) : S.Reached d := by
  obtain ⟨now, l₀, hrun₀⟩ := h
  exact ⟨now, _, hrun₀.trans hrun⟩

/-- A state that request `i` has yet to come to. -/
def Waiting (S : Service ν) (c : ServiceConfig ν) (i : ν) : Prop :=
  ∃ now l, Run S.env (S.start now) l c ∧ some i ∉ l

theorem Waiting.reached (h : S.Waiting c i) : S.Reached c := by
  obtain ⟨now, l, hrun, -⟩ := h
  exact ⟨now, l, hrun⟩

/-- The guard and the body of a request that is still to come are still to come. -/
theorem Waiting.parts (h : S.Waiting c i) : ∃ now g q a b, S.Parts now c g q a b ∧
    a.prog i = (S.authRequests i).program S.accessTokenExpireMinutes ∧
    q.prog i = S.bodyOf i := by
  obtain ⟨now, l, hrun, hi⟩ := h
  obtain ⟨_, g, _, q, _, a, _, b, hparts, hguards, hbodies, -, -, hidle⟩ :=
    (S.start_parts now).extend hrun
  refine ⟨now, g, q, a, b, hparts, ?_, hbodies.prog_of_notMem (hidle i hi).2⟩
  by_cases hreader : i ∈ S.authReaders
  · exact hparts.auth_idle i hreader
  · have hguard : S.guardOf i = (a.prog i).rename .auth id := by
      rw [← hparts.auth_prog i hreader, hguards.prog_of_notMem (hidle i hi).1]
    rw [S.guardOf_of_notMem hreader] at hguard
    exact Prog.rename_injective (fun _ _ h => Admission.auth.inj h) Function.injective_id
      hguard.symm

/-! ### What joins them -/

/-- The token of request `i` has been accepted. -/
def LetIn (S : Service ν) (a : Config ν AuthStore AuthInput AuthError AuthResponse) (i : ν) :
    Prop :=
  ∃ token endpoint user, S.requests i = .authenticated (.bearer token) endpoint ∧
    user.id = token.sub ∧ a.prog i = .done (.user user)

/-- A request that is past its guard has had its token accepted. -/
theorem Parts.letIn_of_guard (h : S.Parts now c g q a b) (hi : i ∉ S.authReaders)
    {admission : Admission} (hguard : g.prog i = .done admission) {token : AccessToken}
    {endpoint : Endpoint} (hrequest : S.requests i = .authenticated (.bearer token) endpoint)
    (hout : endpoint ≠ .logout) : S.LetIn a i := by
  have hprog := h.auth_prog i hi
  rw [hguard] at hprog
  obtain ⟨response, hdone, -⟩ := Prog.rename_eq_done hprog.symm
  obtain ⟨l, hauth⟩ := h.auth
  have hresult := hauth.every (i := i) (A := fun _ _ => True)
    (D := fun response => ∃ user, response = .user user ∧ user.id = token.sub) (by
      show ((S.authRequests i).program _).Every _ _
      have hauthenticated : S.authRequests i = .authenticated token := by
        rw [authRequests, hrequest]
        cases endpoint with
        | logout => exact absurd rfl hout
        | readCurrentUser | createAccount | moveMoney | read | readReconciliation => rfl
      rw [hauthenticated]
      exact authenticated_user _ token)
  rw [hdone] at hresult
  obtain ⟨user, rfl, huser⟩ := hresult
  exact ⟨token, endpoint, user, hrequest, huser, hdone⟩

/-- A request whose body has moved on has had its token accepted. -/
theorem Parts.letIn_of_body (h : S.Parts now c g q a b) (hi : q.prog i ≠ S.bodyOf i) :
    S.LetIn a i := by
  obtain ⟨hnone, admission, hguard, -⟩ := (h.splits.stage i).admitted_of_ne hi
  obtain ⟨l, hbodies⟩ := h.bodies
  -- a body with nothing to do has nothing to move on to
  have hidle : S.bodyOf i ≠ .done .nothing := fun hbody =>
    hi (hbodies.prog_of_ended (i := i) (by
      show (S.bodyOf i).Ended
      rw [hbody]
      exact .done _))
  obtain ⟨token, endpoint, hrequest, hme, hout⟩ : ∃ token endpoint,
      S.requests i = .authenticated (.bearer token) endpoint ∧ endpoint ≠ .readCurrentUser ∧
        endpoint ≠ .logout := by
    unfold bodyOf at hidle
    split at hidle
    · rename_i token endpoint hrequest
      refine ⟨token, endpoint, hrequest, ?_, ?_⟩
      · rintro rfl
        exact hidle rfl
      · rintro rfl
        exact hidle rfl
    · exact absurd rfl hidle
  refine h.letIn_of_guard ?_ hguard hrequest hout
  rintro (hrefused | ⟨token', hrequest'⟩)
  · exact hrefused hnone
  · rw [hrequest] at hrequest'
    exact hme (ServiceRequest.authenticated.inj hrequest').2

/-- A request whose handler has moved on has had its token accepted. -/
theorem Parts.letIn (h : S.Parts now c g q a b) (hi : b.prog i ≠ S.api.start.prog i) :
    S.LetIn a i := by
  have hreader : i ∉ S.apiReaders := fun hmem => hi (h.api_idle i hmem)
  refine h.letIn_of_body fun hbody => hi ?_
  rw [h.api_prog i hreader, S.bodyOf_of_notMem hreader] at hbody
  exact Prog.rename_injective (fun _ _ h => BodyResult.handled.inj h)
    ErrorResponse.envelope_injective hbody

/-- What a request of `auth.py` is answered when its guard has come to an end. -/
inductive AuthAnswer : AuthProg AuthResponse → Except ErrorEnvelope ServiceResponse → Prop
  | done {response : AuthResponse} {r : Except ErrorEnvelope ServiceResponse} :
      BodyResult.nothing.response (.auth response) = some r → AuthAnswer (.done response) r
  | raise (e : AuthError) : AuthAnswer (.raise e) (.error e.envelope)

/-- A request with nothing behind its guard is answered what the guard comes to. -/
theorem Parts.responds_iff (h : S.Parts now c g q a b) (hi : i ∉ S.authReaders)
    (hbody : S.bodyOf i = .done .nothing) {r : Except ErrorEnvelope ServiceResponse} :
    S.Responds c i r ↔ AuthAnswer (a.prog i) r := by
  have hstage := h.splits.stage i
  have hresult := h.splits.result i
  have hq : q.prog i = .done .nothing := by
    obtain ⟨l, hbodies⟩ := h.bodies
    rw [hbodies.prog_of_ended (i := i)]
    · exact hbody
    · show (S.bodyOf i).Ended
      rw [hbody]
      exact .done _
  rw [hbody, hq, h.auth_prog i hi] at hstage
  rw [hbody, h.auth_prog i hi] at hresult
  constructor
  · intro hresponds
    cases hresponds with
    | raised hraise =>
        rw [hraise] at hstage
        rcases hstage.of_raise hresult with hrefused | ⟨-, ⟨e, hguard, rfl⟩ | ⟨-, hbody⟩⟩
        · exact absurd hrefused fun hrefused => hi (.inl (by rw [hrefused]; simp))
        · obtain ⟨e', he', rfl⟩ := Prog.rename_eq_raise hguard
          rw [he']
          exact .raise e'
        · cases hbody
    | @ended admission result _ hdone hresponse =>
        rw [hdone] at hstage
        obtain ⟨-, hguard, hbody⟩ := hstage.of_done hresult
        obtain ⟨response, hresponse', rfl⟩ := Prog.rename_eq_done hguard
        obtain rfl := Prog.done.inj hbody
        rw [hresponse']
        exact .done hresponse
    | returned hdone =>
        rw [hdone] at hstage
        cases (hstage.of_done hresult).2.2
  · intro hanswer
    generalize hp : a.prog i = p at hanswer hstage hresult
    cases hanswer with
    | @done response r hresponse =>
        refine Responds.ended (?_ : c.prog i = .done (.auth response, .nothing)) hresponse
        generalize hc : c.prog i = p' at hstage
        cases hstage with
        | refused _ hrefused => exact absurd (hi ∘ .inl) (by simp [hrefused])
        | guarding =>
            have hproceed : S.proceed i (S.requests i) (.auth response) = .done .nothing := hresult
            show (S.proceed i (S.requests i) (.auth response)).right _ = _
            rw [hproceed]
            rfl
        | admitted => rfl
    | raise e =>
        refine .raised ?_
        generalize hc : c.prog i = p' at hstage
        cases hstage with
        | refused _ hrefused => exact absurd (hi ∘ .inl) (by simp [hrefused])
        | guarding => rfl

/-- What a request that may write to the ledger is answered. -/
inductive WriteAnswer (S : Service ν)
    (a : Config ν AuthStore AuthInput AuthError AuthResponse)
    (b : Config ν (ApiState ν) AccountStamp ErrorResponse Api.Handled) (i : ν) :
    Except ErrorEnvelope ServiceResponse → Prop
  | refused {e : ErrorEnvelope} : S.refusal i = some e → WriteAnswer S a b i (.error e)
  | denied {e : AuthError} : a.prog i = .raise e → WriteAnswer S a b i (.error e.envelope)
  | rejected {e : ErrorResponse} : S.LetIn a i → b.prog i = .raise e →
      WriteAnswer S a b i (.error e.envelope)
  | created {account : Account} : S.LetIn a i → b.prog i = .done (.created account) →
      WriteAnswer S a b i (respondWith .account (AccountPublic.fromDocument account))
  | returned {args : TransferArgs} {x : Except Raised Reply} : S.LetIn a i →
      b.prog i = .done (.called args) → S.api.deployment.Ends b.shared.ledger (i, args) x →
      WriteAnswer S a b i (callResponse x)

theorem Parts.writeAnswer (h : S.Parts now c g q a b) (hi : i ∉ S.apiReaders)
    {r : Except ErrorEnvelope ServiceResponse} (hr : S.Responds c i r) :
    WriteAnswer S a b i r := by
  have hstage := h.splits.stage i
  have hresult := h.splits.result i
  obtain ⟨token, endpoint, hrequest, hme, hout⟩ : ∃ token endpoint,
      S.requests i = .authenticated (.bearer token) endpoint ∧ endpoint ≠ .readCurrentUser ∧
        endpoint ≠ .logout := by
    obtain ⟨token, ⟨payload, hrequest⟩ | ⟨header, route, hrequest⟩⟩ := S.writes_of_notMem hi
    · exact ⟨token, _, hrequest, by simp, by simp⟩
    · exact ⟨token, _, hrequest, by simp, by simp⟩
  have hreader (hnone : S.refusal i = none) : i ∉ S.authReaders := by
    rintro (hrefused | ⟨token', hrequest'⟩)
    · exact hrefused hnone
    · rw [hrequest] at hrequest'
      exact hme (ServiceRequest.authenticated.inj hrequest').2
  have hletIn (hnone : S.refusal i = none) {admission : Admission}
      (hguard : g.prog i = .done admission) : S.LetIn a i :=
    h.letIn_of_guard (hreader hnone) hguard hrequest hout
  have hprog := h.api_prog i hi
  cases hr with
  | raised hraise =>
      rw [hraise] at hstage
      rcases hstage.of_raise hresult with hrefused | ⟨hnone, ⟨e, hguard, rfl⟩ |
        ⟨⟨admission, hguard⟩, hbody⟩⟩
      · exact .refused hrefused
      · rw [h.auth_prog i (hreader hnone)] at hguard
        obtain ⟨e', he', rfl⟩ := Prog.rename_eq_raise hguard
        exact .denied he'
      · rw [hprog] at hbody
        obtain ⟨e, he, rfl⟩ := Prog.rename_eq_raise hbody
        exact .rejected (hletIn hnone hguard) he
  | @ended admission result _ hdone hresponse =>
      rw [hdone] at hstage
      obtain ⟨hnone, hguard, hbody⟩ := hstage.of_done hresult
      rw [hprog] at hbody
      obtain ⟨handled, hhandled, rfl⟩ := Prog.rename_eq_done hbody
      cases handled with
      | created account =>
          obtain rfl := Option.some.inj hresponse
          exact .created (hletIn hnone hguard) hhandled
      | called args => cases hresponse
  | @returned admission args x hdone hends =>
      rw [hdone] at hstage
      obtain ⟨hnone, hguard, hbody⟩ := hstage.of_done hresult
      rw [hprog] at hbody
      obtain ⟨handled, hhandled, hcalled⟩ := Prog.rename_eq_done hbody
      obtain rfl := BodyResult.handled.inj hcalled
      have hshared : b.shared = c.shared.2 := by rw [h.api_shared, h.splits.shared]
      exact .returned (hletIn hnone hguard) hhandled (hshared ▸ hends)

/-! ### Putting them together -/

/-- A run of the requests of `Ledgerlock.Security`, and then one of the handlers of those that
have been let in, is a run of the service. -/
theorem exists_reached {l l' : List (Option ν)}
    (hauth : Run authEnv
      (authStart S.accessTokenExpireMinutes S.authRequests (unused now)) l a)
    (hserved : ∀ i, some i ∈ l → i ∉ S.authReaders) (hapi : Run S.api.env S.api.start l' b)
    (hlet : ∀ i, some i ∈ l' → S.LetIn a i) :
    ∃ c, S.Reached c ∧ c.shared = (a.shared, b.shared) ∧
      (∀ i, some i ∈ l → some i ∉ l' → c.prog i =
        .guarded AuthError.envelope ((a.prog i).rename .auth id) (S.proceed i (S.requests i))) ∧
      (∀ i, some i ∈ l' → ∃ user, c.prog i =
        ((b.prog i).rename .handled ErrorResponse.envelope).right (.auth (.user user))) ∧
      ∀ i, some i ∉ l → some i ∉ l' → S.Waiting c i := by
  -- the guards
  obtain ⟨c₁, hrun₁, hshared₁, hguards, -⟩ := hauth.simulate (F := S.env)
    (e := fun s => (s, S.api.start.shared)) (b := S.start now)
    (R := fun i p p' => p' =
      .guarded AuthError.envelope (p.rename .auth id) (S.proceed i (S.requests i)))
    (by
      rintro i f k _ rfl
      exact ⟨_, _, rfl, fun s x hx => ⟨(x, ⟨0, 0, 0⟩), ⟨hx, S.api.unused_start 0⟩, rfl, rfl⟩⟩)
    (fun s t hm => .inl ⟨hm, rfl⟩) rfl fun i hi => S.program_of_notMem (hserved i hi)
  -- the bodies
  obtain ⟨x, hx⟩ := authEnv_offers a.shared
  obtain ⟨c₂, hrun₂, hshared₂, hbodies, hsame⟩ := hapi.simulate (F := S.env)
    (e := fun t => (a.shared, t)) (b := c₁)
    (R := fun _ p p' => ∃ user,
      p' = (p.rename .handled ErrorResponse.envelope).right (.auth (.user user)))
    (by
      rintro i f k _ ⟨user, rfl⟩
      exact ⟨_, _, rfl, fun s y hy => ⟨(x, y), ⟨hx, hy⟩, rfl, user, rfl⟩⟩)
    (fun s t hm => .inr ⟨hm, rfl⟩) hshared₁ fun i hi => by
      obtain ⟨token, endpoint, user, hrequest, huser, hdone⟩ := hlet i hi
      have hserved : some i ∈ l := by
        by_contra hnot
        refine AuthRequest.program_not_ended S.accessTokenExpireMinutes (S.authRequests i) ?_
        rw [show (S.authRequests i).program _ = _ from (hauth.prog_of_notMem hnot).symm, hdone]
        exact .done _
      have hbody : S.bodyOf i = S.handle i user.id endpoint := by
        rw [bodyOf, hrequest, huser]
      refine ⟨user, ?_⟩
      rw [hguards i hserved, hdone, hrequest,
        ← S.bodyOf_of_notMem fun hreader => S.not_mem_of_reader hapi hreader hi, hbody]
      rfl
  refine ⟨c₂, ⟨now, _, hrun₁.trans hrun₂⟩, hshared₂, fun i hi hi' => ?_, hbodies,
    fun i hi hi' => ⟨now, _, hrun₁.trans hrun₂, fun hmem => ?_⟩⟩
  · rw [hsame i hi']
    exact hguards i hi
  · exact (List.mem_append.mp hmem).elim hi hi'

end Service

/-- A run of the service is a run of its parts in which only the requests go on to the ledger
that have been let in, and every such run of the parts is one of the service. What a request
is answered follows from how it has ended in the parts. -/
theorem service_composed {ν : Type} [ServerSum] [DecidableEq ν] [Bcrypt] (S : Service ν) :
    (∀ c, S.Reached c → ∃ now l a b,
      Run authEnv
        (authStart S.accessTokenExpireMinutes S.authRequests (Service.unused now)) l a ∧
      S.api.Reached b ∧ c.shared = (a.shared, b.shared) ∧
      (∀ i, b.prog i ≠ S.api.start.prog i → S.LetIn a i) ∧
      ∀ i r, S.Responds c i r →
        (i ∉ S.authReaders → S.bodyOf i = .done .nothing → Service.AuthAnswer (a.prog i) r) ∧
        (i ∉ S.apiReaders → Service.WriteAnswer S a b i r)) ∧
    ∀ now l a l' b,
      Run authEnv
        (authStart S.accessTokenExpireMinutes S.authRequests (Service.unused now)) l a →
      (∀ i, some i ∈ l → i ∉ S.authReaders) → Run S.api.env S.api.start l' b →
      (∀ i, some i ∈ l' → S.LetIn a i) →
      ∃ c, S.Reached c ∧ c.shared = (a.shared, b.shared) := by
  refine ⟨fun c hc => ?_, fun now l a l' b hauth hserved hapi hlet => ?_⟩
  · obtain ⟨now, g, q, a, b, h⟩ := hc.parts
    obtain ⟨l, hauth⟩ := h.auth
    refine ⟨now, l, a, b, hauth, h.api, ?_, fun i hi => h.letIn hi, fun i r hr =>
      ⟨fun hi hbody => (h.responds_iff hi hbody).mp hr, fun hi => h.writeAnswer hi hr⟩⟩
    rw [h.splits.shared, h.auth_shared, h.api_shared]
  · obtain ⟨c, hc, hshared, -⟩ := Service.exists_reached hauth hserved hapi hlet
    exact ⟨c, hc, hshared⟩

namespace Example

def alicePassword : Password := ⟨"correct-horse-battery-staple", by decide⟩

theorem everydaySpending_valid :
    1 ≤ "Everyday spending".toList.length ∧ "Everyday spending".toList.length ≤ 120 := by
  decide

theorem alicePassword_given :
    1 ≤ alicePassword.val.toList.length ∧ alicePassword.val.toList.length ≤ 1024 := by
  decide

/-- Alice registers, and then opens an account, funds it, and pays what she has into the
SYSTEM account. She can log in, too, look at the account, and look at any transaction. -/
def serviceRequests : Nat → ServiceRequest
  | 0 => .authenticated (.bearer aliceToken) (.createAccount
      (.valid ⟨⟨"USD", isCurrencyCode_usd⟩, ⟨"Everyday spending", everydaySpending_valid⟩⟩))
  | 1 => .authenticated (.bearer aliceToken)
      (.moveMoney (fund 11 1 "funding-0001").idempotencyKey (fund 11 1 "funding-0001").route)
  | 2 => .authenticated (.bearer aliceToken)
      (.moveMoney (pay 11 1 0 "payment-0001").idempotencyKey (pay 11 1 0 "payment-0001").route)
  | 3 => .register (.valid ⟨"alice@example.com", alicePassword⟩)
  | 4 => .login (.valid ⟨"alice@example.com", alicePassword.val, alicePassword_given⟩)
  | 5 => .authenticated (.bearer aliceToken) (.read (.readAccount (.ok 1)))
  | 6 => .authenticated (.bearer aliceToken) (.read (.readBalance (.ok 1)))
  | id + 7 => .authenticated (.bearer aliceToken) (.read (.readTransaction (.ok id)))

def bank : Service Nat where
  requests := serviceRequests
  supportedCurrencies := ["USD"]
  accessTokenExpireMinutes := 30
  lower := id
  emailStr := some
  order _ := storedOrder
  clock _ := 0
  lossy := False
  faulty := False

def aliceRecord : User := ⟨11, "alice@example.com", "correct-horse-battery-staple"⟩

/-- Her registration is answered, and her token accepted three times. -/
theorem registered : ∃ l a, Run authEnv
      (authStart bank.accessTokenExpireMinutes bank.authRequests (Service.unused 0)) l a ∧
    (∀ i, some i ∈ l → i ≤ 3) ∧ a.shared = ⟨0, [aliceRecord], [aliceToken], []⟩ ∧
    a.prog 3 = .done (.token aliceToken) ∧ ∀ i, i < 3 → a.prog i = .done (.user aliceUser) := by
  refine ⟨_, _, .concat (.concat (.concat (.concat (.concat (.concat (.concat (.concat (.concat
    (.concat (.concat .nil
      (.act (i := 3) (x := ⟨11, "", ""⟩) rfl ?_))
      (.act (i := 3) (x := ⟨0, "alice-0001", ""⟩) rfl ?_))
      (.act (i := 0) (x := ⟨0, "", ""⟩) rfl ?_)) (.act (i := 0) (x := ⟨0, "", ""⟩) rfl ?_))
      (.act (i := 0) (x := ⟨0, "", ""⟩) rfl ?_)) (.act (i := 1) (x := ⟨0, "", ""⟩) rfl ?_))
      (.act (i := 1) (x := ⟨0, "", ""⟩) rfl ?_)) (.act (i := 1) (x := ⟨0, "", ""⟩) rfl ?_))
      (.act (i := 2) (x := ⟨0, "", ""⟩) rfl ?_)) (.act (i := 2) (x := ⟨0, "", ""⟩) rfl ?_))
      (.act (i := 2) (x := ⟨0, "", ""⟩) rfl ?_), ?_, ?_, ?_, ?_⟩
  case refine_12 =>
    intro i hi
    simp at hi
    omega
  case refine_15 =>
    intro i hi
    match i, hi with
    | 0, _ | 1, _ | 2, _ => rfl
  all_goals first
    | rfl
    | decide

/-- None of the first four is turned away or asks who the caller is. -/
theorem not_mem_authReaders {i : Nat} (hi : i ≤ 3) : i ∉ bank.authReaders := by
  rintro (hrefused | ⟨token, hrequest⟩)
  · match i, hi with
    | 0, _ | 1, _ | 2, _ | 3, _ => exact hrefused rfl
  · match i, hi with
    | 0, _ | 1, _ | 2, _ | 3, _ => cases hrequest

/-- The database when the payment is made too. -/
def servedDb (x y : Stamp) : Database :=
  view (view openedDb (transferWrites boundary (fundArgs 11 1 "funding-0001") x))
    (transferWrites alice (payArgs 11 1 0 "payment-0001") y)

/-- Her account is opened, funded, and debited. -/
theorem handled : ∃ b x y, bank.api.Reached b ∧ bank.api.db b.shared = servedDb x y := by
  obtain ⟨b₀, hb₀, hdb₀, -, hidle₀, hprog₀⟩ := opened bank.api rfl rfl
  have hasks₁ : (fund 11 1 "funding-0001").asks (bank.api.db b₀.shared) =
      .ok (fundArgs 11 1 "funding-0001") := by
    rw [hdb₀]
    rfl
  have hjudge₁ : judge (bank.api.db b₀.shared) (fundArgs 11 1 "funding-0001") =
      .ok boundary := by
    rw [hdb₀]
    rfl
  obtain ⟨b₁, x, hb₁, hdb₁, -, hrest₁, hothers₁, hprog₁⟩ :=
    hb₀.exists_written (hprog₀ 1 (by decide)) hasks₁ (by decide) hjudge₁ (hidle₀ _)
      fun k => .inl (hidle₀ k)
  rw [hdb₀] at hdb₁
  have hasks₂ : (pay 11 1 0 "payment-0001").asks (bank.api.db b₁.shared) =
      .ok (payArgs 11 1 0 "payment-0001") := by
    rw [hdb₁]
    rfl
  have hjudge₂ : judge (bank.api.db b₁.shared) (payArgs 11 1 0 "payment-0001") =
      .ok alice := by
    rw [hdb₁]
    rfl
  have hidle₁ : b₁.shared.ledger.phase (2, payArgs 11 1 0 "payment-0001") = .idle := by
    rw [hothers₁ _ (by decide), hidle₀]
  obtain ⟨b₂, y, hb₂, hdb₂, -⟩ :=
    hb₁.exists_written ((hprog₁ 2 (by decide)).trans (hprog₀ 2 (by decide))) hasks₂ (by decide)
      hjudge₂ hidle₁ hrest₁
  exact ⟨b₂, x, y, hb₂, by rw [hdb₂, hdb₁]; rfl⟩

/-- All of it is served. -/
theorem served : ∃ c x y, bank.Reached c ∧ bank.db c.shared = servedDb x y ∧
    c.shared.1 = ⟨0, [aliceRecord], [aliceToken], []⟩ ∧ ∀ i, 3 < i → bank.Waiting c i := by
  obtain ⟨l, a, hauth, hl, hstore, -, huser⟩ := registered
  obtain ⟨b, x, y, ⟨l', hapi⟩, hdb⟩ := handled
  -- the others have no handler
  have hhandled (i : Nat) (hi : some i ∈ l') : i < 3 := by
    match i, hi with
    | 0, _ | 1, _ | 2, _ => decide
    | 3, hi | 4, hi | 5, hi | 6, hi | i + 7, hi =>
        refine absurd hi (bank.not_mem_of_reader hapi fun token => ⟨fun payload h => ?_,
          fun header route h => ?_⟩)
        · cases h
        · cases h
  have hlet (i : Nat) (hi : some i ∈ l') : bank.LetIn a i := by
    match i, hhandled i hi with
    | 0, _ => exact ⟨aliceToken, _, aliceUser, rfl, rfl, huser 0 (by decide)⟩
    | 1, _ => exact ⟨aliceToken, _, aliceUser, rfl, rfl, huser 1 (by decide)⟩
    | 2, _ => exact ⟨aliceToken, _, aliceUser, rfl, rfl, huser 2 (by decide)⟩
  obtain ⟨c, hc, hshared, -, -, hwaiting⟩ :=
    Service.exists_reached hauth (fun i hi => not_mem_authReaders (hl i hi)) hapi hlet
  refine ⟨c, x, y, hc, ?_, ?_, fun i hi => hwaiting i (fun hmem => ?_) fun hmem => ?_⟩
  · show bank.api.db c.shared.2 = _
    rw [hshared, hdb]
  · rw [hshared, hstore]
  · exact hi.not_ge (hl i hmem)
  · exact (hi.trans (hhandled i hmem)).false

end Example

end Ledgerlock
