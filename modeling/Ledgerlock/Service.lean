import Ledgerlock.Api
import Ledgerlock.Interleave.Compose
import Ledgerlock.Login
import Ledgerlock.Reads

/-!
# Ledgerlock.Service

The whole service: the endpoints of `routes/auth.py`, `routes/accounts.py`,
`routes/transactions.py` and `routes/reconciliation.py`, with any number of requests
served at the same time, rate limiting off.

What the service keeps has two parts, the users and tokens of `Ledgerlock.Security` and
the ledger of `Ledgerlock.Api`, and a request visits the one and then the other:
`get_current_user` is a guard in front of every handler that reads or writes the ledger.
Each visit to the clock or to the database is one action, with anything the other requests,
the calls of `create_transfer` and the server do in between.
-/

namespace Ledgerlock

open Interleave (Config Env Prog)

/-! ### Requests -/

/-- The payload of `POST /auth/register`, its email as `EmailStr` leaves it. -/
structure UserRegisterRequest where
  email : String
  password : Password

/-- `normalise_email`, where `lower` is `str.lower`. -/
def normaliseEmail (lower : String → String) (email : String) : String := lower (strip email)

/-- The email of the `UserDocument` that `register` makes. It is an `EmailStr` again, so the
normalised address is looked at a second time: it may come out another one, or be refused. -/
def UserRegisterRequest.documentEmail (lower : String → String)
    (emailStr : String → Option String) (payload : UserRegisterRequest) : Option String :=
  emailStr (normaliseEmail lower payload.email)

/-- The endpoints that depend on `get_current_user`. -/
inductive Endpoint
  | logout
  | readCurrentUser
  | createAccount (payload : Payload AccountCreateRequest)
  /-- The two endpoints that move money. -/
  | moveMoney (idempotencyKey : Option String) (route : Route)
  | read (route : ReadRoute)
  | readReconciliation

inductive ServiceRequest
  | register (payload : Payload UserRegisterRequest)
  | login (payload : Payload UserLoginRequest)
  | authenticated (credentials : Credentials) (endpoint : Endpoint)

/-- What is found wrong with a body alone. -/
def Payload.refusal {α : Type} (payload : Payload α) : Option ErrorResponse :=
  match receiveBody payload with
  | .error e => some e
  | .ok _ => none

/-- A body that cannot be parsed, and then the header, are found before the caller is
looked at. -/
def refusedEarly {α : Type} (header : Option String) : Payload α → Option ErrorResponse
  | .unparsable statusCode message => some ⟨statusCode, .malformedRequest, message⟩
  | _ =>
      match requireIdempotencyKey header with
      | .error e => some (handleLedgerlockError e)
      | .ok _ => none

def Endpoint.refusal : Endpoint → Option ErrorResponse
  | .createAccount (.unparsable statusCode message) =>
      some ⟨statusCode, .malformedRequest, message⟩
  | .moveMoney header (.createTransaction payload) => refusedEarly header payload
  | .moveMoney header (.fundAccount payload) => refusedEarly header payload
  | _ => none

/-- The first lines of `get_current_user`. -/
def Credentials.refusal : Credentials → Option AuthError
  | .missing | .otherScheme => some (.unauthenticated "Authentication required.")
  | .bearer _ => none

/-- Why a request is turned away before any visit to the database, if it is. -/
def ServiceRequest.refusal (lower : String → String) (emailStr : String → Option String) :
    ServiceRequest → Option ErrorEnvelope
  | .register (.valid payload) =>
      -- nothing catches what `UserDocument` raises
      match payload.documentEmail lower emailStr with
      | none => some handleUnexpectedError.envelope
      | some _ => none
  | .register payload => payload.refusal.map ErrorResponse.envelope
  | .login payload => payload.refusal.map ErrorResponse.envelope
  | .authenticated credentials endpoint =>
      match endpoint.refusal with
      | some e => some e.envelope
      | none => credentials.refusal.map AuthError.envelope

/-! ### Responses -/

/-- A user as it is shown. -/
structure UserPublic where
  id : ObjectId
  email : String
  deriving Repr, DecidableEq

/-- 200 or 201, with a body. -/
inductive ServiceResponse
  | token (issued : AccessToken)
  | loggedOut
  | profile (user : UserPublic)
  | account (body : AccountPublic)
  | transaction (body : TransactionPublic)
  | read (body : ReadBody)
  | report (body : ReconciliationReport)
  deriving Repr, DecidableEq

/-- How the part of a request ends that is about users and tokens. -/
inductive Admission
  | auth (response : AuthResponse)
  | profile (user : UserPublic)
  deriving Repr, DecidableEq

/-- How the part of a request that is about the ledger ends. -/
inductive BodyResult
  | nothing
  | handled (result : Api.Handled)
  | read (body : ReadBody)
  | report (body : ReconciliationReport)
  deriving DecidableEq

/-- What is raised while a response is made is caught by the last handler. -/
def respondWith {α : Type} (f : α → ServiceResponse) :
    Except PyError α → Except ErrorEnvelope ServiceResponse
  | .ok a => .ok (f a)
  | .error _ => .error handleUnexpectedError.envelope

/-- The response, unless there is still a call of `create_transfer` to wait for. -/
def BodyResult.response (admission : Admission) :
    BodyResult → Option (Except ErrorEnvelope ServiceResponse)
  | .nothing =>
      match admission with
      | .auth (.token issued) => some (.ok (.token issued))
      | .auth .loggedOut => some (.ok .loggedOut)
      | .auth (.user user) => some (.ok (.profile ⟨user.id, user.email⟩))
      | .profile user => some (.ok (.profile user))
  | .handled (.created account) => some (respondWith .account (AccountPublic.fromDocument account))
  | .handled (.called _) => none
  | .read body => some (.ok (.read body))
  | .report body => some (.ok (.report body))

/-- What is made of the result of the call. -/
def callResponse : Except Raised Reply → Except ErrorEnvelope ServiceResponse
  | .ok (.written result) =>
      respondWith .transaction (TransactionPublic.ofStored result.transactionDocument)
  | .ok (.report body) => .ok (.report body)
  | .error e => .error e.response.envelope

/-! ### The part about users and tokens -/

/-- `read_current_user` -/
def readCurrentUser (token : AccessToken) : AuthProg UserPublic := do
  let user ← getCurrentUser token
  let document ← Prog.read fun s => s.users.find? fun u => u.id = user.id
  match document with
  | none => Prog.raise .invalidCredentials
  | some document => pure ⟨document.id, document.email⟩

namespace ServiceRequest

/-- The request in the terms of `Ledgerlock.Security`; one that is turned away at once
stands for none. -/
def authRequest (lower : String → String) (emailStr : String → Option String) :
    ServiceRequest → AuthRequest
  | .register (.valid payload) =>
      match payload.documentEmail lower emailStr with
      | none => .login "" ""
      | some email => .register email payload.password
  | .login (.valid payload) => .login (normaliseEmail lower payload.email) payload.password
  | .authenticated (.bearer token) .logout => .logout token
  | .authenticated (.bearer token) _ => .authenticated token
  | _ => .login "" ""

/-- What comes first in a request. -/
def guard [Bcrypt] (minutes : Nat) (lower : String → String) (emailStr : String → Option String) :
    ServiceRequest → AuthProg Admission
  | .authenticated (.bearer token) .readCurrentUser => (readCurrentUser token).rename .profile id
  | request => ((request.authRequest lower emailStr).program minutes).rename .auth id

end ServiceRequest

/-! ### The part about the ledger -/

abbrev ReadProg (ν α : Type) := Prog (ApiState ν) AccountStamp ReadError α

section Reads

variable {ν : Type} [ServerSum] [DecidableEq ν] (A : Api ν)

/-- One query, and what is made of its result. -/
def Api.query {α : Type} (q : Database → Except ReadError α) : ReadProg ν α :=
  .act (fun _ s => s) fun _ s => .ofExcept (q (A.db s))

/-- The handlers of `Ledgerlock.Reads`, query by query. -/
def ReadRoute.program (order : ServerSort) (computedAt : Timestamp) (user : ObjectId) :
    ReadRoute → ReadProg ν ReadBody
  | .listAccounts query => do
      let query ← .ofExcept (query.mapError .malformedRequest)
      A.query fun d => do
        let documents ←
          (d.listAccountsForOwner order user query.limit query.offset).mapError .python
        let accounts ← (documents.mapM AccountPublic.fromDocument).mapError .python
        pure (.accounts
          { accounts
            page := { limit := query.limit, offset := query.offset
                      returned := documents.length } })
  | .readAccount accountId => do
      let accountId ← .ofExcept (accountId.mapError .malformedRequest)
      A.query fun d => do
        let document ← (d.getOwnedAccountOrRaise accountId user).mapError .ledgerlock
        .account <$> (AccountPublic.fromDocument document).mapError .python
  | .readBalance accountId => do
      let accountId ← .ofExcept (accountId.mapError .malformedRequest)
      let document ← A.query fun d =>
        (d.getOwnedAccountOrRaise accountId user).mapError .ledgerlock
      A.query fun d => do
        let balance := computeBalance d document.id
        .balance <$> (balance.toResponse document.id document.currency computedAt).mapError .python
  | .readTransaction transactionId => do
      let transactionId ← .ofExcept (transactionId.mapError .malformedRequest)
      let document ← A.query fun d => pure (d.getTransaction transactionId)
      match document with
      | none => .raise (.transactionNotFound transactionId)
      | some document => A.query fun d => do
          let accounts ← (d.listAccountsForOwner order user maxPageSize 0).mapError .python
          let ownedAccountIds := accounts.map (·.id)
          if document.sourceAccountId ∈ ownedAccountIds ∨
              document.destinationAccountId ∈ ownedAccountIds then
            .transaction <$> (TransactionPublic.ofStored document).mapError .python
          else .error (.transactionNotFound transactionId)

end Reads

/-! ### The service -/

/-- The requests there are, and what they are served with. -/
structure Service (ν : Type) where
  requests : ν → ServiceRequest
  /-- `settings.supported_currencies` -/
  supportedCurrencies : List String
  /-- `settings.access_token_expire_minutes` -/
  accessTokenExpireMinutes : Nat
  /-- `str.lower` -/
  lower : String → String
  /-- What `EmailStr` makes of an address, if it does not refuse it. The addresses it makes it
  leaves as they are, so `UserPublic` shows those of the documents. -/
  emailStr : String → Option String
  /-- The order in which the server sorts for a request. -/
  order : ν → ServerSort
  /-- What a request reads from the clock for `computed_at` or `checked_at`. -/
  clock : ν → Timestamp
  lossy : Prop
  faulty : Prop

abbrev ServiceState (ν : Type) := AuthStore × ApiState ν

abbrev ServiceConfig (ν : Type) :=
  Config ν (ServiceState ν) (AuthInput × AccountStamp) ErrorEnvelope (Admission × BodyResult)

namespace Service

variable {ν : Type} [ServerSum] [DecidableEq ν] (S : Service ν)

/-- The write a request makes to the ledger, on behalf of the subject of its token; one
that makes none stands for one that is refused. -/
def write : ServiceRequest → ApiRequest
  | .authenticated (.bearer token) (.createAccount payload) => .createAccount token.sub payload
  | .authenticated (.bearer token) (.moveMoney header route) =>
      .moveMoney ⟨token.sub, header, route⟩
  | _ => .createAccount 0 (.invalid "")

/-- The writes, as requests with a valid token. -/
def api : Api ν where
  requests i := write (S.requests i)
  supportedCurrencies := S.supportedCurrencies
  lossy := S.lossy
  faulty := S.faulty

/-- Why a request is turned away at once, if it is. -/
def refusal (i : ν) : Option ErrorEnvelope := (S.requests i).refusal S.lower S.emailStr

/-- The email a registration is for, if it comes to that. -/
def userEmail (payload : UserRegisterRequest) : Option String :=
  payload.documentEmail S.lower S.emailStr

/-- What is in the ledger. -/
def db (s : ServiceState ν) : Database := S.api.db s.2

/-- What comes after the guard, for the user it has found. -/
def handle (i : ν) (user : ObjectId) :
    Endpoint → Prog (ApiState ν) AccountStamp ErrorEnvelope BodyResult
  | .logout | .readCurrentUser => .done .nothing
  | .createAccount payload =>
      (S.api.handler i (.createAccount user payload)).rename .handled ErrorResponse.envelope
  | .moveMoney header route =>
      (S.api.handler i (.moveMoney ⟨user, header, route⟩)).rename .handled ErrorResponse.envelope
  | .read route =>
      (route.program S.api (S.order i) (S.clock i) user).rename .read ReadError.envelope
  | .readReconciliation =>
      (S.api.query fun d => pure (d.report (S.clock i))).rename .report ReadError.envelope

/-- What is done once the guard has ended. -/
def proceed (i : ν) : ServiceRequest → Admission →
    Prog (ApiState ν) AccountStamp ErrorEnvelope BodyResult
  | .authenticated _ endpoint, .auth (.user user) => S.handle i user.id endpoint
  | _, _ => .done .nothing

variable [Bcrypt]

def program (i : ν) : Prog (ServiceState ν) (AuthInput × AccountStamp) ErrorEnvelope
    (Admission × BodyResult) :=
  match S.refusal i with
  | some e => .raise e
  | none =>
      .guarded AuthError.envelope
        ((S.requests i).guard S.accessTokenExpireMinutes S.lower S.emailStr)
        (S.proceed i (S.requests i))

def env : Env (ServiceState ν) (AuthInput × AccountStamp) := authEnv.prod S.api.env

/-- Nobody is registered, the database is empty, and every request is about to be served. -/
def start (now : Instant) : ServiceConfig ν where
  shared := (⟨now, [], [], []⟩, S.api.start.shared)
  prog := S.program

/-- A state that requests come to. -/
def Reached (c : ServiceConfig ν) : Prop :=
  ∃ now l, Interleave.Run S.env (S.start now) l c

/-- What request `i` has been answered. -/
inductive Responds (c : ServiceConfig ν) (i : ν) :
    Except ErrorEnvelope ServiceResponse → Prop
  | raised {e : ErrorEnvelope} : c.prog i = .raise e → Responds c i (.error e)
  | ended {admission : Admission} {result : BodyResult}
      {response : Except ErrorEnvelope ServiceResponse} :
      c.prog i = .done (admission, result) → result.response admission = some response →
      Responds c i response
  /-- The call it was waiting for has returned. -/
  | returned {admission : Admission} {args : TransferArgs} {r : Except Raised Reply} :
      c.prog i = .done (admission, .handled (.called args)) →
      S.api.deployment.Ends c.shared.2.ledger (i, args) r → Responds c i (callResponse r)

end Service

end Ledgerlock
