import Ledgerlock.Interleave.Run
import Ledgerlock.Models

/-!
# Ledgerlock.Security

Access tokens and their revocation: `app/core/security.py`, and the requests of
`app/routes/auth.py`, as programs whose every visit to the clock or to the database is
one action of its own. Between two of them other requests act, time passes, and the
TTL index on `revoked_tokens` deletes what it likes of the records that are due.

Clock readings are in microseconds, as a `datetime` has them; a stored date has
milliseconds, and the claims of a token have seconds.
-/

namespace Ledgerlock

open Interleave (Prog Env Config)

/-- An instant, in microseconds. -/
abbrev Instant := Nat

/-- `int(instant.timestamp())` -/
def Instant.toSeconds (t : Instant) : Nat := t / 1000000

/-- A date as BSON stores it, in milliseconds. -/
def Instant.toDate (t : Instant) : Nat := t / 1000

/-- The claims of a signed access token. -/
structure AccessToken where
  sub : ObjectId
  jti : String
  iat : Nat
  exp : Nat
  deriving Repr, DecidableEq

/-- `datetime.fromtimestamp(int(payload["exp"]))` -/
def AccessToken.expiresAt (token : AccessToken) : Instant := token.exp * 1000000

/-- A document of `users`. -/
structure User where
  id : ObjectId
  email : String
  hashedPassword : String
  deriving Repr, DecidableEq

/-- A document of `revoked_tokens`. -/
structure RevokedToken where
  jti : String
  userId : ObjectId
  expiresAt : Nat
  revokedAt : Nat
  deriving Repr, DecidableEq

/-- What the requests share: the clock, the two collections, and the tokens that
carry a signature because `create_access_token` put it there. -/
structure AuthStore where
  now : Instant
  users : List User
  signed : List AccessToken
  revokedTokens : List RevokedToken
  deriving Repr, DecidableEq

/-- The random choices: an `_id` of the driver's, a `jti`, bcrypt's salt. -/
structure AuthInput where
  insertedId : ObjectId
  jti : String
  salt : String
  deriving Repr, DecidableEq

inductive AuthError
  | unauthenticated (message : String)
  | tokenExpired
  | tokenRevoked
  | invalidCredentials
  | emailAlreadyRegistered
  deriving Repr, DecidableEq

abbrev AuthProg (α : Type) := Prog AuthStore AuthInput AuthError α

/-- `bcrypt`. -/
class Bcrypt where
  hashpw : String → String → String
  checkpw : String → String → Bool

/-! ### Tokens -/

/-- The payload of a new token, `minutes` being the setting
`access_token_expire_minutes`. -/
def issueToken (minutes : Nat) (userId : ObjectId) (x : AuthInput) (s : AuthStore) :
    AccessToken where
  sub := userId
  jti := x.jti
  iat := Instant.toSeconds s.now
  exp := Instant.toSeconds (s.now + minutes * 60000000)

/-- `create_access_token` -/
def createAccessToken (minutes : Nat) (userId : ObjectId) : AuthProg AccessToken :=
  .act (fun x s => { s with signed := issueToken minutes userId x s :: s.signed })
    fun x s => .done (issueToken minutes userId x s)

/-- `decode_access_token`: the signature, then the expiry. -/
def decodeAccessToken (token : AccessToken) : AuthProg Unit :=
  .act (fun _ s => s) fun _ s =>
    if token ∉ s.signed then .raise (.unauthenticated "Access token is invalid.")
    else if token.expiresAt ≤ s.now then .raise .tokenExpired
    else .done ()

/-- `is_token_revoked` -/
def isTokenRevoked (jti : String) : AuthProg Bool :=
  Prog.read fun s => s.revokedTokens.any fun r => r.jti = jti

/-- `revoke_token`: an upsert that sets nothing on a record that is there. -/
def AuthStore.revoke (s : AuthStore) (jti : String) (userId : ObjectId) (expiresAt : Instant) :
    AuthStore :=
  if s.revokedTokens.any fun r => r.jti = jti then s
  else
    { s with
      revokedTokens := s.revokedTokens ++
        [{ jti, userId, expiresAt := expiresAt.toDate, revokedAt := s.now.toDate }] }

def revokeToken (jti : String) (userId : ObjectId) (expiresAt : Instant) : AuthProg Unit :=
  .act (fun _ s => s.revoke jti userId expiresAt) fun _ _ => .done ()

structure AuthenticatedUser where
  id : ObjectId
  email : String
  jti : String
  tokenExpiresAt : Instant
  deriving Repr, DecidableEq

/-- `get_current_user`, given a Bearer header. -/
def getCurrentUser (token : AccessToken) : AuthProg AuthenticatedUser := do
  decodeAccessToken token
  let revoked ← isTokenRevoked token.jti
  if revoked then Prog.raise .tokenRevoked
  else
    let userDocument ← Prog.read fun s => s.users.find? fun u => u.id = token.sub
    match userDocument with
    | none => Prog.raise (.unauthenticated "Access token is invalid.")
    | some user =>
        pure { id := token.sub, email := user.email, jti := token.jti,
               tokenExpiresAt := token.expiresAt }

/-! ### Requests (`auth.py`) -/

inductive AuthRequest
  | register (email password : String)
  | login (email password : String)
  | logout (token : AccessToken)
  /-- Any request that depends on `get_current_user`. -/
  | authenticated (token : AccessToken)
  deriving Repr, DecidableEq

inductive AuthResponse
  | token (issued : AccessToken)
  | loggedOut
  | user (user : AuthenticatedUser)
  deriving Repr, DecidableEq

section Requests

variable [Bcrypt]

/-- The insert of `register`, with the email of its `UserDocument`; `users.email` is unique.
It is answered at once, and does not fail otherwise. -/
def insertUser (email password : String) : AuthProg ObjectId :=
  .act
    (fun x s =>
      if s.users.any fun u => u.email = email then s
      else
        { s with
          users := s.users ++
            [{ id := x.insertedId, email, hashedPassword := Bcrypt.hashpw x.salt password }] })
    fun x s =>
      if s.users.any fun u => u.email = email then .raise .emailAlreadyRegistered
      else .done x.insertedId

def register (minutes : Nat) (email password : String) : AuthProg AuthResponse := do
  let insertedId ← insertUser email password
  let issued ← createAccessToken minutes insertedId
  pure (.token issued)

def login (minutes : Nat) (email password : String) : AuthProg AuthResponse := do
  let userDocument ← Prog.read fun s => s.users.find? fun u => u.email = email
  match userDocument with
  | none => Prog.raise .invalidCredentials
  | some user =>
      if Bcrypt.checkpw password user.hashedPassword then
        let issued ← createAccessToken minutes user.id
        pure (.token issued)
      else Prog.raise .invalidCredentials

def logout (token : AccessToken) : AuthProg AuthResponse := do
  let user ← getCurrentUser token
  revokeToken user.jti user.id user.tokenExpiresAt
  pure .loggedOut

def AuthRequest.program (minutes : Nat) : AuthRequest → AuthProg AuthResponse
  | register email password => Ledgerlock.register minutes email password
  | login email password => Ledgerlock.login minutes email password
  | logout token => Ledgerlock.logout token
  | authenticated token => do
      let user ← getCurrentUser token
      pure (.user user)

end Requests

/-- What moves besides the requests. -/
inductive AuthMoves (s : AuthStore) : AuthStore → Prop
  | clock {t : Instant} : s.now ≤ t → AuthMoves s { s with now := t }
  /-- `ttl_expires_at`, with `expireAfterSeconds=0`. -/
  | expire {r : RevokedToken} : r.expiresAt * 1000 ≤ s.now →
      AuthMoves s { s with revokedTokens := s.revokedTokens.erase r }

/-- Random values do not repeat. -/
def authEnv : Env AuthStore AuthInput where
  offers s x := (∀ t ∈ s.signed, t.jti ≠ x.jti) ∧ ∀ u ∈ s.users, u.id ≠ x.insertedId
  moves := AuthMoves

instance (s : AuthStore) (x : AuthInput) : Decidable (authEnv.offers s x) :=
  inferInstanceAs (Decidable ((∀ t ∈ s.signed, t.jti ≠ x.jti) ∧
    ∀ u ∈ s.users, u.id ≠ x.insertedId))

/-- Any requests, about to be made. -/
def authStart [Bcrypt] {ν : Type} (minutes : Nat) (requests : ν → AuthRequest) (s : AuthStore) :
    Config ν AuthStore AuthInput AuthError AuthResponse where
  shared := s
  prog i := (requests i).program minutes

end Ledgerlock
