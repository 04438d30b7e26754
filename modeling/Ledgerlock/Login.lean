import Ledgerlock.Reads

/-!
# Ledgerlock.Login

What a login costs: `POST /auth/login` with the rounds that bcrypt works for it, from
`routes/auth.py` and the password functions of `core/security.py`.

`Ledgerlock.Security` has the same handler in the company of the other requests, without
the costs, and so without the verification whose result is thrown away.
-/

namespace Ledgerlock

/-- A result, and the rounds of bcrypt worked for it. -/
structure Worked (α : Type) where
  result : α
  rounds : Nat
  deriving Repr, DecidableEq

instance : Monad Worked where
  pure a := ⟨a, 0⟩
  bind w f := ⟨(f w.result).result, w.rounds + (f w.result).rounds⟩

/-- The setting `bcrypt_rounds`. -/
abbrev BcryptRounds := {n : Nat // 4 ≤ n ∧ n ≤ 16}

def BcryptRounds.default : BcryptRounds := ⟨12, by decide⟩

/-- The password of a registration. -/
abbrev Password := {s : String // 12 ≤ s.toList.length ∧ s.toList.length ≤ 72 ∧ s.toUTF8.size ≤ 72}

structure UserLoginRequest where
  email : String
  password : {s : String // 1 ≤ s.toList.length ∧ s.toList.length ≤ 1024}

/-- `gensalt(rounds)`, with the random bytes it draws. -/
structure Salt where
  rounds : Nat
  seed : String
  deriving Repr, DecidableEq

/-- `bcrypt`, the library. A hash names the cost it was made at. -/
class BcryptLibrary where
  /-- `hashpw`, of at most 72 bytes. -/
  hashpw : ByteArray → Salt → String
  /-- The cost a hash names, unless it is malformed. -/
  cost : String → Option Nat
  /-- Whether the password, hashed with the salt of the hash, gives the hash. -/
  recomputes : ByteArray → String → Bool
  cost_hashpw : ∀ password salt, cost (hashpw password salt) = some salt.rounds
  /-- No password opens every account. -/
  exists_other : ∀ (password : ByteArray) (rounds : BcryptRounds), password.size ≤ 72 →
    ∃ (other : Password) (seed : String),
      recomputes password (hashpw other.val.toUTF8 ⟨rounds, seed⟩) = false

section Passwords

variable [BcryptLibrary]

/-- `bcrypt.checkpw`: too long a password and a malformed hash are refused at once. -/
def checkpw (password : ByteArray) (hashedPassword : String) : Worked (Except PyError Bool) :=
  if 72 < password.size then pure (.error (.valueError "password cannot be longer than 72 bytes"))
  else
    match BcryptLibrary.cost hashedPassword with
    | none => pure (.error (.valueError "Invalid salt"))
    | some cost => ⟨.ok (BcryptLibrary.recomputes password hashedPassword), 2 ^ cost⟩

/-- `_DUMMY_HASH` -/
def dummyHash (token : ByteArray) (seed : String) : String := BcryptLibrary.hashpw token ⟨4, seed⟩

/-- `_hash_password_blocking` -/
def hashPasswordBlocking (plainPassword : String) (rounds : Nat) (seed : String) :
    Except PyError String :=
  if 72 < plainPassword.toUTF8.size then
    .error (.valueError "password exceeds bcrypt's 72-byte input limit")
  else .ok (BcryptLibrary.hashpw plainPassword.toUTF8 ⟨rounds, seed⟩)

/-- `_verify_password_blocking` -/
def verifyPasswordBlocking (plainPassword hashedPassword : String) : Worked Bool := do
  match ← checkpw plainPassword.toUTF8 hashedPassword with
  | .ok verified => pure verified
  | .error _ => pure false

/-- `waste_time_like_a_real_verification` -/
def wasteTimeLikeARealVerification (dummyHash plainPassword : String) : Worked Unit := do
  let _ ← verifyPasswordBlocking plainPassword dummyHash
  pure ()

/-- `login`, up to the token. -/
def authenticate (dummyHash : String) (users : List User) (payload : UserLoginRequest) :
    Worked (Except AuthError User) := do
  match users.find? fun u => u.email = payload.email with
  | none =>
      wasteTimeLikeARealVerification dummyHash payload.password
      pure (.error .invalidCredentials)
  | some user =>
      let verified ← verifyPasswordBlocking payload.password user.hashedPassword
      pure (if verified then .ok user else .error .invalidCredentials)

/-- What a client sees of a login: status and body, and how long bcrypt works. -/
structure LoginObservation where
  response : Except ErrorEnvelope AuthResponse
  rounds : Nat

def observeLogin (minutes : Nat) (dummyHash : String) (x : AuthInput) (s : AuthStore)
    (payload : UserLoginRequest) : LoginObservation :=
  let authenticated := authenticate dummyHash s.users payload
  { response :=
      match authenticated.result with
      | .error e => .error e.envelope
      | .ok user => .ok (.token (issueToken minutes user.id x s))
    rounds := authenticated.rounds }

/-- The two functions of the library that `Ledgerlock.Security` uses. -/
@[reducible] def BcryptLibrary.toBcrypt (rounds : BcryptRounds) : Bcrypt where
  hashpw seed password := BcryptLibrary.hashpw password.toUTF8 ⟨rounds, seed⟩
  checkpw password hashedPassword := (verifyPasswordBlocking password hashedPassword).result

/-- Without the costs it is the handler of `Ledgerlock.Security`. -/
theorem observeLogin_response (rounds : BcryptRounds) (minutes : Nat) (dummyHash : String)
    (x : AuthInput) (s : AuthStore) (payload : UserLoginRequest) :
    letI := BcryptLibrary.toBcrypt rounds
    ((login minutes payload.email payload.password).eval x s).1.mapError AuthError.envelope =
      (observeLogin minutes dummyHash x s payload).response := by
  simp only [login, Interleave.Prog.eval_bind, Interleave.Prog.eval_read, observeLogin,
    authenticate]
  cases s.users.find? fun u => u.email = payload.email with
  | none => rfl
  | some user =>
      have hcheck : (BcryptLibrary.toBcrypt rounds).checkpw payload.password user.hashedPassword =
          (verifyPasswordBlocking payload.password user.hashedPassword).result := rfl
      simp only [bind, pure, hcheck]
      cases (verifyPasswordBlocking payload.password user.hashedPassword).result with
      | false => rfl
      | true => rfl

end Passwords

end Ledgerlock
