import Ledgerlock.Login

/-!
# Ledgerlock.Spec.Enumeration

Whether a failed login tells that the email is registered: what a client observes of it
(`observeLogin`) with two collections of users, one that has the email and one that has
not.

Status and body are the same. The rounds are not: the hash that is verified for an
unknown email was made at cost 4, the others at the configured cost. So nothing is told
only if that is 4 as well, or if bcrypt refuses the password before it works
(`login_hides_registration_iff`).
-/

namespace Ledgerlock

section Accounts

variable [BcryptLibrary]

/-- Every stored hash was made at the configured cost. -/
def AuthStore.HashedAt (s : AuthStore) (rounds : BcryptRounds) : Prop :=
  ∀ u ∈ s.users, ∃ (password : Password) (seed : String),
    hashPasswordBlocking password rounds seed = .ok u.hashedPassword

def AuthStore.Unregistered (s : AuthStore) (email : String) : Prop :=
  ∀ u ∈ s.users, u.email ≠ email

/-- The email is registered, with a password other than this one. -/
def AuthStore.RegisteredOtherwise (s : AuthStore) (payload : UserLoginRequest) : Prop :=
  ∃ u, (s.users.find? fun u => u.email = payload.email) = some u ∧
    (verifyPasswordBlocking payload.password u.hashedPassword).result = false

/-- What is observed of a login is the same, whether the email is unknown or the password
is wrong. -/
def HidesRegistration (minutes : Nat) (rounds : BcryptRounds) (token : ByteArray) (seed : String)
    (payload : UserLoginRequest) : Prop :=
  ∀ x x' s s', s.HashedAt rounds → s'.HashedAt rounds → s.Unregistered payload.email →
    s'.RegisteredOtherwise payload →
    observeLogin minutes (dummyHash token seed) x s payload =
      observeLogin minutes (dummyHash token seed) x' s' payload

/-! ### The two ways a login fails -/

theorem hashPasswordBlocking_password (password : Password) (rounds : Nat) (seed : String) :
    hashPasswordBlocking password rounds seed =
      .ok (BcryptLibrary.hashpw password.val.toUTF8 ⟨rounds, seed⟩) := by
  rw [hashPasswordBlocking, if_neg (Nat.not_lt.mpr password.property.2.2)]

/-- Checking a password against a hash takes the rounds of the hash, unless the password is
too long. -/
theorem verifyPasswordBlocking_hashpw (plainPassword : String) (password : ByteArray)
    (salt : Salt) :
    verifyPasswordBlocking plainPassword (BcryptLibrary.hashpw password salt) =
      if 72 < plainPassword.toUTF8.size then ⟨false, 0⟩
      else ⟨BcryptLibrary.recomputes plainPassword.toUTF8 (BcryptLibrary.hashpw password salt),
        2 ^ salt.rounds⟩ := by
  unfold verifyPasswordBlocking checkpw
  rw [BcryptLibrary.cost_hashpw]
  split <;> rfl

variable {minutes : Nat} {x : AuthInput} {s : AuthStore} {payload : UserLoginRequest}

/-- An unknown email, and the work that is wasted on it. -/
theorem observeLogin_of_unregistered (dummyHash : String) (h : s.Unregistered payload.email) :
    observeLogin minutes dummyHash x s payload =
      ⟨.error AuthError.invalidCredentials.envelope,
        (verifyPasswordBlocking payload.password dummyHash).rounds⟩ := by
  have hnone : (s.users.find? fun u => u.email = payload.email) = none :=
    List.find?_eq_none.mpr fun u hu => by simpa using h u hu
  simp only [observeLogin, authenticate, hnone]
  rfl

/-- A wrong password, and the work that shows it. -/
theorem observeLogin_of_registeredOtherwise {u : User} (dummyHash : String)
    (hu : (s.users.find? fun u => u.email = payload.email) = some u)
    (hwrong : (verifyPasswordBlocking payload.password u.hashedPassword).result = false) :
    observeLogin minutes dummyHash x s payload =
      ⟨.error AuthError.invalidCredentials.envelope,
        (verifyPasswordBlocking payload.password u.hashedPassword).rounds⟩ := by
  simp only [observeLogin, authenticate, hu, bind, pure, hwrong]
  rfl

/-- A password that bcrypt takes is verified at the configured cost, and at the cost 4 of
the dummy hash. -/
theorem HidesRegistration.rounds_eq {rounds : BcryptRounds} {token : ByteArray} {seed : String}
    (h : HidesRegistration minutes rounds token seed payload)
    (hsize : ¬ 72 < payload.password.val.toUTF8.size) : rounds.val = 4 := by
  obtain ⟨other, seed', hother⟩ := BcryptLibrary.exists_other payload.password.val.toUTF8 rounds
    (Nat.not_lt.mp hsize)
  -- a collection with the email under another password, and an empty one
  let u : User := ⟨0, payload.email, BcryptLibrary.hashpw other.val.toUTF8 ⟨rounds, seed'⟩⟩
  have hverify : verifyPasswordBlocking payload.password u.hashedPassword =
      ⟨false, 2 ^ rounds.val⟩ := by
    rw [verifyPasswordBlocking_hashpw, if_neg hsize, hother]
  have hwrong : (verifyPasswordBlocking payload.password u.hashedPassword).result = false := by
    rw [hverify]
  have hhashed : AuthStore.HashedAt ⟨0, [u], [], []⟩ rounds := by
    intro v hv
    obtain rfl := List.mem_singleton.mp hv
    exact ⟨other, seed', hashPasswordBlocking_password _ _ _⟩
  have hu : ([u].find? fun v => v.email = payload.email) = some u := by
    simp [u]
  have hsame := h ⟨0, "", ""⟩ ⟨0, "", ""⟩ ⟨0, [], [], []⟩ ⟨0, [u], [], []⟩
    (fun v hv => by cases hv) hhashed (fun v hv => by cases hv) ⟨u, hu, hwrong⟩
  rw [observeLogin_of_unregistered _ (fun v hv => by cases hv),
    observeLogin_of_registeredOtherwise _ hu hwrong, hverify, dummyHash,
    verifyPasswordBlocking_hashpw, if_neg hsize] at hsame
  have hpow : 2 ^ 4 = 2 ^ rounds.val := congrArg LoginObservation.rounds hsame
  exact (Nat.pow_right_injective le_rfl hpow).symm

end Accounts

/-- A failed login tells nothing of whether the email is registered exactly if the
configured cost is that of the dummy hash, or the password is longer than bcrypt takes. -/
theorem login_hides_registration_iff [BcryptLibrary] (minutes : Nat) (rounds : BcryptRounds)
    (token : ByteArray) (seed : String) (payload : UserLoginRequest) :
    HidesRegistration minutes rounds token seed payload ↔
      rounds.val = 4 ∨ 72 < payload.password.val.toUTF8.size := by
  constructor
  · intro hhides
    by_cases hsize : 72 < payload.password.val.toUTF8.size
    · exact .inr hsize
    · exact .inl (hhides.rounds_eq hsize)
  · intro hcases x x' s s' _ hhashed hunregistered hregistered
    obtain ⟨u, hu, hwrong⟩ := hregistered
    obtain ⟨password, seed', hhash⟩ := hhashed u (List.mem_of_find?_eq_some hu)
    rw [hashPasswordBlocking_password] at hhash
    have hhash := Except.ok.inj hhash
    rw [observeLogin_of_unregistered _ hunregistered,
      observeLogin_of_registeredOtherwise _ hu hwrong, ← hhash, dummyHash,
      verifyPasswordBlocking_hashpw, verifyPasswordBlocking_hashpw]
    rcases hcases with hrounds | hlong
    · rw [hrounds]
      split <;> rfl
    · rw [if_pos hlong, if_pos hlong]

/-! ### A login at the default cost -/

namespace Example

def digest (password : ByteArray) : List Char :=
  password.data.toList.map fun b => Char.ofNat b.toNat

theorem length_digest (password : ByteArray) : (digest password).length = password.size := by
  rw [digest, List.length_map]
  rfl

theorem ne_dollar_of_mem_toDigits {n : Nat} : ∀ c ∈ Nat.toDigits 10 n, decide (c ≠ '$') = true := by
  intro c hc
  have hdigit := Nat.isDigit_of_mem_toDigits (by decide) (by decide) hc
  rw [decide_eq_true_eq]
  rintro rfl
  exact absurd hdigit (by decide)

/-- A hash is the cost and the password. -/
@[reducible] def bcrypt : BcryptLibrary where
  hashpw password salt := String.ofList (Nat.toDigits 10 salt.rounds ++ '$' :: digest password)
  cost hashed :=
    if '$' ∈ hashed.toList then
      some (Nat.ofDigitChars 10 (hashed.toList.takeWhile fun c => c ≠ '$') 0)
    else none
  recomputes password hashed :=
    (hashed.toList.dropWhile fun c => c ≠ '$') == '$' :: digest password
  cost_hashpw password salt := by
    rw [String.toList_ofList, if_pos (by simp),
      List.takeWhile_append_of_pos ne_dollar_of_mem_toDigits]
    simp [Nat.ofDigitChars_ten_toDigits]
  exists_other password rounds _ := by
    have hother : ∀ other : Password, other.val.toUTF8.size ≠ password.size →
        ∃ (other : Password) (seed : String),
          ((String.ofList (Nat.toDigits 10 (Salt.mk rounds seed).rounds ++
            '$' :: digest other.val.toUTF8)).toList.dropWhile (fun c => decide (c ≠ '$')) ==
            '$' :: digest password) = false := by
      intro other hsize
      refine ⟨other, "", ?_⟩
      rw [String.toList_ofList, List.dropWhile_append_of_pos ne_dollar_of_mem_toDigits]
      simp only [ne_eq, decide_not, beq_eq_false_iff_ne]
      intro h
      have hlength := congrArg List.length h
      simp [length_digest] at hlength
      exact hsize hlength
    by_cases hsize : password.size = 28
    · exact hother ⟨"another-password", by decide⟩ (by rw [hsize]; decide)
    · exact hother ⟨"correct-horse-battery-staple", by decide⟩ (fun h => hsize (h ▸ by decide))

/-- A user, with a hash made at this cost. -/
def ada (rounds : BcryptRounds) : User :=
  ⟨0, "ada@example.com", bcrypt.hashpw "correct-horse-battery-staple".toUTF8 ⟨rounds, ""⟩⟩

/-- A guess at her password. -/
def guess : UserLoginRequest := ⟨"ada@example.com", ⟨"wrong-password-here", by decide⟩⟩

def storeOf (l : List User) : AuthStore := ⟨0, l, [], []⟩

/-- 32 bytes. -/
def dummyToken : ByteArray := ⟨Array.replicate 32 7⟩

/-- What is seen when she, or nobody, has registered. -/
def observed (l : List User) : LoginObservation :=
  letI := bcrypt
  observeLogin 30 (dummyHash dummyToken "") ⟨0, "", ""⟩ (storeOf l) guess

/-- Bcrypt works 16 rounds when nobody is registered, and 4096 when she is. -/
theorem guess_reveals :
    letI := bcrypt
    (observed []).rounds = 16 ∧ (observed [ada .default]).rounds = 4096 ∧
      ¬ HidesRegistration 30 .default dummyToken "" guess := by
  let _ := bcrypt
  have hsize : ¬ 72 < guess.password.val.toUTF8.size := by decide
  refine ⟨by decide, by decide, fun h => ?_⟩
  exact absurd (h.rounds_eq hsize) (by decide)

/-- At the lowest cost the two cannot be told apart. -/
theorem guess_hidden : observed [] = observed [ada ⟨4, by decide⟩] := by
  let _ := bcrypt
  have hhides := (login_hides_registration_iff 30 ⟨4, by decide⟩ dummyToken "" guess).mpr (.inl rfl)
  refine hhides _ _ _ _ (fun u hu => by cases hu) (fun u hu => ?_) (fun u hu => by cases hu)
    ⟨ada _, rfl, by decide⟩
  obtain rfl := List.mem_singleton.mp hu
  exact ⟨⟨"correct-horse-battery-staple", by decide⟩, "", rfl⟩

end Example

end Ledgerlock
