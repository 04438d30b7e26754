import Ledgerlock.Spec.Provenance

/-!
# Ledgerlock.Spec.SignIn

Registering and logging in, in any company.

Of the registrations of one email one wins, and every other one is told that the email is
taken (`registered_once`). A login that comes after the registration has been answered finds
that user, and only the password decides (`login_after_registration`).
-/

namespace Ledgerlock

open Interleave (Config Post Prog Protocol Run)

/-! ### The requests of `auth.py` -/

/-- Users are kept apart, and users and tokens stay. -/
def usersProtocol : Protocol authEnv where
  inv := UsersInv
  rely s t := UsersGrow s t ∧ ∀ k ∈ s.signed, k ∈ t.signed
  rely_refl s := ⟨.of_eq rfl, fun _ hk => hk⟩
  rely_trans _ _ _ h h' :=
    ⟨⟨h.1.users.trans h'.1.users, fun hs => h'.1.inv (h.1.inv hs)⟩,
      fun k hk => h'.2 k (h.2 k hk)⟩
  inv_moves _ _ hs h := by
    cases h with
    | clock => exact ⟨hs.emails, hs.ids⟩
    | expire => exact ⟨hs.emails, hs.ids⟩
  rely_moves _ _ _ h := by
    cases h with
    | clock => exact ⟨.of_eq rfl, fun _ hk => hk⟩
    | expire => exact ⟨.of_eq rfl, fun _ hk => hk⟩

/-- Nobody else has the email of a user. -/
theorem UsersInv.find_eq {s : AuthStore} (h : UsersInv s) {u : User} (hu : u ∈ s.users) :
    (s.users.find? fun v => v.email = u.email) = some u := by
  cases hfind : s.users.find? fun v => v.email = u.email with
  | none => exact absurd (decide_eq_true rfl) (List.find?_eq_none.mp hfind u hu)
  | some v =>
      have hemail : v.email = u.email := by simpa using List.find?_some hfind
      rw [List.inj_on_of_nodup_map h.emails (List.mem_of_find?_eq_some hfind) hu hemail]

section Requests

variable [Bcrypt] {minutes : Nat}

/-- What the login of a user comes to is a matter of the password. -/
def loginPost (s : AuthStore) (u : User) (password : String) :
    Post AuthStore AuthError AuthResponse where
  done response _ := Bcrypt.checkpw password u.hashedPassword = true ∧
    ∃ token, response = .token token ∧ token.sub = u.id ∧ token ∉ s.signed
  raise e _ := Bcrypt.checkpw password u.hashedPassword = false ∧ e = .invalidCredentials

theorem login_wp {s : AuthStore} {u : User} (hs : UsersInv s) (hu : u ∈ s.users)
    (password : String) : (login minutes u.email password).wp usersProtocol (fun _ _ => True)
      (loginPost s u password) s := by
  refine Prog.wp_bind hs (Prog.wp_read (fun _ => trivial) fun t hst ht v htv hv => ?_)
  rw [Post.andThen_done, ht.find_eq (hst.1.users.subset hu)]
  by_cases hcheck : Bcrypt.checkpw password u.hashedPassword = true
  · simp only [hcheck, if_true]
    intro w x hvw hw hx
    refine ⟨trivial, ⟨hw.emails, hw.ids⟩, fun _ _ _ => ⟨hcheck, _, rfl, rfl, fun hold => ?_⟩⟩
    -- the token is a new one
    exact hx.1 _ (hvw.2 _ (htv.2 _ (hst.2 _ hold))) rfl
  · simp only [hcheck]
    exact fun _ _ _ => ⟨by simpa using hcheck, rfl⟩

/-- A registration is answered with a token, if it is not turned down. -/
theorem register_every (minutes : Nat) (email password : String) :
    ((AuthRequest.register email password).program minutes).Every (fun _ _ => True)
      fun response => ∃ token, response = .token token := by
  refine ⟨trivial, fun x s => ?_⟩
  dsimp only
  split
  · trivial
  · exact ⟨trivial, fun _ _ => ⟨_, rfl⟩⟩

variable {ν : Type} [DecidableEq ν] {requests : ν → AuthRequest} {s₀ : AuthStore}
  {l l' : List (Option ν)} {i j : ν}
  {c d : Config ν AuthStore AuthInput AuthError AuthResponse}

/-- Requests keep to it. -/
theorem users_kept (h₀ : AuthInv s₀) (h : Run authEnv (authStart minutes requests s₀) l c)
    (h' : Run authEnv c l' d) : usersProtocol.rely c.shared d.shared :=
  ⟨users_grow h h', (Run.sound (fun _ _ _ _ hG => hG) (auth_sound h₀ h) h').2.signed⟩

/-- What a login comes to is settled when it comes after the user. -/
theorem login_of_run (h₀ : AuthInv s₀) (hs₀ : UsersInv s₀)
    (h : Run authEnv (authStart minutes requests s₀) l c) {u : User} {password : String}
    (hu : u ∈ c.shared.users) (hi : c.prog i = login minutes u.email password)
    (h' : Run authEnv c l' d) :
    (d.prog i).wp usersProtocol (fun _ _ => True) (loginPost c.shared u password) d.shared := by
  have hinv {l : List (Option ν)} {e : Config ν AuthStore AuthInput AuthError AuthResponse}
      (he : Run authEnv (authStart minutes requests s₀) l e) : UsersInv e.shared :=
    (users_grow .nil he).inv hs₀
  refine h'.wp_of_keeps (fun l e he => hinv (h.trans he)) (fun l e m e' he hstep _ => ?_) ?_
  · exact users_kept h₀ (h.trans he) (.concat .nil hstep)
  · rw [hi]
    exact login_wp (hinv h) hu password

/-- Who does not win an email is told that it is taken. -/
theorem taken_of_ne (h₀ : AuthInv s₀) (h : Run authEnv (authStart minutes requests s₀) l c)
    {email password password' : String} {userId : ObjectId}
    (hi : requests i = .register email password) (hwon : Registers minutes userId (c.prog i))
    (hj : requests j = .register email password') (hne : j ≠ i) (hended : (c.prog j).Ended) :
    c.prog j = .raise .emailAlreadyRegistered := by
  have hprogram : (c.prog j).Every (fun _ _ => True) fun response => ∃ t, response = .token t := by
    refine h.every ?_
    show ((requests j).program minutes).Every _ _
    rw [hj]
    exact register_every minutes email password'
  generalize hp : c.prog j = p at hended hprogram
  cases hended with
  | done response =>
      obtain ⟨token, rfl⟩ := hprogram
      exact absurd (winner_unique h hj hi (.inr ⟨token, hp, rfl⟩) hwon) hne
  | raise e =>
      have hfails := (answers_of_run h₀ h).of_raise hp
      rw [hj] at hfails
      rw [hfails.1]

end Requests

/-! ### The service -/

namespace Service

/-- A token is what its request has come to. -/
theorem AuthAnswer.token_of_ok {p : AuthProg AuthResponse} {token : AccessToken}
    (h : AuthAnswer p (.ok (.token token))) : p = .done (.token token) := by
  generalize hresponse : Except.ok (ServiceResponse.token token) = r at h
  cases h with
  | @done response _ hr =>
      rw [← hresponse] at hr
      cases response <;> cases hr
      rfl
  | raise => cases hresponse

theorem AuthAnswer.ended {p : AuthProg AuthResponse} {r : Except ErrorEnvelope ServiceResponse}
    (h : AuthAnswer p r) : p.Ended := by
  cases h with
  | done => exact .done _
  | raise => exact .raise _

variable {ν : Type} [ServerSum] [DecidableEq ν] {S : Service ν} [Bcrypt] {c d : ServiceConfig ν}
  {now : Instant} {l : List (Option ν)} {i j : ν}
  {g : Config ν AuthStore AuthInput AuthError Admission}
  {q : Config ν (ApiState ν) AccountStamp ErrorEnvelope BodyResult}
  {a : Config ν AuthStore AuthInput AuthError AuthResponse}
  {b : Config ν (ApiState ν) AccountStamp ErrorResponse Api.Handled}

section Register

variable {payload : UserRegisterRequest} {email : String}

omit [ServerSum] [DecidableEq ν] [Bcrypt] in
theorem register_of_authRequests {password : String}
    (h : S.authRequests i = .register email password) : ∃ payload : UserRegisterRequest,
      S.requests i = .register (.valid payload) ∧ S.userEmail payload = some email ∧
        password = payload.password := by
  unfold authRequests ServiceRequest.authRequest at h
  split at h
  · rename_i payload hrequest
    split at h
    · cases h
    · rename_i email' hemail
      obtain ⟨rfl, rfl⟩ := AuthRequest.register.inj h
      exact ⟨payload, hrequest, hemail, rfl⟩
  all_goals cases h

omit [ServerSum] [DecidableEq ν] [Bcrypt] in
theorem authRequests_register (hi : S.requests i = .register (.valid payload))
    (hemail : S.userEmail payload = some email) :
    S.authRequests i = .register email payload.password := by
  rw [userEmail] at hemail
  simp [authRequests, ServiceRequest.authRequest, hi, hemail]

omit [ServerSum] [DecidableEq ν] [Bcrypt] in
theorem refusal_register (hi : S.requests i = .register (.valid payload)) : S.refusal i =
    match S.userEmail payload with
    | none => some handleUnexpectedError.envelope
    | some _ => none := by
  rw [refusal, hi]
  rfl

/-- A request that is turned away at once is answered so. -/
theorem Parts.responds_refused (h : S.Parts now c g q a b) {e : ErrorEnvelope}
    (hi : S.refusal i = some e) {r : Except ErrorEnvelope ServiceResponse}
    (hr : S.Responds c i r) : r = .error e := by
  have hstage := h.splits.stage i
  have hresult := h.splits.result i
  cases hr with
  | raised hraise =>
      rw [hraise] at hstage
      rcases hstage.of_raise hresult with hrefused | ⟨hnone, -⟩
      · rw [Option.some.inj (hi.symm.trans hrefused)]
      · cases hi.symm.trans hnone
  | @ended admission result _ hdone =>
      rw [hdone] at hstage
      cases hi.symm.trans (hstage.of_done hresult).1
  | returned hdone =>
      rw [hdone] at hstage
      cases hi.symm.trans (hstage.of_done hresult).1

/-- A registration whose address is not refused is answered what `register` comes to. -/
theorem Parts.responds_register (h : S.Parts now c g q a b)
    (hi : S.requests i = .register (.valid payload)) (hemail : S.userEmail payload = some email)
    {r : Except ErrorEnvelope ServiceResponse} :
    S.Responds c i r ↔ AuthAnswer (a.prog i) r := by
  refine h.responds_iff ?_ (by rw [bodyOf, hi])
  rintro (hrefused | ⟨token, hrequest⟩)
  · exact hrefused (by rw [refusal_register hi, hemail])
  · cases hi.symm.trans hrequest

end Register

/-- A valid login is answered what `login` comes to. -/
theorem Parts.responds_login (h : S.Parts now c g q a b) {payload : UserLoginRequest}
    (hi : S.requests i = .login (.valid payload)) {r : Except ErrorEnvelope ServiceResponse} :
    S.Responds c i r ↔ AuthAnswer (a.prog i) r := by
  refine h.responds_iff ?_ (by rw [bodyOf, hi])
  rintro (hrefused | ⟨token, hrequest⟩)
  · exact hrefused (by rw [refusal, hi]; rfl)
  · cases hi.symm.trans hrequest

/-- Once a registration is answered there is a user with its email. -/
theorem Parts.user_of_register (h : S.Parts now c g q a b) {payload : UserRegisterRequest}
    {email : String} (hi : S.requests i = .register (.valid payload))
    (hemail : S.userEmail payload = some email) {r : Except ErrorEnvelope ServiceResponse}
    (hr : S.Responds c i r) : ∃ u ∈ c.shared.1.users, u.email = email := by
  obtain ⟨l, hauth⟩ := h.auth
  have hended := ((h.responds_register hi hemail).mp hr).ended
  have hregister := authRequests_register hi hemail
  have hsound := answers_of_run (authInv_of_unused rfl rfl) hauth
  generalize hp : a.prog i = p at hended
  rw [← h.store]
  cases hended with
  | done response =>
      have hprogram := hauth.every (i := i) (A := fun _ _ => True)
        (D := fun response => ∃ t, response = .token t) (by
          show ((S.authRequests i).program _).Every _ _
          rw [hregister]
          exact register_every _ _ _)
      rw [hp] at hprogram
      obtain ⟨token, rfl⟩ := hprogram
      have hanswers := hsound.of_done hp
      rw [hregister] at hanswers
      obtain ⟨-, u, hu, -, huser, -⟩ := hanswers
      exact ⟨u, hu, huser⟩
  | raise e =>
      have hfails := hsound.of_raise hp
      rw [hregister] at hfails
      exact hfails.2

/-- Every user is the one of one registration, which is answered with a token for them, and
the other registrations of the email with an error. And once one is answered there is a
user, unless its address was refused the second time. -/
theorem registered_once (h : S.Reached c) :
    (∀ u ∈ c.shared.1.users, ∃ i payload, S.requests i = .register (.valid payload) ∧
      S.userEmail payload = some u.email ∧
      (∃ salt, u.hashedPassword = Bcrypt.hashpw salt payload.password) ∧
      (∀ r, S.Responds c i r → ∃ token, r = .ok (.token token) ∧ token.sub = u.id) ∧
      ∀ j payload' r, j ≠ i → S.requests j = .register (.valid payload') →
        S.userEmail payload' = some u.email → S.Responds c j r →
        r = .error AuthError.emailAlreadyRegistered.envelope) ∧
    ∀ i payload r, S.requests i = .register (.valid payload) → S.Responds c i r →
      (∃ u ∈ c.shared.1.users, S.userEmail payload = some u.email) ∨
        S.userEmail payload = none ∧ r = .error handleUnexpectedError.envelope := by
  obtain ⟨now, g, q, a, b, hparts⟩ := h.parts
  obtain ⟨l, hauth⟩ := hparts.auth
  refine ⟨fun u hu => ?_, fun i payload r hi hr => ?_⟩
  · rw [← hparts.store] at hu
    obtain ⟨i, password, hi, hhash, hwon⟩ := user_registered rfl hauth hu
    obtain ⟨payload, hrequest, hemail, rfl⟩ := register_of_authRequests hi
    refine ⟨i, payload, hrequest, hemail, hhash, fun r hr => ?_,
      fun j payload' r hne hj hsame hr => ?_⟩
    · have hanswer := (hparts.responds_register hrequest hemail).mp hr
      rcases hwon with hissue | ⟨token, hdone, hsub⟩
      · rw [hissue] at hanswer
        cases hanswer.ended
      · rw [hdone] at hanswer
        cases hanswer with
        | done hresponse => exact ⟨token, (Option.some.inj hresponse).symm, hsub⟩
    · have hanswer := (hparts.responds_register hj hsame).mp hr
      rw [taken_of_ne (authInv_of_unused rfl rfl) hauth hi hwon (authRequests_register hj hsame)
        hne hanswer.ended] at hanswer
      cases hanswer
      rfl
  · cases hemail : S.userEmail payload with
    | none =>
        have hrefused : S.refusal i = some handleUnexpectedError.envelope := by
          rw [refusal_register hi, hemail]
        exact .inr ⟨rfl, hparts.responds_refused hrefused hr⟩
    | some email =>
        obtain ⟨u, hu, rfl⟩ := hparts.user_of_register hi hemail hr
        exact .inl ⟨u, hu, rfl⟩

/-- Who has been answered the registration can log in, with the password and whatever else
comes to the email that was registered, and is the same user; and nobody can with another
password. -/
theorem login_after_registration (h : S.Waiting c j) {payload : UserRegisterRequest}
    {payload' : UserLoginRequest} {token : AccessToken}
    (hi : S.requests i = .register (.valid payload)) (htoken : S.Responds c i (.ok (.token token)))
    (hj : S.requests j = .login (.valid payload'))
    (hemail : S.userEmail payload = some (normaliseEmail S.lower payload'.email))
    (hrun : Run S.env c l d) {r : Except ErrorEnvelope ServiceResponse} (hr : S.Responds d j r) :
    ∃ salt, if Bcrypt.checkpw payload'.password (Bcrypt.hashpw salt payload.password) then
        ∃ issued, r = .ok (.token issued) ∧ issued.sub = token.sub ∧
          issued ∉ c.shared.1.signed
      else r = .error AuthError.invalidCredentials.envelope := by
  obtain ⟨now, g, q, a, b, hparts, hwaiting, -⟩ := h.parts
  obtain ⟨l₀, hauth⟩ := hparts.auth
  obtain ⟨-, g', -, q', l₃, a', -, b', hparts', -, -, hauth', -, -⟩ := hparts.extend hrun
  have h₀ : AuthInv (unused now) := authInv_of_unused rfl rfl
  -- the user of the registration
  have hdone := AuthAnswer.token_of_ok ((hparts.responds_register hi hemail).mp htoken)
  have hanswers := (answers_of_run h₀ hauth).of_done hdone
  rw [authRequests_register hi hemail] at hanswers
  obtain ⟨-, u, hu, hid, huemail, salt, hhash⟩ := hanswers
  have hprogram : a.prog j = login S.accessTokenExpireMinutes u.email payload'.password := by
    rw [hwaiting, authRequests, hj, huemail]
    rfl
  have hwp := login_of_run h₀ ⟨List.nodup_nil, List.nodup_nil⟩ hauth hu hprogram hauth'
  have hinv : UsersInv a'.shared :=
    (users_grow .nil (hauth.trans hauth')).inv ⟨List.nodup_nil, List.nodup_nil⟩
  have hanswer := (hparts'.responds_login hj).mp hr
  refine ⟨salt, ?_⟩
  rw [← hhash]
  generalize a'.prog j = p at hwp hanswer
  cases hanswer with
  | done hresponse =>
      obtain ⟨hcheck, issued, rfl, hsub, hnew⟩ := hwp _ (usersProtocol.rely_refl _) hinv
      rw [if_pos hcheck]
      exact ⟨issued, (Option.some.inj hresponse).symm, hsub.trans hid, hparts.store ▸ hnew⟩
  | raise e =>
      obtain ⟨hcheck, rfl⟩ := hwp _ (usersProtocol.rely_refl _) hinv
      rw [if_neg (by simp [hcheck])]

end Service

section Example

open Example

/-- Alice's registration. -/
theorem registered_once_served : ∃ c : ServiceConfig Nat, bank.Reached c ∧
    ∃ i payload, bank.requests i = .register (.valid payload) ∧
      bank.userEmail payload = some aliceRecord.email ∧
      ∀ r, bank.Responds c i r → ∃ token, r = .ok (.token token) ∧ token.sub = 11 := by
  obtain ⟨c, -, -, hc, -, hstore, -⟩ := served
  have halice : aliceRecord ∈ c.shared.1.users := by
    rw [hstore]
    exact List.mem_singleton_self _
  obtain ⟨i, payload, hi, hemail, -, htold, -⟩ := (Service.registered_once hc).1 _ halice
  exact ⟨c, hc, i, payload, hi, hemail, htold⟩

/-- She logs in when she has registered. -/
theorem signedIn : ∃ (c d : ServiceConfig Nat) (l l' : List (Option Nat)),
    Run bank.env (bank.start 0) l c ∧ some 4 ∉ l ∧ Run bank.env c l' d ∧
    bank.Responds c 3 (.ok (.token aliceToken)) ∧
    bank.Responds d 4 (.ok (.token { aliceToken with jti := "alice-0002" })) := by
  refine ⟨_, _, _, _,
    .concat (.concat .nil (.act (i := 3) (x := (⟨11, "", ""⟩, ⟨0, 0, 0⟩)) rfl ⟨?_, ?_⟩))
      (.act (i := 3) (x := (⟨0, "alice-0001", ""⟩, ⟨0, 0, 0⟩)) rfl ⟨?_, ?_⟩), ?_,
    .concat (.concat .nil (.act (i := 4) (x := (⟨0, "", ""⟩, ⟨0, 0, 0⟩)) rfl ⟨?_, ?_⟩))
      (.act (i := 4) (x := (⟨0, "alice-0002", ""⟩, ⟨0, 0, 0⟩)) rfl ⟨?_, ?_⟩),
    .ended rfl rfl, .ended rfl rfl⟩
  all_goals first
    | exact bank.api.unused_start 0
    | decide

/-- Alice logs in once her registration has been answered. -/
theorem login_after_registration_served : ∃ (c d : ServiceConfig Nat) (l : List (Option Nat))
    (r : Except ErrorEnvelope ServiceResponse), bank.Waiting c 4 ∧
      bank.Responds c 3 (.ok (.token aliceToken)) ∧ Run bank.env c l d ∧ bank.Responds d 4 r ∧
      ∃ issued, r = .ok (.token issued) ∧ issued.sub = 11 ∧ issued ∉ c.shared.1.signed := by
  obtain ⟨c, d, l, l', hrun, hl, hrun', htold, hanswer⟩ := signedIn
  have hwaiting : bank.Waiting c 4 := ⟨0, l, hrun, hl⟩
  have hregister : bank.requests 3 = .register (.valid ⟨"alice@example.com", alicePassword⟩) := rfl
  have hlogin : bank.requests 4 =
      .login (.valid ⟨"alice@example.com", alicePassword.val, by decide⟩) := rfl
  obtain ⟨salt, hissued⟩ :=
    Service.login_after_registration hwaiting hregister htold hlogin rfl hrun' hanswer
  have hcheck : Bcrypt.checkpw alicePassword.val (Bcrypt.hashpw salt alicePassword.val) = true :=
    beq_self_eq_true _
  rw [if_pos hcheck] at hissued
  exact ⟨c, d, l', _, hwaiting, htold, hrun', hanswer, hissued⟩

end Example

end Ledgerlock
