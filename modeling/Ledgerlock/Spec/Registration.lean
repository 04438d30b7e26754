import Ledgerlock.Spec.Tokens
import Mathlib.Data.List.Nodup

/-!
# Ledgerlock.Spec.Registration

Who is registered, and whose tokens there are.

`AuthAction` says once what an action of a request can be, and everything here is read
off it: a user has been inserted by the one registration that has won its email
(`user_registered`, `winner_unique`), and a token has been signed for a registration or for
a login whose password was the right one (`token_issued`, `proves_of_issued`).
-/

namespace Ledgerlock

open Interleave (Config Post Prog Protocol Run)

/-! ### The users -/

/-- Users are told apart by their email, and by their id. -/
structure UsersInv (s : AuthStore) : Prop where
  emails : (s.users.map (·.email)).Nodup
  ids : (s.users.map (·.id)).Nodup

/-- Users stay, in the order they came, and a new one is unlike the others. -/
structure UsersGrow (s t : AuthStore) : Prop where
  users : s.users <+: t.users
  inv : UsersInv s → UsersInv t

theorem UsersGrow.of_eq {s t : AuthStore} (h : t.users = s.users) : UsersGrow s t :=
  ⟨h ▸ List.prefix_rfl, fun hs => ⟨h ▸ hs.emails, h ▸ hs.ids⟩⟩

theorem AuthStore.revoke_frame (s : AuthStore) (jti : String) (userId : ObjectId)
    (expiresAt : Instant) : (s.revoke jti userId expiresAt).users = s.users ∧
      (s.revoke jti userId expiresAt).signed = s.signed := by
  unfold revoke
  split <;> exact ⟨rfl, rfl⟩

/-! ### What a request does -/

/-- The user is the one the token names. -/
theorem getCurrentUser_named {token : AccessToken}
    {A : (AuthInput → AuthStore → AuthStore) →
      (AuthInput → AuthStore → AuthProg AuthenticatedUser) → Prop}
    (hA : ∀ k, A (fun _ s => s) k) : (getCurrentUser token).Every A fun user =>
      user.id = token.sub ∧ user.jti = token.jti ∧ user.tokenExpiresAt = token.expiresAt := by
  refine Prog.Every.bind (B := fun _ => True) ⟨fun _ => hA _, fun x s => ?_⟩ fun _ _ => ?_
  · dsimp only
    split_ifs <;> trivial
  refine Prog.Every.bind (B := fun _ => True) ⟨fun _ => hA _, fun _ _ => trivial⟩
    fun revoked _ => ?_
  split_ifs
  · trivial
  refine Prog.Every.bind (B := fun _ => True) ⟨fun _ => hA _, fun _ _ => trivial⟩
    fun user _ => ?_
  cases user with
  | none => trivial
  | some user => exact ⟨rfl, rfl, rfl⟩

section Actions

variable [Bcrypt] {minutes : Nat} {request : AuthRequest}

/-- The last lines of `register` and of `login`. -/
def issue (minutes : Nat) (userId : ObjectId) : AuthProg AuthResponse := do
  let issued ← createAccessToken minutes userId
  pure (.token issued)

def newUser (email password : String) (x : AuthInput) : User where
  id := x.insertedId
  email := email
  hashedPassword := Bcrypt.hashpw x.salt password

/-- An action of a request, with what follows it. -/
inductive AuthAction (minutes : Nat) (request : AuthRequest) :
    (AuthInput → AuthStore → AuthStore) → (AuthInput → AuthStore → AuthProg AuthResponse) → Prop
  | read {k : AuthInput → AuthStore → AuthProg AuthResponse} :
      (∀ email password, request ≠ .register email password) →
      AuthAction minutes request (fun _ s => s) k
  | insert {email password : String} {f : AuthInput → AuthStore → AuthStore}
      {k : AuthInput → AuthStore → AuthProg AuthResponse} :
      request = .register email password →
      (∀ x s, (∃ u ∈ s.users, u.email = email) →
        f x s = s ∧ k x s = .raise .emailAlreadyRegistered) →
      (∀ x s, (¬ ∃ u ∈ s.users, u.email = email) →
        f x s = { s with users := s.users ++ [newUser email password x] } ∧
          k x s = issue minutes x.insertedId) →
      AuthAction minutes request f k
  | issue (userId : ObjectId) :
      AuthAction minutes request
        (fun x s => { s with signed := issueToken minutes userId x s :: s.signed })
        fun x s => .done (.token (issueToken minutes userId x s))
  | revoke {token : AccessToken} : request = .logout token →
      AuthAction minutes request (fun _ s => s.revoke token.jti token.sub token.expiresAt)
        fun _ _ => .done .loggedOut

theorem AuthRequest.program_not_ended (minutes : Nat) (request : AuthRequest) :
    ¬ (request.program minutes).Ended := by
  intro h
  cases request <;> cases h

theorem AuthRequest.program_actions (minutes : Nat) (request : AuthRequest) :
    (request.program minutes).Every (AuthAction minutes request) fun _ => True := by
  have hissue (userId : ObjectId) :
      (Ledgerlock.issue minutes userId).Every (AuthAction minutes request) fun _ => True :=
    ⟨.issue userId, fun _ _ => trivial⟩
  cases request with
  | register email password =>
      refine ⟨.insert rfl (fun x s hany => ?_) fun x s hnone => ?_, fun x s => ?_⟩
      · have hany : (s.users.any fun u => u.email = email) = true := by simpa using hany
        simp only [hany, if_true, true_and]
        rfl
      · have hnone : (s.users.any fun u => u.email = email) = false := by simpa using hnone
        simp only [hnone, Bool.false_eq_true, if_false]
        exact ⟨rfl, rfl⟩
      · dsimp only
        split
        · trivial
        · exact hissue _
  | login email password =>
      refine Prog.Every.bind (B := fun _ => True) ⟨fun _ => .read (by simp), fun _ _ => trivial⟩
        fun user _ => ?_
      cases user with
      | none => trivial
      | some user =>
          dsimp only
          split_ifs
          · exact hissue _
          · trivial
  | logout token =>
      refine Prog.Every.bind (getCurrentUser_named fun _ _ => .read (by simp))
        fun user huser => ⟨?_, fun _ _ => trivial⟩
      obtain ⟨hid, hjti, hexpires⟩ := huser
      rw [hid, hjti, hexpires]
      exact .revoke rfl
  | authenticated token =>
      exact Prog.Every.bind (getCurrentUser_every fun _ _ => .read (by simp)) fun _ _ => trivial

theorem AuthAction.users_grow {f : AuthInput → AuthStore → AuthStore}
    {k : AuthInput → AuthStore → AuthProg AuthResponse} (h : AuthAction minutes request f k)
    {x : AuthInput} {s : AuthStore} (hx : authEnv.offers s x) : UsersGrow s (f x s) := by
  cases h with
  | read | issue => exact .of_eq rfl
  | revoke => exact .of_eq (AuthStore.revoke_frame _ _ _ _).1
  | @insert email password _ _ _ htaken hfree =>
      by_cases hany : ∃ u ∈ s.users, u.email = email
      · exact .of_eq (by rw [(htaken x s hany).1])
      · rw [(hfree x s hany).1]
        refine ⟨List.prefix_append _ _, fun hs => ⟨?_, ?_⟩⟩
        · rw [List.map_append]
          refine List.nodup_append.mpr ⟨hs.emails, List.nodup_singleton _, ?_⟩
          intro e he e' he' hee
          obtain ⟨u, hu, rfl⟩ := List.mem_map.mp he
          obtain rfl : e' = email := by simpa [newUser] using he'
          exact hany ⟨u, hu, hee⟩
        · rw [List.map_append]
          refine List.nodup_append.mpr ⟨hs.ids, List.nodup_singleton _, ?_⟩
          intro e he e' he' hee
          obtain ⟨u, hu, rfl⟩ := List.mem_map.mp he
          obtain rfl : e' = x.insertedId := by simpa [newUser] using he'
          exact hx.2 u hu hee

end Actions

/-! ### What an answer says -/

section Answers

variable [Bcrypt] {minutes : Nat} {request : AuthRequest} {s : AuthStore}

/-- The request has come with the password of the user, or has set it. -/
def AuthRequest.proves (u : User) : AuthRequest → Prop
  | register email password =>
      u.email = email ∧ ∃ salt, u.hashedPassword = Bcrypt.hashpw salt password
  | login email password => u.email = email ∧ Bcrypt.checkpw password u.hashedPassword = true
  | _ => False

/-- What an answer says of the state it is given in. -/
def AuthRequest.answers (request : AuthRequest) : AuthResponse → AuthStore → Prop
  | .token token, s => token ∈ s.signed ∧ ∃ u ∈ s.users, u.id = token.sub ∧ request.proves u
  | .user _, s => ∀ token, request.presents = some token → token ∈ s.signed
  | .loggedOut, _ => True

/-- What an exception says of the state it is raised in. -/
def AuthRequest.fails : AuthRequest → AuthError → AuthStore → Prop
  | register email _, e, s => e = .emailAlreadyRegistered ∧ ∃ u ∈ s.users, u.email = email
  | _, _, _ => True

theorem issue_wp {u : User} {X : AuthError → AuthStore → Prop} (hs : AuthInv s)
    (hu : u ∈ s.users) (hproves : request.proves u) :
    (issue minutes u.id).wp authProtocol AuthRely ⟨request.answers, X⟩ s := by
  refine Prog.wp_bind hs fun t x hst ht hx => ?_
  obtain ⟨hrely, hinv, -⟩ := createAccessToken_wp minutes ⟨u, hst.users u hu, rfl⟩ t x
    (AuthRely.refl t) ht hx
  refine ⟨hrely, hinv, fun v hv _ w hvw _ => ?_⟩
  exact ⟨hvw.signed _ (hv.signed _ List.mem_cons_self), u,
    hvw.users u (hv.users u (hst.users u hu)), rfl, hproves⟩

theorem AuthRequest.program_answers (minutes : Nat) (request : AuthRequest) (hs : AuthInv s) :
    (request.program minutes).wp authProtocol AuthRely ⟨request.answers, request.fails⟩ s := by
  cases request with
  | register email password =>
      intro t x hst ht hx
      obtain ⟨hrely, hinv, -⟩ := insertUser_wp (s := t) email password t x (AuthRely.refl t) ht hx
      refine ⟨hrely, hinv, ?_⟩
      by_cases hany : (t.users.any fun u => u.email = email) = true
      · simp only [hany, if_true]
        intro v hv _
        obtain ⟨u, hu, hemail⟩ : ∃ u ∈ t.users, u.email = email := by simpa using hany
        exact ⟨rfl, u, hv.users u hu, hemail⟩
      · simp only [hany] at hinv ⊢
        exact issue_wp (u := newUser email password x) hinv
          (List.mem_append_right _ (List.mem_singleton_self _)) ⟨rfl, x.salt, rfl⟩
  | login email password =>
      refine Prog.wp_bind hs (read_wp fun t _ ht u htu hu => ?_)
      rw [Post.andThen_done]
      split
      · exact fun _ _ _ => trivial
      · rename_i user huser
        split
        · rename_i hcheck
          exact issue_wp hu (htu.users _ (List.mem_of_find?_eq_some huser))
            ⟨by simpa using List.find?_some huser, hcheck⟩
        · exact fun _ _ _ => trivial
  | logout token =>
      refine Prog.wp_bind hs (Prog.wp_mono (getCurrentUser_wp hs) (fun user t ht huser => ?_)
        fun _ _ _ _ => trivial)
      obtain ⟨hsigned, hjti, hexpires⟩ := huser
      have hrevoke := revokeToken_wp hsigned user.id
      rw [← hjti, ← hexpires] at hrevoke
      exact Prog.wp_bind ht (Prog.wp_mono hrevoke (fun _ _ _ _ _ _ _ => trivial)
        fun _ _ _ _ => trivial)
  | authenticated token =>
      refine Prog.wp_bind hs (Prog.wp_mono (getCurrentUser_wp hs) (fun user t _ huser v htv _ => ?_)
        fun _ _ _ _ => trivial)
      rintro token' htoken
      obtain rfl := Option.some.inj htoken
      exact htv.signed _ huser.1

end Answers

/-! ### Every run -/

section Runs

variable [Bcrypt] {ν : Type} [DecidableEq ν] {minutes : Nat} {requests : ν → AuthRequest}
  {s₀ : AuthStore} {l : List (Option ν)} {i j : ν}
  {c d : Config ν AuthStore AuthInput AuthError AuthResponse}

/-- What every request of a run may still do. -/
theorem actions_of_run (h : Run authEnv (authStart minutes requests s₀) l c) (i : ν) :
    (c.prog i).Every (AuthAction minutes (requests i)) fun _ => True :=
  h.every ((requests i).program_actions minutes)

theorem users_grow (h : Run authEnv (authStart minutes requests s₀) l c) {l' : List (Option ν)}
    (h' : Run authEnv c l' d) : UsersGrow c.shared d.shared := by
  refine h'.rel (R := UsersGrow) (fun s => .of_eq rfl) (fun s t u hst htu => ?_)
    (fun i => (actions_of_run h i).mono fun f k hfk x s hx => hfk.users_grow hx) fun s t hm => ?_
  · exact ⟨hst.users.trans htu.users, fun hs => htu.inv (hst.inv hs)⟩
  · cases hm with
    | clock => exact .of_eq rfl
    | expire => exact .of_eq rfl

/-- A registration that has inserted its user and has the token to issue, or has done
that too. -/
def Registers (minutes : Nat) (userId : ObjectId) (p : AuthProg AuthResponse) : Prop :=
  p = issue minutes userId ∨ ∃ token, p = .done (.token token) ∧ token.sub = userId

/-- A user is there because of a registration. -/
theorem user_registered (husers : s₀.users = [])
    (h : Run authEnv (authStart minutes requests s₀) l c) {u : User} (hu : u ∈ c.shared.users) :
    ∃ i password, requests i = .register u.email password ∧
      (∃ salt, u.hashedPassword = Bcrypt.hashpw salt password) ∧
      Registers minutes u.id (c.prog i) := by
  have hauthor := h.exists_author (X := User) (H := fun u s => u ∈ s.users)
    (R := fun i u p => ∃ password, requests i = .register u.email password ∧
      (∃ salt, u.hashedPassword = Bcrypt.hashpw salt password) ∧ Registers minutes u.id p)
    (D := fun _ => True) ?_ ?_ ?_ hu
  · rcases hauthor with hstart | ⟨i, password, hi⟩
    · rw [authStart, husers] at hstart
      cases hstart
    · exact ⟨i, password, hi⟩
  · refine fun i => ((requests i).program_actions minutes).mono fun f k hfk x s u hu => ?_
    cases hfk with
    | read | issue => exact .inl hu
    | revoke => exact .inl ((AuthStore.revoke_frame _ _ _ _).1 ▸ hu)
    | @insert email password _ _ hi htaken hfree =>
        by_cases hany : ∃ u ∈ s.users, u.email = email
        · rw [(htaken x s hany).1] at hu
          exact .inl hu
        · obtain ⟨hf, hk⟩ := hfree x s hany
          rw [hf] at hu
          rcases List.mem_append.mp hu with hu | hu
          · exact .inl hu
          · obtain rfl := List.mem_singleton.mp hu
            exact .inr ⟨password, hi, ⟨x.salt, rfl⟩, .inl hk⟩
  · intro i u f k hauthor x s
    obtain ⟨password, hi, hsalt, hissue | ⟨token, hdone, -⟩⟩ := hauthor
    · obtain ⟨-, rfl⟩ := Prog.act.inj hissue
      exact ⟨password, hi, hsalt, .inr ⟨_, rfl, rfl⟩⟩
    · cases hdone
  · intro l e t _ hm u hu
    cases hm with
    | clock => exact hu
    | expire => exact hu

/-- Before it has inserted its user a registration is not one of these. -/
theorem not_registers (email password : String) (userId : ObjectId) :
    ¬ Registers minutes userId (register minutes email password) := by
  rintro (hissue | ⟨token, hdone, -⟩)
  · obtain ⟨hact, -⟩ := Prog.act.inj hissue
    have hstore := congrFun (congrFun hact ⟨0, "", ""⟩) ⟨0, [], [], []⟩
    exact absurd (congrArg (fun s => s.users.length) hstore) (by simp)
  · cases hdone

/-- One registration wins an email. -/
theorem winner_unique (h : Run authEnv (authStart minutes requests s₀) l c) {email : String}
    {password password' : String} {userId userId' : ObjectId}
    (hi : requests i = .register email password) (hj : requests j = .register email password')
    (hwon : Registers minutes userId (c.prog i)) (hwon' : Registers minutes userId' (c.prog j)) :
    i = j := by
  refine (h.author_unique (X := String) (H := fun email s => ∃ u ∈ s.users, u.email = email)
    (R := fun i email p => (∃ password, requests i = .register email password) ∧
      ∃ userId, Registers minutes userId p) (D := fun _ => True) ?_ ?_ ?_).2 i j email
        ⟨⟨_, hi⟩, _, hwon⟩ ⟨⟨_, hj⟩, _, hwon'⟩
  · rintro i email ⟨⟨password, hi⟩, userId, hwon⟩
    have hprog : (authStart minutes requests s₀).prog i = register minutes email password := by
      show (requests i).program minutes = _
      rw [hi]
      rfl
    exact not_registers _ _ _ (hprog ▸ hwon)
  · refine fun i => ((requests i).program_actions minutes).mono fun f k hfk x s _ email' => ?_
    cases hfk with
    | read hi => exact ⟨id, fun hwon => absurd hwon.1.choose_spec (hi _ _)⟩
    | revoke hi =>
        rw [(AuthStore.revoke_frame s _ _ _).1]
        exact ⟨id, fun hwon => absurd (hi.symm.trans hwon.1.choose_spec) (by simp)⟩
    | issue userId => exact ⟨id, fun hwon => .inl ⟨hwon.1, userId, .inl rfl⟩⟩
    | @insert email password _ _ hi htaken hfree =>
        by_cases hany : ∃ u ∈ s.users, u.email = email
        · obtain ⟨hf, hk⟩ := htaken x s hany
          rw [hf, hk]
          refine ⟨id, fun hwon => ?_⟩
          obtain ⟨-, userId, hissue | ⟨token, hdone, -⟩⟩ := hwon
          · cases hissue
          · cases hdone
        · obtain ⟨hf, -⟩ := hfree x s hany
          rw [hf]
          refine ⟨fun hhas => ?_, fun hwon => .inr ?_⟩
          · obtain ⟨u, hu, hemail⟩ := hhas
            exact ⟨u, List.mem_append_left _ hu, hemail⟩
          · obtain ⟨⟨password', hi'⟩, -⟩ := hwon
            obtain ⟨rfl, rfl⟩ := AuthRequest.register.inj (hi.symm.trans hi')
            exact ⟨hany, _, List.mem_append_right _ (List.mem_singleton_self _), rfl⟩
  · intro s t hm email hhas
    cases hm with
    | clock => exact hhas
    | expire => exact hhas

/-- A signed token has been handed to somebody. -/
theorem token_issued (hsigned : s₀.signed = [])
    (h : Run authEnv (authStart minutes requests s₀) l c) {token : AccessToken}
    (htoken : token ∈ c.shared.signed) : ∃ i, c.prog i = .done (.token token) := by
  have hauthor := h.exists_author (X := AccessToken) (H := fun t s => t ∈ s.signed)
    (R := fun _ t p => p = .done (.token t)) (D := fun _ => True) ?_ ?_ ?_ htoken
  · rcases hauthor with hstart | hauthor
    · rw [authStart, hsigned] at hstart
      cases hstart
    · exact hauthor
  · refine fun i => ((requests i).program_actions minutes).mono fun f k hfk x s t ht => ?_
    cases hfk with
    | read => exact .inl ht
    | revoke => exact .inl ((AuthStore.revoke_frame _ _ _ _).2 ▸ ht)
    | issue =>
        rcases List.mem_cons.mp ht with rfl | ht
        · exact .inr rfl
        · exact .inl ht
    | @insert email _ _ _ _ htaken hfree =>
        by_cases hany : ∃ u ∈ s.users, u.email = email
        · rw [(htaken x s hany).1] at ht
          exact .inl ht
        · rw [(hfree x s hany).1] at ht
          exact .inl ht
  · rintro i t f k hdone
    cases hdone
  · intro l e t _ hm u hu
    cases hm with
    | clock => exact hu
    | expire => exact hu

/-- Every answer says what it says of every later state. -/
theorem answers_of_run (h₀ : AuthInv s₀) (h : Run authEnv (authStart minutes requests s₀) l c) :
    c.Sound authProtocol (fun _ => AuthRely) fun i => ⟨(requests i).answers, (requests i).fails⟩ :=
  (Run.sound (fun _ _ _ _ hG => hG) ⟨h₀, fun i => (requests i).program_answers minutes h₀⟩ h).1

end Runs

end Ledgerlock
