import Ledgerlock.Security

/-!
# Ledgerlock.Spec.Tokens

The life of an access token.

A token that was logged out is turned away on account of its record for as long as the
record is there, which is at least until the token expires (`revoked_of_loggedOut`),
and on account of the clock from then on. The two are looked at one after the other,
though: a call of `get_current_user` that reads the clock in time and looks for the
record too late finds neither (`accepts_loggedOut`). `token_accepted_iff` says that this
is the only way a call goes wrong.
-/

namespace Ledgerlock

open Interleave (Prog Protocol Post Run Step Config)

/-! ### What the requests keep up -/

/-- Tokens are told apart by their `jti`, belong to users there are, and a record is
due for deletion exactly when its token expires. -/
structure AuthInv (s : AuthStore) : Prop where
  jtis : ∀ t ∈ s.signed, ∀ t' ∈ s.signed, t.jti = t'.jti → t = t'
  subs : ∀ t ∈ s.signed, ∃ u ∈ s.users, u.id = t.sub
  records : ∀ r ∈ s.revokedTokens, ∃ t ∈ s.signed, t.jti = r.jti ∧
    r.expiresAt * 1000 = t.expiresAt

/-- Time goes on, nothing is taken away, except a record that is due. -/
structure AuthRely (s s' : AuthStore) : Prop where
  now : s.now ≤ s'.now
  signed : ∀ t ∈ s.signed, t ∈ s'.signed
  users : ∀ u ∈ s.users, u ∈ s'.users
  records : ∀ r ∈ s.revokedTokens, s'.now < r.expiresAt * 1000 → r ∈ s'.revokedTokens

theorem AuthRely.refl (s : AuthStore) : AuthRely s s :=
  ⟨Nat.le_refl _, fun _ h => h, fun _ h => h, fun _ h _ => h⟩

/-- With no token about there is nothing to keep. -/
theorem authInv_of_unused {s₀ : AuthStore} (hsigned : s₀.signed = [])
    (hrevoked : s₀.revokedTokens = []) : AuthInv s₀ := by
  constructor <;> simp [hsigned, hrevoked]

theorem AuthMoves.inv {s s' : AuthStore} (hs : AuthInv s) (h : AuthMoves s s') : AuthInv s' := by
  cases h with
  | clock => exact ⟨hs.jtis, hs.subs, hs.records⟩
  | expire => exact ⟨hs.jtis, hs.subs, fun r hr => hs.records r (List.mem_of_mem_erase hr)⟩

theorem AuthMoves.rely {s s' : AuthStore} (h : AuthMoves s s') : AuthRely s s' := by
  cases h with
  | clock ht => exact ⟨ht, fun _ h => h, fun _ h => h, fun _ h _ => h⟩
  | @expire r hr =>
      refine ⟨Nat.le_refl _, fun _ h => h, fun _ h => h, fun r' hr' hdue => ?_⟩
      refine (List.mem_erase_of_ne fun h => ?_).mpr hr'
      subst h
      exact absurd hdue (Nat.not_lt.mpr hr)

def authProtocol : Protocol authEnv where
  inv := AuthInv
  rely := AuthRely
  rely_refl := AuthRely.refl
  rely_trans _ _ _ h h' :=
    ⟨Nat.le_trans h.now h'.now, fun t ht => h'.signed t (h.signed t ht),
      fun u hu => h'.users u (h.users u hu), fun r hr hdue =>
        h'.records r (h.records r hr (Nat.lt_of_le_of_lt h'.now hdue)) hdue⟩
  inv_moves _ _ hs h := AuthMoves.inv hs h
  rely_moves _ _ _ h := AuthMoves.rely h

/-- There is a record for the token. -/
def AuthStore.Revoked (s : AuthStore) (token : AccessToken) : Prop :=
  ∃ r ∈ s.revokedTokens, r.jti = token.jti

theorem AuthStore.revoked_iff {s : AuthStore} {token : AccessToken} :
    (s.revokedTokens.any fun r => r.jti = token.jti) = true ↔ s.Revoked token := by
  simp [Revoked]

section Store

variable {s s' : AuthStore} {token : AccessToken}

/-- A record stays until its token expires. -/
theorem AuthInv.revoked_later (hs : AuthInv s) (htoken : token ∈ s.signed)
    (h : s.Revoked token) (hrely : AuthRely s s') (hnow : s'.now < token.expiresAt) :
    s'.Revoked token := by
  obtain ⟨r, hr, hjti⟩ := h
  obtain ⟨t, ht, htj, hdue⟩ := hs.records r hr
  obtain rfl := hs.jtis t ht token htoken (htj.trans hjti)
  exact ⟨r, hrely.records r hr (hdue ▸ hnow), hjti⟩

/-- Revoking a token again changes nothing. -/
theorem AuthStore.revoke_of_revoked (h : s.Revoked token) (userId : ObjectId)
    (expiresAt : Instant) : s.revoke token.jti userId expiresAt = s := by
  rw [revoke, if_pos (revoked_iff.mpr h)]

theorem AuthStore.revoked_revoke (s : AuthStore) (token : AccessToken) (userId : ObjectId)
    (expiresAt : Instant) : (s.revoke token.jti userId expiresAt).Revoked token := by
  by_cases h : s.Revoked token
  · rwa [revoke_of_revoked h]
  · rw [revoke, if_neg (mt revoked_iff.mp h)]
    exact ⟨_, List.mem_append_right _ (List.mem_singleton_self _), rfl⟩

/-- A record more, at most, and for that token. -/
theorem AuthStore.mem_revoke {userId : ObjectId} {jti : String} {expiresAt : Instant}
    {r : RevokedToken} (hr : r ∈ (s.revoke jti userId expiresAt).revokedTokens) :
    r ∈ s.revokedTokens ∨ r.jti = jti := by
  unfold revoke at hr
  split at hr
  · exact .inl hr
  · rcases List.mem_append.mp hr with hr | hr
    · exact .inl hr
    · rw [List.mem_singleton.mp hr]
      exact .inr rfl

theorem AuthInv.revoke (hs : AuthInv s) (htoken : token ∈ s.signed) (userId : ObjectId) :
    AuthInv (s.revoke token.jti userId token.expiresAt) := by
  unfold AuthStore.revoke
  split
  · exact hs
  · refine ⟨hs.jtis, hs.subs, fun r hr => ?_⟩
    rcases List.mem_append.mp hr with hr | hr
    · exact hs.records r hr
    · obtain rfl := List.mem_singleton.mp hr
      -- whole seconds are whole milliseconds
      refine ⟨token, htoken, rfl, ?_⟩
      show token.exp * 1000000 / 1000 * 1000 = token.exp * 1000000
      omega

theorem AuthRely.revoke (s : AuthStore) (jti : String) (userId : ObjectId)
    (expiresAt : Instant) : AuthRely s (s.revoke jti userId expiresAt) := by
  unfold AuthStore.revoke
  split
  · exact AuthRely.refl s
  · exact ⟨Nat.le_refl _, fun _ h => h, fun _ h => h, fun _ h _ => List.mem_append_left _ h⟩

end Store

/-! ### The programs -/

section Programs

variable {s : AuthStore} {token : AccessToken} {α : Type}

theorem read_wp {q : AuthStore → α} {Q : Post AuthStore AuthError α}
    (h : ∀ t, AuthRely s t → AuthInv t → ∀ u, AuthRely t u → AuthInv u → Q.done (q t) u) :
    (Prog.read q : AuthProg α).wp authProtocol AuthRely Q s :=
  Prog.wp_read AuthRely.refl h

/-- A new token is a signed token of its user's. -/
theorem createAccessToken_wp (minutes : Nat) {userId : ObjectId}
    (huser : ∃ u ∈ s.users, u.id = userId) :
    (createAccessToken minutes userId).wp authProtocol AuthRely
      ⟨fun _ _ => True, fun _ _ => True⟩ s := by
  intro t x hst ht hx
  obtain ⟨hjti, -⟩ := hx
  obtain ⟨u, hu, hid⟩ := huser
  refine ⟨⟨Nat.le_refl _, fun _ h => List.mem_cons_of_mem _ h, fun _ h => h, fun _ h _ => h⟩,
    AuthInv.mk ?_ ?_ ?_, fun _ _ _ => trivial⟩
  · intro a ha b hb hab
    rcases List.mem_cons.mp ha with rfl | ha
    · rcases List.mem_cons.mp hb with rfl | hb
      · rfl
      · exact absurd hab.symm (hjti b hb)
    · rcases List.mem_cons.mp hb with rfl | hb
      · exact absurd hab (hjti a ha)
      · exact ht.jtis a ha b hb hab
  · intro a ha
    rcases List.mem_cons.mp ha with rfl | ha
    · exact ⟨u, hst.users u hu, hid⟩
    · exact ht.subs a ha
  · intro r hr
    obtain ⟨a, ha, hrest⟩ := ht.records r hr
    exact ⟨a, List.mem_cons_of_mem _ ha, hrest⟩

theorem decodeAccessToken_wp : (decodeAccessToken token).wp authProtocol AuthRely
    ⟨fun _ t => token ∈ t.signed, fun _ _ => True⟩ s := by
  intro t x _ ht _
  refine ⟨AuthRely.refl t, ht, ?_⟩
  dsimp only
  split
  · exact fun _ _ _ => trivial
  · split
    · exact fun _ _ _ => trivial
    · rename_i hsigned _
      exact fun u htu _ => htu.signed token (not_not.mp hsigned)

/-- Only a signed token is accepted. -/
theorem getCurrentUser_wp (hs : AuthInv s) :
    (getCurrentUser token).wp authProtocol AuthRely
      ⟨fun user t => token ∈ t.signed ∧ user.jti = token.jti ∧
        user.tokenExpiresAt = token.expiresAt, fun _ _ => True⟩ s := by
  refine Prog.wp_bind hs (Prog.wp_mono decodeAccessToken_wp (fun _ t ht htoken => ?_)
    fun _ _ _ _ => trivial)
  refine Prog.wp_bind ht (read_wp fun u htu hu v huv hv => ?_)
  rw [Post.andThen_done]
  split
  · exact fun _ _ _ => trivial
  refine Prog.wp_bind hv (read_wp fun w hvw hw x hwx hx => ?_)
  rw [Post.andThen_done]
  split
  · exact fun _ _ _ => trivial
  · refine fun y hxy _ => ⟨hxy.signed token (hwx.signed token (hvw.signed token ?_)), rfl, rfl⟩
    exact huv.signed token (htu.signed token htoken)

/-- The record of a logout is there until the token expires. -/
theorem revokeToken_wp (hs : token ∈ s.signed) (userId : ObjectId) :
    (revokeToken token.jti userId token.expiresAt).wp authProtocol AuthRely
      ⟨fun _ t => token ∈ t.signed ∧ (t.now < token.expiresAt → t.Revoked token),
        fun _ _ => False⟩ s := by
  intro t x hst ht _
  have htoken := hst.signed token hs
  refine ⟨AuthRely.revoke _ _ _ _, ht.revoke htoken userId, fun u htu _ => ?_⟩
  have hmem := (AuthRely.revoke t token.jti userId token.expiresAt).signed token htoken
  exact ⟨htu.signed token hmem, fun hnow => (ht.revoke htoken userId).revoked_later hmem
    (t.revoked_revoke token userId token.expiresAt) htu hnow⟩

/-- The rest of a call that finds no record. -/
def findUser (token : AccessToken) (handler : AuthenticatedUser → AuthProg α) : AuthProg α :=
  .act (fun _ s => s) fun _ s =>
    match s.users.find? fun u => u.id = token.sub with
    | none => .raise (.unauthenticated "Access token is invalid.")
    | some user =>
        handler { id := token.sub, email := user.email, jti := token.jti,
                  tokenExpiresAt := token.expiresAt }

/-- The rest of a call that read the clock in time. -/
def findRecord (token : AccessToken) (handler : AuthenticatedUser → AuthProg α) : AuthProg α :=
  .act (fun _ s => s) fun _ s =>
    if s.revokedTokens.any fun r => r.jti = token.jti then .raise .tokenRevoked
    else findUser token handler

/-- `get_current_user` looks at the clock, then at the records, then at the users. -/
theorem getCurrentUser_bind (token : AccessToken) (handler : AuthenticatedUser → AuthProg α) :
    getCurrentUser token >>= handler = .act (fun _ s => s) fun _ s =>
      if token ∉ s.signed then .raise (.unauthenticated "Access token is invalid.")
      else if token.expiresAt ≤ s.now then .raise .tokenExpired
      else findRecord token handler := by
  change Prog.act _ _ = Prog.act _ _
  congr 1
  funext x s
  dsimp only
  split
  · rfl
  · split
    · rfl
    · change Prog.act _ _ = Prog.act _ _
      congr 1
      funext x s
      dsimp only
      generalize (s.revokedTokens.any fun r => r.jti = token.jti) = revoked
      cases revoked with
      | true => rfl
      | false =>
          change Prog.act _ _ = Prog.act _ _
          congr 1
          funext x s
          dsimp only
          generalize (s.users.find? fun u => u.id = token.sub) = userDocument
          cases userDocument <;> rfl

/-- The user of a signed token is there. -/
theorem findUser_wp {handler : AuthenticatedUser → AuthProg α} {Q : Post AuthStore AuthError α}
    (htoken : token ∈ s.signed) (h : ∀ user t, AuthInv t → token ∈ t.signed →
      user.jti = token.jti → user.tokenExpiresAt = token.expiresAt →
      (handler user).wp authProtocol AuthRely Q t) :
    (findUser token handler).wp authProtocol AuthRely Q s := by
  intro t x hst ht _
  have htoken := hst.signed token htoken
  refine ⟨AuthRely.refl t, ht, ?_⟩
  obtain ⟨u, hu, hid⟩ := ht.subs token htoken
  dsimp only
  split
  · rename_i hnone
    exact absurd hid (by simpa using List.find?_eq_none.mp hnone u hu)
  · exact h _ t ht htoken rfl rfl

/-- Getting the current user writes nothing. -/
theorem getCurrentUser_every {A : (AuthInput → AuthStore → AuthStore) →
      (AuthInput → AuthStore → AuthProg AuthenticatedUser) → Prop}
    (hA : ∀ k, A (fun _ s => s) k) :
    (getCurrentUser token).Every A fun user => user.jti = token.jti := by
  have hread {β : Type} {f : β → AuthProg AuthenticatedUser} (q : AuthStore → β)
      (hf : ∀ b, (f b).Every A fun user => user.jti = token.jti) :
      (Prog.read q >>= f).Every A fun user => user.jti = token.jti :=
    ⟨hA _, fun _ s => hf (q s)⟩
  refine ⟨hA _, fun x s => ?_⟩
  dsimp only
  split
  · trivial
  · split
    · trivial
    · refine hread _ fun revoked => ?_
      split
      · trivial
      · refine hread _ fun userDocument => ?_
        split
        · trivial
        · rfl

/-- A logout with a token that has its record changes nothing. -/
theorem logout_every (token : AccessToken) :
    (logout token).Every (fun f _ => ∀ x s, s.Revoked token → f x s = s) fun _ => True := by
  refine Prog.Every.bind (getCurrentUser_every fun _ _ _ _ _ => rfl) fun user huser =>
    ⟨fun x s hrevoked => ?_, fun _ _ => trivial⟩
  rw [huser]
  exact AuthStore.revoke_of_revoked hrevoked user.id user.tokenExpiresAt

variable [Bcrypt]

theorem insertUser_wp (email password : String) : (insertUser email password).wp authProtocol
    AuthRely ⟨fun id t => ∃ u ∈ t.users, u.id = id, fun _ _ => True⟩ s := by
  intro t x _ ht _
  dsimp only
  split
  · exact ⟨AuthRely.refl t, ht, fun _ _ _ => trivial⟩
  · refine ⟨⟨Nat.le_refl _, fun _ h => h, fun _ h => List.mem_append_left _ h, fun _ h _ => h⟩,
      AuthInv.mk ht.jtis (fun a ha => ?_) ht.records, fun v hv _ => ?_⟩
    · obtain ⟨u, hu, hid⟩ := ht.subs a ha
      exact ⟨u, List.mem_append_left _ hu, hid⟩
    · exact ⟨_, hv.users _ (List.mem_append_right _ (List.mem_singleton_self _)), rfl⟩

/-- What is known of a request that has been answered. -/
def AuthRequest.answered : AuthRequest → AuthStore → Prop
  | logout token, t => token ∈ t.signed ∧ (t.now < token.expiresAt → t.Revoked token)
  | _, _ => True

theorem AuthRequest.program_wp (minutes : Nat) (request : AuthRequest) (hs : AuthInv s) :
    (request.program minutes).wp authProtocol AuthRely
      ⟨fun _ => request.answered, fun _ _ => True⟩ s := by
  cases request with
  | register email password =>
      refine Prog.wp_bind hs (Prog.wp_mono (insertUser_wp email password)
        (fun id t ht huser => ?_) fun _ _ _ _ => trivial)
      exact Prog.wp_bind ht (Prog.wp_mono (createAccessToken_wp minutes huser)
        (fun _ _ _ _ _ _ _ => trivial) fun _ _ _ _ => trivial)
  | login email password =>
      refine Prog.wp_bind hs (read_wp fun t _ ht u htu hu => ?_)
      rw [Post.andThen_done]
      split
      · exact fun _ _ _ => trivial
      · rename_i user huser
        split
        · have hmem := htu.users _ (List.mem_of_find?_eq_some huser)
          exact Prog.wp_bind hu (Prog.wp_mono (createAccessToken_wp minutes ⟨user, hmem, rfl⟩)
            (fun _ _ _ _ _ _ _ => trivial) fun _ _ _ _ => trivial)
        · exact fun _ _ _ => trivial
  | logout token =>
      refine Prog.wp_bind hs (Prog.wp_mono (getCurrentUser_wp hs) (fun user t ht huser => ?_)
        fun _ _ _ _ => trivial)
      obtain ⟨hsigned, hjti, hexpires⟩ := huser
      have hrevoke := revokeToken_wp hsigned user.id
      rw [← hjti, ← hexpires] at hrevoke
      refine Prog.wp_bind ht (Prog.wp_mono hrevoke (fun _ u hu hrevoked => ?_)
        fun _ _ _ he => he.elim)
      intro v huv _
      rw [hexpires] at hrevoked
      refine ⟨huv.signed token hrevoked.1, fun hnow => ?_⟩
      exact hu.revoked_later hrevoked.1 (hrevoked.2 (Nat.lt_of_le_of_lt huv.now hnow)) huv hnow
  | authenticated token =>
      exact Prog.wp_bind hs (Prog.wp_mono (getCurrentUser_wp hs)
        (fun _ _ _ _ _ _ _ => trivial) fun _ _ _ _ => trivial)

/-- The token a request comes with. -/
def AuthRequest.presents : AuthRequest → Option AccessToken
  | logout token | authenticated token => some token
  | _ => none

/-- A request that comes with a token is handed its user, and is answered. -/
theorem AuthRequest.program_of_presents (minutes : Nat) {request : AuthRequest}
    (h : request.presents = some token) : ∃ handler : AuthenticatedUser → AuthProg AuthResponse,
      request.program minutes = (.act (fun _ s => s) fun _ s =>
        if token ∉ s.signed then .raise (.unauthenticated "Access token is invalid.")
        else if token.expiresAt ≤ s.now then .raise .tokenExpired
        else findRecord token handler) ∧
      ∀ s, AuthInv s → token ∈ s.signed → (findUser token handler).wp authProtocol AuthRely
        ⟨fun _ _ => True, fun _ _ => False⟩ s := by
  cases request with
  | register | login => cases h
  | logout token' =>
      obtain rfl := Option.some.inj h
      refine ⟨_, getCurrentUser_bind token' _, fun s _ htoken => findUser_wp htoken ?_⟩
      intro user t ht htoken hjti hexpires
      have hrevoke := revokeToken_wp htoken user.id
      rw [← hjti, ← hexpires] at hrevoke
      exact Prog.wp_bind ht (Prog.wp_mono hrevoke (fun _ _ _ _ _ _ _ => trivial)
        fun _ _ _ he => he)
  | authenticated token' =>
      obtain rfl := Option.some.inj h
      exact ⟨_, getCurrentUser_bind token' _, fun s _ htoken =>
        findUser_wp htoken fun _ _ _ _ _ _ _ _ _ => trivial⟩

/-- An action that leaves the records alone, or the one that a logout ends with. -/
def RevokesLast (request : AuthRequest) (f : AuthInput → AuthStore → AuthStore)
    (k : AuthInput → AuthStore → AuthProg AuthResponse) : Prop :=
  (∀ x s, (f x s).revokedTokens = s.revokedTokens) ∨
    ∃ token, request = .logout token ∧ ∀ x s, (∃ a, k x s = .done a) ∧
      ∀ r ∈ (f x s).revokedTokens, r ∈ s.revokedTokens ∨ r.jti = token.jti

theorem AuthRequest.program_every (minutes : Nat) (request : AuthRequest) :
    (request.program minutes).Every (RevokesLast request) fun _ => True := by
  cases request with
  | register email password =>
      refine Prog.Every.bind (B := fun _ => True) ?_ fun id _ =>
        ⟨.inl fun _ _ => rfl, fun _ _ => trivial⟩
      refine ⟨fun _ => .inl fun x s => ?_, fun x s => ?_⟩
      · dsimp only
        split <;> rfl
      · dsimp only
        split <;> trivial
  | login email password =>
      refine Prog.Every.bind (B := fun _ => True) ⟨fun _ => .inl fun _ _ => rfl, fun _ _ => trivial⟩
        fun user _ => ?_
      split
      · trivial
      · split
        · exact ⟨.inl fun _ _ => rfl, fun _ _ => trivial⟩
        · trivial
  | logout token =>
      refine Prog.Every.bind (getCurrentUser_every fun _ _ => .inl fun _ _ => rfl)
        fun user huser =>
          ⟨.inr ⟨token, rfl, fun x s => ⟨⟨_, rfl⟩, fun r hr => ?_⟩⟩, fun _ _ => trivial⟩
      rw [← huser]
      exact AuthStore.mem_revoke hr
  | authenticated token =>
      exact Prog.Every.bind (getCurrentUser_every fun _ _ => .inl fun _ _ => rfl)
        fun _ _ => trivial

end Programs

/-! ### Every run -/

section Runs

variable [Bcrypt] {ν : Type} {minutes : Nat} {requests : ν → AuthRequest} {s₀ : AuthStore}
  {token : AccessToken} {l : List (Option ν)} {i : ν}
  {c d : Config ν AuthStore AuthInput AuthError AuthResponse}

/-- A logout with the token has been answered. -/
def LoggedOut (requests : ν → AuthRequest)
    (c : Config ν AuthStore AuthInput AuthError AuthResponse) (token : AccessToken) : Prop :=
  ∃ j a, requests j = .logout token ∧ c.prog j = .done a

variable [DecidableEq ν]

/-- Every state that requests come to, from one with nothing issued or revoked. -/
theorem auth_sound (h₀ : AuthInv s₀)
    (h : Run authEnv (authStart minutes requests s₀) l c) :
    c.Sound authProtocol (fun _ => AuthRely)
      (fun i => ⟨fun _ => (requests i).answered, fun _ _ => True⟩) :=
  (Run.sound (fun _ _ _ _ hG => hG) ⟨h₀, fun i => (requests i).program_wp minutes h₀⟩ h).1

/-- A logged-out token has its record until it expires. -/
theorem revoked_of_loggedOut (h₀ : AuthInv s₀)
    (h : Run authEnv (authStart minutes requests s₀) l c) (hout : LoggedOut requests c token)
    (hnow : c.shared.now < token.expiresAt) : c.shared.Revoked token := by
  obtain ⟨j, a, hj, hdone⟩ := hout
  have hanswered := (auth_sound h₀ h).of_done hdone
  rw [hj] at hanswered
  exact hanswered.2 hnow

/-- Only a logged-out token has a record. -/
theorem loggedOut_of_record (hrevoked : s₀.revokedTokens = [])
    (h : Run authEnv (authStart minutes requests s₀) l c) :
    ∀ r ∈ c.shared.revokedTokens, ∃ token, token.jti = r.jti ∧ LoggedOut requests c token := by
  induction h with
  | nil =>
      intro r hr
      rw [authStart, hrevoked] at hr
      cases hr
  | @concat l c d m h hs ih =>
      -- a logout that was answered stays answered
      have hold {r : RevokedToken} (hr : r ∈ c.shared.revokedTokens) :
          ∃ token, token.jti = r.jti ∧ LoggedOut requests d token := by
        obtain ⟨token, hjti, j, a, hj, hdone⟩ := ih r hr
        refine ⟨token, hjti, j, a, hj, ?_⟩
        rw [hs.prog_of_ended (hdone ▸ .done a), hdone]
      intro r hr
      cases hs with
      | @act _ i f k x hp hx =>
          have hevery := h.every (i := i) ((requests i).program_every minutes)
          rw [hp] at hevery
          rcases hevery.1 with hkeep | ⟨token, hi, hlast⟩
          · exact hold (hkeep x c.shared ▸ hr)
          · obtain ⟨⟨a, ha⟩, hnew⟩ := hlast x c.shared
            rcases hnew r hr with hr | hjti
            · exact hold hr
            · refine ⟨token, hjti.symm, i, a, hi, ?_⟩
              show Function.update c.prog i _ i = _
              rw [Function.update_self, ha]
      | env hm =>
          cases hm with
          | clock => exact hold hr
          | expire => exact hold (List.mem_of_mem_erase hr)

theorem loggedOut_of_revoked (h₀ : AuthInv s₀) (hrevoked : s₀.revokedTokens = [])
    (h : Run authEnv (authStart minutes requests s₀) l c) (htoken : token ∈ c.shared.signed)
    (hrecord : c.shared.Revoked token) : LoggedOut requests c token := by
  obtain ⟨r, hr, hjti⟩ := hrecord
  obtain ⟨token', hjti', hout⟩ := loggedOut_of_record hrevoked h r hr
  obtain ⟨j, a, hj, hdone⟩ := id hout
  have hsound := auth_sound h₀ h
  have hanswered := hsound.of_done hdone
  rw [hj] at hanswered
  obtain rfl := hsound.inv.jtis _ hanswered.1 _ htoken (hjti'.trans hjti)
  exact hout

/-! ### One call -/

/-- A call of `get_current_user` by request `i`: it reads the clock in the state
`decoding`, looks for the record in the state `lookingUp` if it gets as far, and in the
state `final` the request has been answered. -/
structure TokenCall (minutes : Nat) (requests : ν → AuthRequest) (s₀ : AuthStore) (i : ν)
    (decoding lookingUp final : Config ν AuthStore AuthInput AuthError AuthResponse) :
    Prop where
  called : ∃ l, Run authEnv (authStart minutes requests s₀) l decoding ∧ some i ∉ l
  decoded : ∃ c l, Step authEnv (some i) decoding c ∧ Run authEnv c l lookingUp ∧ some i ∉ l
  answered : lookingUp = final ∨
    ∃ c l, Step authEnv (some i) lookingUp c ∧ Run authEnv c l final
  ended : (final.prog i).Ended

variable {decoding lookingUp final : Config ν AuthStore AuthInput AuthError AuthResponse}

theorem TokenCall.run_lookingUp (h : TokenCall minutes requests s₀ i decoding lookingUp final) :
    ∃ l, Run authEnv (authStart minutes requests s₀) l lookingUp := by
  obtain ⟨l₁, hrun₁, -⟩ := h.called
  obtain ⟨c, l₂, hstep, hrun₂, -⟩ := h.decoded
  exact ⟨_, (hrun₁.concat hstep).trans hrun₂⟩

/-- A token stays signed. -/
theorem TokenCall.signed_later (h : TokenCall minutes requests s₀ i decoding lookingUp final)
    (h₀ : AuthInv s₀) (htoken : token ∈ decoding.shared.signed) :
    token ∈ lookingUp.shared.signed := by
  obtain ⟨l₁, hrun₁, -⟩ := h.called
  obtain ⟨c, l₂, hstep, hrun₂, -⟩ := h.decoded
  have hrely := (Run.sound (fun _ _ _ _ hG => hG) (auth_sound h₀ hrun₁)
    ((Run.nil.concat hstep).trans hrun₂)).2
  exact hrely.signed token htoken

theorem TokenCall.loggedOut_later (h : TokenCall minutes requests s₀ i decoding lookingUp final)
    (hout : LoggedOut requests decoding token) : LoggedOut requests lookingUp token := by
  obtain ⟨c, l₂, hstep, hrun₂, -⟩ := h.decoded
  obtain ⟨j, a, hj, hdone⟩ := hout
  have hrun := (Run.nil.concat hstep).trans hrun₂
  exact ⟨j, a, hj, (hrun.prog_of_ended (by rw [hdone]; exact .done _)).trans hdone⟩

/-- A call accepts its token if it reads the clock in time and finds no record. -/
theorem TokenCall.accepted_iff (h : TokenCall minutes requests s₀ i decoding lookingUp final)
    (h₀ : AuthInv s₀) (hi : (requests i).presents = some token)
    (htoken : token ∈ decoding.shared.signed) : (∃ a, final.prog i = .done a) ↔
      decoding.shared.now < token.expiresAt ∧ ¬ lookingUp.shared.Revoked token := by
  obtain ⟨l₁, hrun₁, hi₁⟩ := h.called
  obtain ⟨c, l₂, hstep, hrun₂, hi₂⟩ := h.decoded
  obtain ⟨handler, hprogram, hhandler⟩ := AuthRequest.program_of_presents minutes hi
  have hprog : decoding.prog i = _ := (hrun₁.prog_of_notMem hi₁).trans hprogram
  obtain ⟨x, -, hc, hci⟩ := hstep.of_act hprog
  have hli := (hrun₂.prog_of_notMem hi₂).trans hci
  by_cases hnow : decoding.shared.now < token.expiresAt
  · rw [if_neg (not_not.mpr htoken), if_neg (Nat.not_le.mpr hnow)] at hli
    rcases h.answered with rfl | ⟨c', l₃, hstep', hrun₃⟩
    · have hended := h.ended
      rw [hli] at hended
      cases hended
    obtain ⟨x', -, hc', hci'⟩ := hstep'.of_act hli
    have hrun' := ((hrun₁.concat hstep).trans hrun₂).concat hstep'
    by_cases hrecord : lookingUp.shared.Revoked token
    · rw [if_pos (AuthStore.revoked_iff.mpr hrecord)] at hci'
      have hfinal := hrun₃.prog_of_ended (i := i) (by rw [hci']; exact .raise _)
      simp [hfinal, hci', hrecord]
    · rw [if_neg (mt AuthStore.revoked_iff.mp hrecord)] at hci'
      -- from here the call goes through
      have hsound' := auth_sound h₀ hrun'
      have hsigned : token ∈ c'.shared.signed := by
        have hrely := (Run.sound (fun _ _ _ _ hG => hG) (auth_sound h₀ hrun₁)
          ((Run.nil.concat hstep).trans hrun₂ |>.concat hstep')).2
        exact hrely.signed token htoken
      have hthrough : c'.Sound authProtocol (fun _ => AuthRely)
          fun j => ⟨fun _ _ => True, fun _ _ => j ≠ i⟩ := by
        refine ⟨hsound'.inv, fun j => ?_⟩
        by_cases hj : j = i
        · subst hj
          rw [hci']
          exact Prog.wp_mono (hhandler _ hsound'.inv hsigned) (fun _ _ _ h => h)
            fun _ _ _ h => h.elim
        · exact Prog.wp_mono (hsound'.progs j) (fun _ _ _ _ => trivial) fun _ _ _ _ => hj
      have hfinal := (Run.sound (fun _ _ _ _ hG => hG) hthrough hrun₃).1
      refine ⟨fun _ => ⟨hnow, hrecord⟩, fun _ => ?_⟩
      have hended := h.ended
      cases hp : final.prog i with
      | done a => exact ⟨a, rfl⟩
      | raise e => exact absurd rfl (hfinal.of_raise hp)
      | act f k =>
          rw [hp] at hended
          cases hended
  · rw [if_neg (not_not.mpr htoken), if_pos (Nat.not_lt.mp hnow)] at hli
    rcases h.answered with rfl | ⟨c', l₃, hstep', -⟩
    · simp [hli, hnow]
    · exact absurd (by rw [hli]; exact .raise _) hstep'.not_ended

/-- The call accepts its token exactly if it reads the clock before the token expires and
no logout with the token has been answered before it looks for the record, unless it
reads the clock in time, the token was logged out, and the record is gone when it is
looked for; and then the token has expired by that time. Where there is a record, another
logout changes nothing. -/
theorem token_accepted_iff (hsigned : s₀.signed = []) (hrevoked : s₀.revokedTokens = [])
    (h : TokenCall minutes requests s₀ i decoding lookingUp final)
    (hi : (requests i).presents = some token) (htoken : token ∈ decoding.shared.signed) :
    (((∃ a, final.prog i = .done a) ↔
        decoding.shared.now < token.expiresAt ∧ ¬ LoggedOut requests lookingUp token) ↔
      ¬ (decoding.shared.now < token.expiresAt ∧ LoggedOut requests lookingUp token ∧
        ¬ lookingUp.shared.Revoked token)) ∧
    (LoggedOut requests lookingUp token → ¬ lookingUp.shared.Revoked token →
      token.expiresAt ≤ lookingUp.shared.now) ∧
    ∀ j c, requests j = .logout token → lookingUp.shared.Revoked token →
      Step authEnv (some j) lookingUp c → c.shared = lookingUp.shared := by
  have h₀ := authInv_of_unused hsigned hrevoked
  obtain ⟨l, hrun⟩ := h.run_lookingUp
  have hsigned' : token ∈ lookingUp.shared.signed := h.signed_later h₀ htoken
  have hout := loggedOut_of_revoked h₀ hrevoked hrun hsigned'
  refine ⟨?_, fun hlogged hnone => ?_, fun j c hj hrecord hstep => ?_⟩
  · rw [h.accepted_iff h₀ hi htoken]
    constructor
    · intro hiff hgone
      obtain ⟨hnow, hlogged, hnone⟩ := hgone
      exact (hiff.mp ⟨hnow, hnone⟩).2 hlogged
    · intro hkept
      refine and_congr_right fun hnow => ⟨fun hnone hlogged => hkept ⟨hnow, hlogged, hnone⟩, ?_⟩
      exact fun hnot hrecord => hnot (hout hrecord)
  · by_contra hnow
    exact hnone (revoked_of_loggedOut h₀ hrun hlogged (Nat.not_le.mp hnow))
  · have hevery := hrun.every (i := j) (A := fun f _ => ∀ x s, s.Revoked token → f x s = s)
      (D := fun _ => True) (by
        show ((requests j).program minutes).Every _ _
        rw [hj]
        exact logout_every token)
    cases hstep with
    | act hp =>
        rw [hp] at hevery
        exact hevery.1 _ _ hrecord

end Runs

namespace Example

scoped instance : Bcrypt where
  hashpw _ password := password
  checkpw password hashed := password == hashed

/-- The token of the first user, issued at the first instant for half an hour. -/
def token : AccessToken where
  sub := 7
  jti := "jti"
  iat := 0
  exp := 1800

/-- A registration, a logout with the token it issues, and requests with that token. -/
def requests : Nat → AuthRequest
  | 0 => .register "ada@example.com" "correct-horse-battery-staple"
  | 1 => .logout token
  | _ + 2 => .authenticated token

def unused : AuthStore := ⟨0, [], [], []⟩

/-- A request reads the clock a moment before the logged-out token expires, and looks
for the record once it is deleted. -/
theorem straddled : ∃ decoding lookingUp final, TokenCall 30 requests unused 2 decoding lookingUp
    final ∧ token ∈ decoding.shared.signed ∧ LoggedOut requests decoding token ∧
      ∃ a, final.prog 2 = .done a := by
  refine ⟨_, _, _, ⟨⟨_, .concat (.concat (.concat (.concat (.concat (.concat .nil
      (.act (i := 0) (x := ⟨7, "", ""⟩) rfl ?_)) (.act (i := 0) (x := ⟨8, "jti", ""⟩) rfl ?_))
      (.act (i := 1) (x := ⟨8, "", ""⟩) rfl ?_)) (.act (i := 1) (x := ⟨8, "", ""⟩) rfl ?_))
      (.act (i := 1) (x := ⟨8, "", ""⟩) rfl ?_)) (.act (i := 1) (x := ⟨8, "", ""⟩) rfl ?_), ?_⟩,
    ⟨_, _, .act (x := ⟨8, "", ""⟩) rfl ?_, .concat (.concat .nil
      (.env (.clock (t := 1800000000) ?_))) (.env (.expire (r := ⟨"jti", 7, 1800000, 0⟩) ?_)),
      ?_⟩,
    .inr ⟨_, _, .act (x := ⟨8, "", ""⟩) rfl ?_,
      .concat .nil (.act (i := 2) (x := ⟨8, "", ""⟩) rfl ?_)⟩, ?_⟩,
    ?_, ?_, ?_⟩
  all_goals first
    | decide
    | exact .done _
    | exact ⟨1, _, rfl, rfl⟩
    | exact ⟨_, rfl⟩

end Example

open Example in
theorem token_accepted_iff_straddled : ∃ decoding lookingUp final,
    TokenCall 30 requests unused 2 decoding lookingUp final ∧
      token.expiresAt ≤ lookingUp.shared.now := by
  obtain ⟨decoding, lookingUp, final, hcall, hsigned, hout, haccepted⟩ := straddled
  obtain ⟨hiff, hexpired, -⟩ := token_accepted_iff rfl rfl hcall rfl hsigned
  refine ⟨decoding, lookingUp, final, hcall, ?_⟩
  have hlater := hcall.loggedOut_later hout
  by_contra hnow
  have hrecord : lookingUp.shared.Revoked token := by
    by_contra hnone
    exact hnow (hexpired hlater hnone)
  have hkept := hiff.mpr fun hgone => hgone.2.2 hrecord
  exact (hkept.mp haccepted).2 hlater

open Example in
/-- A logged-out token is accepted by the call that straddles its expiry. -/
theorem accepts_loggedOut : ¬ ∀ (requests : Nat → AuthRequest) (i : Nat) (token : AccessToken)
    (decoding lookingUp final : Config Nat AuthStore AuthInput AuthError AuthResponse),
    TokenCall 30 requests unused i decoding lookingUp final →
    (requests i).presents = some token → token ∈ decoding.shared.signed →
    ((∃ a, final.prog i = .done a) ↔
      decoding.shared.now < token.expiresAt ∧ ¬ LoggedOut requests decoding token) := by
  intro h
  obtain ⟨decoding, lookingUp, final, hcall, hsigned, hout, haccepted⟩ := straddled
  exact ((h requests 2 token _ _ _ hcall rfl hsigned).mp haccepted).2 hout

end Ledgerlock
