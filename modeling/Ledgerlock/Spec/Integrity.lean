import Ledgerlock.Spec.Audit
import Ledgerlock.Spec.Balances
import Ledgerlock.Spec.Provenance

/-!
# Ledgerlock.Spec.Integrity

What holds in every state of the service: the five collections fit together.

No index or validator says that the owner of an account is a user, that a transaction has
been submitted by one, or that a record of a revocation is of a token. It is so because of
where the documents come from (`Ledgerlock.Spec.Provenance`), and the books are in order
because the ledger always represents a journal.
-/

namespace Ledgerlock

open Interleave (Config Run)
open Mvcc

/-- A record is of the token of a logout. -/
theorem revoked_for [Bcrypt] {ν : Type} [DecidableEq ν] {minutes : Nat}
    {requests : ν → AuthRequest} {s₀ : AuthStore} {l : List (Option ν)}
    {c : Config ν AuthStore AuthInput AuthError AuthResponse} (h₀ : AuthInv s₀)
    (hrevoked : s₀.revokedTokens = []) (h : Run authEnv (authStart minutes requests s₀) l c)
    {r : RevokedToken} (hr : r ∈ c.shared.revokedTokens) :
    ∃ t ∈ c.shared.signed, t.jti = r.jti ∧ t.sub = r.userId ∧ r.expiresAt * 1000 = t.expiresAt := by
  have hauthor := h.exists_author (X := RevokedToken) (H := fun r s => r ∈ s.revokedTokens)
    (R := fun i r p => ∃ token, requests i = .logout token ∧ token.jti = r.jti ∧
      token.sub = r.userId ∧ token.expiresAt.toDate = r.expiresAt ∧ p = .done .loggedOut)
    (D := fun _ => True) ?_ ?_ ?_ hr
  · rcases hauthor with hstart | ⟨i, token, hi, hjti, hsub, hexpires, hdone⟩
    · rw [authStart, hrevoked] at hstart
      cases hstart
    · have hanswered := (auth_sound h₀ h).of_done hdone
      rw [hi] at hanswered
      refine ⟨token, hanswered.1, hjti, hsub, ?_⟩
      rw [← hexpires]
      -- whole seconds are whole milliseconds
      show token.exp * 1000000 / 1000 * 1000 = token.exp * 1000000
      omega
  · refine fun i => ((requests i).program_actions minutes).mono fun f k hfk x s r hr => ?_
    cases hfk with
    | read | issue => exact .inl hr
    | @insert email _ _ _ _ htaken hfree =>
        by_cases hany : ∃ u ∈ s.users, u.email = email
        · rw [(htaken x s hany).1] at hr
          exact .inl hr
        · rw [(hfree x s hany).1] at hr
          exact .inl hr
    | @revoke token hi =>
        have hr : r ∈ (s.revoke token.jti token.sub token.expiresAt).revokedTokens := hr
        unfold AuthStore.revoke at hr
        split at hr
        · exact .inl hr
        · rcases List.mem_append.mp hr with hr | hr
          · exact .inl hr
          · obtain rfl := List.mem_singleton.mp hr
            exact .inr ⟨token, hi, rfl, rfl, rfl, rfl⟩
  · rintro i r f k ⟨token, -, -, -, -, hdone⟩
    cases hdone
  · intro l e t _ hm r hr
    cases hm with
    | clock => exact hr
    | expire => exact List.mem_of_mem_erase hr

namespace Service

section Integrity

variable {ν : Type} [ServerSum] [DecidableEq ν] [Bcrypt] {S : Service ν} {c : ServiceConfig ν}

/-- The collections fit together, and the books are in order. -/
structure Sound (S : Service ν) (s : ServiceState ν) : Prop where
  users : UsersInv s.1
  tokens : ∀ t ∈ s.1.signed, ∃ u ∈ s.1.users, u.id = t.sub
  revokedTokens : ∀ r ∈ s.1.revokedTokens, ∃ t ∈ s.1.signed, t.jti = r.jti ∧ t.sub = r.userId ∧
    r.expiresAt * 1000 = t.expiresAt
  keys : (S.db s).keys.Nodup
  owners : ∀ a ∈ (S.db s).accounts, match a.accountType with
    | .user => ∃ u ∈ s.1.users, a.ownerId = some u.id
    | .system => a.ownerId = none
  submitters : ∀ t ∈ (S.db s).transactions, ∃ u ∈ s.1.users, t.submittedBy = some u.id
  transactions : ∀ t ∈ (S.db s).transactions, WellPosted (S.db s) t
  ledgerEntries : ∀ e ∈ (S.db s).ledgerEntries, ∃ t ∈ (S.db s).transactions,
    e.transactionId = t.id
  solvent : ∀ a ∈ (S.db s).accounts, a.accountType = .user → 0 ≤ (S.db s).balance a.id
  conserved : ∀ currency,
    (S.db s).holdings .user currency + (S.db s).holdings .system currency = 0
  healthy : ∀ checkedAt, ((S.db s).report checkedAt).healthy = true

theorem Parts.usersInv {now : Instant} {g : Config ν AuthStore AuthInput AuthError Admission}
    {q : Config ν (ApiState ν) AccountStamp ErrorEnvelope BodyResult}
    {a : Config ν AuthStore AuthInput AuthError AuthResponse}
    {b : Config ν (ApiState ν) AccountStamp ErrorResponse Api.Handled}
    (h : S.Parts now c g q a b) : UsersInv c.shared.1 := by
  obtain ⟨l, hauth⟩ := h.auth
  rw [← h.store]
  exact (users_grow .nil hauth).inv ⟨List.nodup_nil, List.nodup_nil⟩

/-- In every state that any requests come to, with replicas starting up, operators at work,
records expiring and calls failing around them. -/
theorem integrity (h : S.Reached c) : S.Sound c.shared := by
  obtain ⟨now, g, q, a, b, hparts⟩ := h.parts
  obtain ⟨l, hauth⟩ := hparts.auth
  have hinv := hparts.apiInv
  obtain ⟨journal, hjournal⟩ := S.api.deployment.represents hinv.reachable
  have hdb : S.api.deployment.db c.shared.2.ledger = S.db c.shared := rfl
  rw [hdb] at hjournal
  have hstore := (auth_sound (authInv_of_unused rfl rfl) hauth).inv
  rw [hparts.store] at hstore
  refine
    { users := hparts.usersInv
      tokens := hstore.subs
      revokedTokens := fun r hr => ?_
      keys := hjournal.keys
      owners := fun account haccount => ?_
      submitters := fun t ht => ?_
      transactions := fun t ht => ?_
      ledgerEntries := fun e he => ?_
      solvent := fun account haccount htype =>
        hjournal.solvent _ _ (hinv.holder haccount) htype
      conserved := fun currency => (sum_holdings _ currency).trans (hjournal.sum_balance currency)
      healthy := fun checkedAt => (healthy_iff checkedAt).mpr hjournal.healthy }
  · rw [← hparts.store] at hr ⊢
    exact revoked_for (authInv_of_unused rfl rfl) rfl hauth hr
  · split
    · rename_i htype
      obtain ⟨i, token, payload, -, hvouched, hopens, -⟩ := hparts.opener h haccount htype
      obtain ⟨-, -, u, hu, hid, -⟩ := hvouched.issued
      exact ⟨u, hu, hid ▸ hopens.owner⟩
    · rename_i htype
      exact (hinv.boundaries _ _ (hinv.holder haccount) htype).1
  · obtain ⟨k, hk, i, args, x, hauthor, -, rfl⟩ := hinv.transaction ht
    obtain ⟨token, header, route, -, hvouched, hasks⟩ :=
      hparts.caller h (hinv.authors k hk _ hauthor)
    obtain ⟨-, -, u, hu, hid, -⟩ := hvouched.issued
    exact ⟨u, hu, hid ▸ hasks.submittedBy⟩
  · rw [hjournal.transactions] at ht
    obtain ⟨p, hp, rfl⟩ := List.mem_map.mp ht
    exact hjournal.wellPosted hp
  · obtain ⟨p, hp, -, hid, -⟩ := hjournal.posting_of_mem he
    exact ⟨p.header, hjournal.transactions ▸ List.mem_map_of_mem hp, hid⟩

end Integrity

end Service

open Example in
/-- When Alice has paid. -/
theorem integrity_served : ∃ (c : ServiceConfig Nat) (x y : Stamp),
    bank.Reached c ∧ bank.db c.shared = servedDb x y ∧ bank.Sound c.shared := by
  obtain ⟨c, x, y, hc, hdb, -⟩ := served
  exact ⟨c, x, y, hc, hdb, Service.integrity hc⟩

end Ledgerlock
