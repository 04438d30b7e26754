import Ledgerlock.Routes
import Ledgerlock.Spec.Outcome
import Ledgerlock.Spec.SameLedger

/-!
# Ledgerlock.Spec.Response

What a request comes to on the state it finds, up to the id and the time of the
transaction it writes: `respond` is that response as a function of the state, and
`Served.answers` says that serving a request gives it.
-/

namespace Ledgerlock

open Mvcc

/-- A response without what was generated for it. -/
def Response.anonymous : Response → Response
  | created body => created { body with id := 0, createdAt := 0 }
  | error e => error e

theorem Raised.anonymous_response (e : Raised) : e.anonymous.response = e.response := by
  unfold anonymous
  split <;> rfl

section Respond

variable [ServerSum]

/-- The response to a request served on the state `d`. -/
def respond (d : Database) (r : Request) : Response :=
  match r.asks d with
  | .error e => .error e
  | .ok args =>
      if args.sourceAccountId = args.destinationAccountId then
        .error (handleLedgerlockError (.sameAccountTransfer args.sourceAccountId))
      else
        match judge d args with
        | .error e => .error e.response
        | .ok _ => .created (.fromDocument ((transactionDocument args 0).toBson 0))

/-- Serving `r` on the state `d` gives a response, the writes of it and the ids it
uses up. -/
inductive Answers (d : Database) (r : Request) :
    Response → List DbWrite → List ObjectId → Prop
  | error {e : ErrorResponse} {ids : List ObjectId} : respond d r = .error e →
      Answers d r (.error e) [] ids
  | created {args : TransferArgs} {source : Account} {x : Stamp} : r.asks d = .ok args →
      args.sourceAccountId ≠ args.destinationAccountId → judge d args = .ok source →
      Answers d r (.created (.fromDocument (x.header args))) (transferWrites source args x) x.ids

section Served

variable {d : Database} {taken : Set ObjectId} {r : Request} {response : Response}
  {ws : List DbWrite} {ids : List ObjectId}

theorem Answers.respond_eq (h : Answers d r response ws ids) :
    response.anonymous = respond d r := by
  cases h with
  | error he => exact he.symm
  | created hasks hdistinct hjudge =>
      unfold respond
      rw [hasks]
      simp only [if_neg hdistinct, hjudge]
      rfl

/-- A transfer that is accepted is written. -/
theorem Answers.created_of_judge {args : TransferArgs} {source : Account}
    (h : Answers d r response ws ids) (hasks : r.asks d = .ok args)
    (hdistinct : args.sourceAccountId ≠ args.destinationAccountId)
    (hjudge : judge d args = .ok source) : ∃ x : Stamp,
      response = .created (.fromDocument (x.header args)) ∧ ws = transferWrites source args x := by
  cases h with
  | error he =>
      simp [respond, hasks, hdistinct, hjudge] at he
  | @created _ _ x hasks' _ hjudge' =>
      obtain rfl := Except.ok.inj (hasks.symm.trans hasks')
      obtain rfl := Except.ok.inj (hjudge.symm.trans hjudge')
      exact ⟨x, rfl, rfl⟩

/-- What the service answers is what `judge` decides. -/
theorem Served.answers (htaken : IdsTaken d taken) (h : Served d taken r response ws ids) :
    Answers d r response ws ids := by
  cases h with
  | refused hasks => exact .error (by rw [respond, hasks])
  | @written args result _ _ hasks halone =>
      have hends := alone_transfer (D := service) rfl htaken halone
      generalize hreply : Except.ok (Reply.written result) = outcome at hends
      cases hends with
      | refused | rejected => cases hreply
      | written hdistinct hjudge =>
          obtain rfl := Reply.written.inj (Except.ok.inj hreply)
          exact .created hasks hdistinct hjudge
  | @raised args failure _ _ hasks halone =>
      have hends := alone_transfer (D := service) rfl htaken halone
      generalize hfailed : Except.error failure = outcome at hends
      cases hends with
      | refused hsame =>
          obtain rfl := Except.error.inj hfailed
          exact .error (by rw [respond, hasks]; exact if_pos hsame)
      | rejected hdistinct hjudge =>
          obtain rfl := Except.error.inj hfailed
          refine .error ?_
          rw [respond, hasks]
          simp only [if_neg hdistinct, hjudge]
          rfl
      | written => cases hfailed

end Served

/-! ### Requests can be served -/

/-- A state that requests can be served on: the unique indexes hold, and there are
ids nobody has. -/
structure Ready (d : Database) (taken : Set ObjectId) : Prop where
  keys : d.keys.Nodup
  idsTaken : IdsTaken d taken
  supply : ∀ l : List ObjectId, ∃ x, x ∉ taken ∧ x ∉ l

theorem Ready.of_reachable {ν : Type} [DecidableEq ν] {D : Deployment ν} {st : LedgerState ν}
    (h : Reachable D.system st) : Ready (D.db st) st.issued where
  keys := History.keys_nodup h.history D.opening_keys
  idsTaken := idsTaken_of_reachable h
  supply := h.supply D.issued_finite

section Ready

variable {d : Database} {taken : Set ObjectId} {r : Request} {response : Response}
  {ws : List DbWrite} {ids : List ObjectId}

/-- A database that is ready is so still when a request has been served. -/
theorem Ready.served (h : Ready d taken) (hserved : Served d taken r response ws ids) :
    Ready (view d ws) (taken ∪ {x | x ∈ ids}) where
  keys := by
    cases hserved with
    | refused => exact h.keys
    | written _ halone | raised _ halone => exact keys_nodup_of_alone halone h.keys
  idsTaken := by
    cases hserved with
    | refused => exact fun k hk x hx => .inl (h.idsTaken k hk x hx)
    | written _ halone | raised _ halone =>
        exact h.idsTaken.after (alone_transfer (D := service) rfl h.idsTaken halone)
  supply := fun l => by
    obtain ⟨x, hx, hxl⟩ := h.supply (ids ++ l)
    exact ⟨x, by simp_all, by simp_all⟩

theorem Ready.exists_served (h : Ready d taken) (r : Request) :
    ∃ response ws ids, Served d taken r response ws ids := by
  cases hasks : r.asks d with
  | error e => exact ⟨_, _, _, .refused hasks⟩
  | ok args =>
      obtain ⟨outcome, ws, ids, halone⟩ :=
        exists_alone service.system d h.supply (.createTransfer args)
      have hends := alone_transfer (D := service) rfl h.idsTaken halone
      cases outcome with
      | error failure => exact ⟨_, _, _, .raised hasks halone⟩
      | ok reply =>
          cases hends with
          | written => exact ⟨_, _, _, .written hasks halone⟩

/-- Requests can be served in any order. -/
theorem Ready.exists_serves (h : Ready d taken) (requests : List Request) :
    ∃ run d', run.map Prod.fst = requests ∧ Serves d taken run d' := by
  induction requests generalizing d taken with
  | nil => exact ⟨[], d, rfl, .nil d taken⟩
  | cons r requests ih =>
      obtain ⟨response, ws, ids, hserved⟩ := h.exists_served r
      obtain ⟨run, d', hrun, hserves⟩ := ih (h.served hserved)
      exact ⟨(r, response) :: run, d', by rw [List.map_cons, hrun], .cons hserved hserves⟩

end Ready

end Respond

end Ledgerlock
