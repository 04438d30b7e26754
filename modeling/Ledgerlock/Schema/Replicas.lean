import Ledgerlock.Interleave.Run
import Ledgerlock.Schema.Setup

/-!
# Ledgerlock.Schema.Replicas

Replicas that start: each runs `initialise_database` command by command, with anything the
others do in between, and then serves, which is to say that it writes documents.
-/

namespace Ledgerlock.Schema

open DocServer
open Interleave (Env Prog)

/-- What can leave `initialise_database`. -/
inductive SetupError
  | operationFailure (e : ServerError)
  /-- Of an index that cannot be made. -/
  | runtimeError (e : ServerError)
  deriving Repr, DecidableEq

abbrev SetupProg (α : Type) := Prog (Server BsonDocument) Unit SetupError α

/-- A command, sent as `send` says, and what is raised if the server refuses it. -/
def request (send : Server BsonDocument → Except ServerError (Server BsonDocument))
    (raised : ServerError → SetupError) : SetupProg Unit :=
  .act
    (fun _ s =>
      match send s with
      | .ok t => t
      | .error _ => s)
    fun _ s =>
      match send s with
      | .ok _ => .done ()
      | .error e => .raise (raised e)

section Collections

variable [DecidableEq (Validation BsonDocument)]

/-- What the server makes of a `create`: it is done with one whose collection is there with
the same options. -/
def execCreate (s : Server BsonDocument) (name : String) (validation : Validation BsonDocument) :
    Except ServerError (Server BsonDocument) :=
  match s.collections name with
  | some c => if c.validation = validation then .ok s else .error .namespaceExists
  | none => s.exec (.createCollection name validation)

/-- One command of the loop. The driver's look before a `create` is a visit of its own, and
what the server itself refuses is no `CollectionInvalid`. -/
def requestTolerant : Command BsonDocument → SetupProg Unit
  | .createCollection name validation => do
      if ← Prog.read (existing · name) then pure ()
      else request (execCreate · name validation) .operationFailure
  | command => request (·.exec command) .operationFailure

theorem requestTolerant_of_not {command : Command BsonDocument}
    (h : ∀ name validation, command ≠ .createCollection name validation) :
    requestTolerant command = request (·.exec command) .operationFailure := by
  unfold requestTolerant
  split
  · exact absurd rfl (h _ _)
  · rfl

/-- `ensure_collections_and_validators`, command by command. -/
def collectionsSetup : SetupProg Unit := do
  let existing ← Prog.read existing
  (allCollections.filterMap (ensureCollection existing)).foldlM
    (fun _ command => requestTolerant command) ()

end Collections

/-- `ensure_indexes` -/
def indexesSetup : SetupProg Unit :=
  requiredIndexes.foldlM
    (fun _ p => request (·.exec (.createIndex p.1 p.2)) .runtimeError) ()

section Setup

variable [DecidableEq (Validation BsonDocument)]

/-- `initialise_database` -/
def databaseSetup : SetupProg Unit := do
  collectionsSetup
  indexesSetup

/-- A write of a handler: whatever the server raises, the handler deals with. -/
def serve (command : Command BsonDocument) : SetupProg Unit :=
  .act
    (fun _ s =>
      match s.exec command with
      | .ok t => t
      | .error _ => s)
    fun _ _ => .done ()

/-- A replica, and all it is going to write. -/
def replica (traffic : List (Command BsonDocument)) : SetupProg Unit := do
  databaseSetup
  traffic.foldlM (fun _ command => serve command) ()

end Setup

/-- The commands of handlers: a document is added, changed or removed. -/
def writesDocuments : Command BsonDocument → Bool
  | .insert _ _ false | .update _ _ _ | .remove _ _ => true
  | _ => false

/-- Meanwhile the clock goes on, and the server removes documents that have expired. -/
def setupEnv : Env (Server BsonDocument) Unit where
  offers _ _ := True
  moves s t := Step [] s none t

/-- The replicas of a deployment, each about to start on the database `s`. -/
def replicas [DecidableEq (Validation BsonDocument)] {ν : Type}
    (traffic : ν → List (Command BsonDocument)) (s : Server BsonDocument) :
    Interleave.Config ν (Server BsonDocument) Unit SetupError Unit where
  shared := s
  prog i := replica (traffic i)

/-! ### One replica by itself -/

theorem eval_request {send : Server BsonDocument → Except ServerError (Server BsonDocument)}
    {raised : ServerError → SetupError} (s : Server BsonDocument) :
    (request send raised).eval () s =
      match send s with
      | .ok t => (.ok (), t)
      | .error e => (.error (raised e), s) := by
  rw [request, Prog.eval]
  cases send s <;> rfl

/-- A loop of programs that do what `send` does comes to what `foldlM` does. -/
theorem eval_foldlM {τ : Type} {send : Server BsonDocument → τ →
    Except ServerError (Server BsonDocument)} {p : τ → SetupProg Unit}
    (hp : ∀ x s t, send s x = .ok t → (p x).eval () s = (.ok (), t)) (xs : List τ)
    {s t : Server BsonDocument} (h : xs.foldlM send s = .ok t) :
    (xs.foldlM (fun _ x => p x) ()).eval () s = (.ok (), t) := by
  induction xs generalizing s with
  | nil =>
      obtain rfl := Except.ok.inj h
      rfl
  | cons x xs ih =>
      rw [List.foldlM_cons] at h
      rw [List.foldlM_cons, Prog.eval_bind]
      cases hx : send s x with
      | error e =>
          rw [hx] at h
          cases h
      | ok u =>
          rw [hx] at h
          rw [hp x s u hx]
          exact ih h

theorem eval_indexesSetup {s t : Server BsonDocument} (h : ensureIndexes s = .ok t) :
    indexesSetup.eval () s = (.ok (), t) := by
  rw [ensureIndexes] at h
  rw [indexesSetup]
  refine eval_foldlM (fun p u v hp => ?_) _ h
  rw [eval_request, hp]

section Alone

variable [DecidableEq (Validation BsonDocument)] {s t : Server BsonDocument}

/-- Nobody makes the collection between the look and the `create`. -/
theorem eval_requestTolerant {command : Command BsonDocument}
    (h : execTolerant s command = .ok t) :
    (requestTolerant command).eval () s = (.ok (), t) := by
  by_cases hcommand : ∀ name validation, command ≠ .createCollection name validation
  · rw [execTolerant_of_not hcommand] at h
    rw [requestTolerant_of_not hcommand, eval_request, h]
  · push Not at hcommand
    obtain ⟨name, validation, rfl⟩ := hcommand
    rw [requestTolerant, Prog.eval_bind, Prog.eval_read]
    rw [execTolerant] at h
    cases hc : s.collections name with
    | some c =>
        have hexisting : existing s name = true := by simp [existing, hc]
        rw [hexisting] at h ⊢
        obtain rfl := Except.ok.inj h
        rfl
    | none =>
        have hexisting : existing s name = false := by simp [existing, hc]
        rw [hexisting] at h ⊢
        have hcreate : execCreate s name validation = .ok t := by
          rw [execCreate, hc]
          exact h
        show (request _ _).eval () s = _
        rw [eval_request, hcreate]

theorem eval_collectionsSetup (h : ensureCollectionsAndValidators s = .ok t) :
    collectionsSetup.eval () s = (.ok (), t) := by
  rw [ensureCollectionsAndValidators] at h
  rw [collectionsSetup, Prog.eval_bind, Prog.eval_read]
  refine eval_foldlM (fun command u v hcommand => ?_) _ h
  exact eval_requestTolerant hcommand

/-- Undisturbed, `initialise_database` is what it is in one piece. -/
theorem eval_databaseSetup (h : initialiseDatabase s = .ok t) :
    databaseSetup.eval () s = (.ok (), t) := by
  rw [initialiseDatabase] at h
  cases hcollections : ensureCollectionsAndValidators s with
  | error e =>
      rw [hcollections] at h
      cases h
  | ok u =>
      rw [hcollections] at h
      rw [databaseSetup, Prog.eval_bind, eval_collectionsSetup hcollections]
      exact eval_indexesSetup h

end Alone

end Ledgerlock.Schema
