import Ledgerlock.Interleave.Run
import Ledgerlock.Services.Account
import Mathlib.Data.List.AList

/-!
# Ledgerlock.Services.Startup

`ensure_system_accounts` of `account_service.py`, which every replica runs when it
starts. `ensureSystemAccounts` is its text: a loop over the currencies whose lookups
and inserts are one atomic operation each, outside any transaction, so that anything
may happen between two of them.
-/

namespace Ledgerlock

open Interleave (Prog)

/-- What a new account document is completed with: the model's two readings of the
clock, and the `_id` the driver assigns. -/
structure AccountStamp where
  createdAt : Timestamp
  updatedAt : Timestamp
  insertedId : ObjectId
  deriving Repr, DecidableEq

/-- What can leave `ensure_system_accounts`. -/
inductive StartupError
  | python (e : PyError)
  | duplicateKeyError
  deriving Repr, DecidableEq

abbrev StartupProg (α : Type) := Prog Database AccountStamp StartupError α

/-- `system_account_ids`, from currencies to ids. -/
abbrev SystemAccountIds := AList fun _ : String => ObjectId

/-- What `insert_one` comes to. -/
inductive InsertOneResult
  | inserted (insertedId : ObjectId)
  | duplicateKeyError
  deriving Repr, DecidableEq

/-- `accounts.insert_one`: one document is added, unless a unique index holds one of
its keys. -/
def Database.insertOne (d : Database) (account : Account) : Database :=
  if (DbWrite.insertAccount account).repeatsKey d then d else d.write (.insertAccount account)

def Database.insertOneResult (d : Database) (account : Account) : InsertOneResult :=
  if (DbWrite.insertAccount account).repeatsKey d then .duplicateKeyError
  else .inserted account.id

/-- `get_system_account`, outside any transaction. -/
def getSystemAccount (currency : String) : StartupProg (Option Account) :=
  Prog.read fun d => d.getSystemAccount currency

/-- `AccountDocument(...)` for the boundary of a currency, with what completes it. -/
def systemAccountDocument (currency : String) (x : AccountStamp) :
    Except StartupError Account :=
  match AccountDocument.create none currency .active .system (systemAccountLabel currency)
      x.createdAt x.updatedAt with
  | .ok account => .ok (account.toBson x.insertedId)
  | .error e => .error (.python e)

/-- The document is built and sent, in one action. -/
def insertSystemAccount (currency : String) : StartupProg InsertOneResult :=
  .act
    (fun x d =>
      match systemAccountDocument currency x with
      | .ok account => d.insertOne account
      | .error _ => d)
    fun x d =>
      match systemAccountDocument currency x with
      | .ok account => .done (d.insertOneResult account)
      | .error e => .raise e

/-- One round of the loop. -/
def provision (ids : SystemAccountIds) (currency : String) : StartupProg SystemAccountIds := do
  let existing ← getSystemAccount currency
  match existing with
  | some existing => pure (ids.insert currency existing.id)
  | none =>
      let result ← insertSystemAccount currency
      match result with
      | .inserted insertedId => pure (ids.insert currency insertedId)
      | .duplicateKeyError =>
          -- lost the race to another worker
          let winner ← getSystemAccount currency
          match winner with
          | none => Prog.raise .duplicateKeyError
          | some winner => pure (ids.insert currency winner.id)

/-- `ensure_system_accounts` -/
def ensureSystemAccounts (currencies : List String) : StartupProg SystemAccountIds :=
  currencies.foldlM provision ∅

/-- A new `_id` is one no account has. Meanwhile the database takes any other write its
unique indexes let through. -/
def startupEnv : Interleave.Env Database AccountStamp where
  offers d x := ∀ a ∈ d.accounts, a.id ≠ x.insertedId
  moves d d' := ∃ w : DbWrite, w.repeatsKey d = false ∧ d' = d.write w

instance (d : Database) (x : AccountStamp) : Decidable (startupEnv.offers d x) :=
  inferInstanceAs (Decidable (∀ a ∈ d.accounts, a.id ≠ x.insertedId))

/-- The replicas of a deployment, each about to run `ensure_system_accounts` on a
list of its own, on the database `d`. -/
def startup {ν : Type} (currencies : ν → List String) (d : Database) :
    Interleave.Config ν Database AccountStamp StartupError SystemAccountIds where
  shared := d
  prog i := ensureSystemAccounts (currencies i)

end Ledgerlock
