import Ledgerlock.Db

/-!
# Ledgerlock.Services.Account

The lookups and the writes of `account_service.py`. Opening an account and provisioning the
SYSTEM account of a currency are each a single `insert_one` outside any
transaction, and so is the status update an operator makes by hand; together
they are the only ways an account document comes about or changes outside a
transfer (`AccountWrite`).
-/

namespace Ledgerlock

/-- `create_account`: the insert it sends. The type is always USER. -/
def createAccount (ownerId : ObjectId) (currency label : String)
    (createdAt updatedAt : Timestamp) (insertedId : ObjectId) : Except PyError DbWrite := do
  let account ←
    AccountDocument.create (some ownerId) currency .active .user label createdAt updatedAt
  pure (.insertAccount (account.toBson insertedId))

/-- `get_account_or_raise` -/
def Database.getAccountOrRaise (d : Database) (accountId : ObjectId) :
    Except LedgerlockError Account :=
  match d.findAccount accountId with
  | none => .error (.accountNotFound none accountId)
  | some account => .ok account

/-- `get_owned_account_or_raise`: the owner is part of the query, so an account of
somebody else is as good as none. -/
def Database.getOwnedAccountOrRaise (d : Database) (accountId user : ObjectId) :
    Except LedgerlockError Account :=
  match d.accounts.find? fun a => a.id = accountId ∧ a.ownerId = some user with
  | none => .error (.accountNotFound none accountId)
  | some account => .ok account

theorem Database.getAccountOrRaise_eq_ok {d : Database} {accountId : ObjectId} {a : Account} :
    d.getAccountOrRaise accountId = .ok a ↔ d.findAccount accountId = some a := by
  unfold getAccountOrRaise
  cases d.findAccount accountId <;> simp

theorem Database.getOwnedAccountOrRaise_eq_ok {d : Database} {accountId user : ObjectId}
    {a : Account} (h : d.getOwnedAccountOrRaise accountId user = .ok a) :
    a ∈ d.accounts ∧ a.id = accountId ∧ a.ownerId = some user := by
  unfold getOwnedAccountOrRaise at h
  split at h
  · cases h
  · rename_i b hb
    obtain rfl := Except.ok.inj h
    exact ⟨List.mem_of_find?_eq_some hb, by simpa using List.find?_some hb⟩

/-- `get_system_account` -/
def Database.getSystemAccount (d : Database) (currency : String) : Option Account :=
  d.accounts.find? fun a => a.accountType = .system ∧ a.currency = currency

theorem Database.getSystemAccount_eq_some {d : Database} {currency : String} {a : Account}
    (h : d.getSystemAccount currency = some a) :
    a ∈ d.accounts ∧ a.accountType = .system ∧ a.currency = currency :=
  ⟨List.mem_of_find?_eq_some h, by simpa using List.find?_some h⟩

/-- `SYSTEM_ACCOUNT_LABEL_TEMPLATE` -/
def systemAccountLabel (currency : String) : String := "Ledger boundary (" ++ currency ++ ")"

/-- One round of the loop of `ensure_system_accounts`, on the state `d` its
lookup saw: the insert it sends, if any. Losing the race for the unique index is
the same as finding the account there. -/
def ensureSystemAccount (d : Database) (currency : String)
    (createdAt updatedAt : Timestamp) (insertedId : ObjectId) :
    Except PyError (Option DbWrite) :=
  match d.getSystemAccount currency with
  | some _ => .ok none
  | none => do
      let account ← AccountDocument.create none currency .active .system
        (systemAccountLabel currency) createdAt updatedAt
      pure (some (.insertAccount (account.toBson insertedId)))

/-- The writes made to `accounts` outside any transaction. -/
inductive AccountWrite : DbWrite → Prop
  | create {ownerId insertedId : ObjectId} {currency label : String}
      {createdAt updatedAt : Timestamp} {w : DbWrite} :
      createAccount ownerId currency label createdAt updatedAt insertedId = .ok w →
      AccountWrite w
  /-- The lookup may have seen any earlier state. -/
  | provision {d : Database} {currency : String} {createdAt updatedAt : Timestamp}
      {insertedId : ObjectId} {w : DbWrite} :
      ensureSystemAccount d currency createdAt updatedAt insertedId = .ok (some w) →
      AccountWrite w
  | setStatus (accountId : ObjectId) (status : AccountStatus) :
      AccountWrite (.setStatus accountId status)

/-- What such a write can be. -/
theorem AccountWrite.cases_write {w : DbWrite} (h : AccountWrite w) :
    (∃ a, w = .insertAccount a) ∨ ∃ id status, w = .setStatus id status := by
  cases h with
  | create h =>
      simp only [createAccount, bind, Except.bind] at h
      split at h
      · cases h
      · obtain rfl := Except.ok.inj h
        exact .inl ⟨_, rfl⟩
  | provision h =>
      simp only [ensureSystemAccount, bind, Except.bind] at h
      split at h
      · cases h
      · split at h
        · cases h
        · obtain rfl := Option.some.inj (Except.ok.inj h)
          exact .inl ⟨_, rfl⟩
  | setStatus id status => exact .inr ⟨id, status, rfl⟩

end Ledgerlock
