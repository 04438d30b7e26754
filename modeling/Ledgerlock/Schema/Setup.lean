import Ledgerlock.DocServer.Rules
import Ledgerlock.Schema.Validators

/-!
# Ledgerlock.Schema.Setup

`initialise_database` of `app/core/db.py`: the collections with their validators, then the
indexes. It leaves a fresh database `Initialised`, and an initialised one as it is.
-/

namespace Ledgerlock.Schema

open DocServer

/-! ### Collections -/

def allCollections : List String :=
  ["users", "revoked_tokens", "accounts", "transactions", "ledger_entries"]

def collectionValidators : List (String × Query) :=
  [("ledger_entries", ledgerEntryValidator), ("transactions", transactionValidator)]

def strictValidation (q : Query) : Validation BsonDocument where
  validator := q.matches
  validationLevel := .strict
  validationAction := .error

/-- The command for one collection: a validator is applied anew to a collection that
exists. -/
def ensureCollection (existing : String → Bool) (name : String) :
    Option (Command BsonDocument) :=
  match collectionValidators.lookup name, existing name with
  | some q, true => some (.collMod name
      { validator := some q.matches
        validationLevel := some .strict
        validationAction := some .error })
  | none, true => none
  | some q, false => some (.createCollection name (strictValidation q))
  | none, false => some (.createCollection name .none)

def existing (s : Server BsonDocument) (name : String) : Bool := (s.collections name).isSome

/-- One command of the loop. The driver looks before it sends a `create`, and raises
`CollectionInvalid` for a collection that is there, which is caught: another worker made it. -/
def execTolerant (s : Server BsonDocument) :
    Command BsonDocument → Except ServerError (Server BsonDocument)
  | .createCollection name validation =>
      if existing s name then .ok s else s.exec (.createCollection name validation)
  | command => s.exec command

theorem execTolerant_of_not {s : Server BsonDocument} {command : Command BsonDocument}
    (h : ∀ name validation, command ≠ .createCollection name validation) :
    execTolerant s command = s.exec command := by
  unfold execTolerant
  split
  · exact absurd rfl (h _ _)
  · rfl

def ensureCollectionsAndValidators (s : Server BsonDocument) :
    Except ServerError (Server BsonDocument) :=
  (allCollections.filterMap (ensureCollection (existing s))).foldlM execTolerant s

/-! ### Indexes -/

def usersIndexes : List (Index BsonDocument) :=
  [{ name := "uq_email", keys := [("email", 1)], unique := true }]

def revokedTokensIndexes : List (Index BsonDocument) :=
  [{ name := "uq_jti", keys := [("jti", 1)], unique := true },
   { name := "ttl_expires_at", keys := [("expires_at", 1)], expireAfterSeconds := some 0 }]

def accountsIndexes : List (Index BsonDocument) :=
  [{ name := "ix_owner_id", keys := [("owner_id", 1)] },
   { name := "uq_system_account_per_currency"
     keys := [("account_type", 1), ("currency", 1)]
     unique := true
     partialFilterExpression := fun document =>
       (document.lookup "account_type").any fun v => v.equals (.string "SYSTEM") }]

def transactionsIndexes : List (Index BsonDocument) :=
  [{ name := "uq_idempotency_key", keys := [("idempotency_key", 1)], unique := true },
   { name := "ix_source_created", keys := [("source_account_id", 1), ("created_at", -1)] },
   { name := "ix_destination_created"
     keys := [("destination_account_id", 1), ("created_at", -1)] }]

def ledgerEntriesIndexes : List (Index BsonDocument) :=
  [{ name := "ix_account_created", keys := [("account_id", 1), ("created_at", -1)] },
   { name := "uq_one_entry_per_direction_per_transaction"
     keys := [("transaction_id", 1), ("direction", 1)]
     unique := true }]

/-- Every index, with its collection, in the order they are made. -/
def requiredIndexes : List (String × Index BsonDocument) :=
  usersIndexes.map ("users", ·) ++ revokedTokensIndexes.map ("revoked_tokens", ·)
    ++ accountsIndexes.map ("accounts", ·) ++ transactionsIndexes.map ("transactions", ·)
    ++ ledgerEntriesIndexes.map ("ledger_entries", ·)

def ensureIndexes (s : Server BsonDocument) : Except ServerError (Server BsonDocument) :=
  requiredIndexes.foldlM (fun s p => s.exec (.createIndex p.1 p.2)) s

def initialiseDatabase (s : Server BsonDocument) : Except ServerError (Server BsonDocument) := do
  let s ← ensureCollectionsAndValidators s
  ensureIndexes s

/-! ### An initialised database -/

/-- The check of the collection of that name. -/
def initialValidation (name : String) : Validation BsonDocument :=
  match collectionValidators.lookup name with
  | some q => strictValidation q
  | none => .none

def initialIndexes (name : String) : List (Index BsonDocument) :=
  idIndex :: (requiredIndexes.filter fun p => p.1 = name).map Prod.snd

/-- The collections have the validators and the indexes of the application, and documents
that pass the validators. -/
def Initialised (s : Server BsonDocument) : Prop :=
  ∀ name ∈ allCollections, ∃ c, s.collections name = some c ∧
    c.validation = initialValidation name ∧ c.indexes = initialIndexes name ∧
    ∀ document ∈ c.documents, (initialValidation name).admits document = true

/-- A database without a collection. -/
def fresh (now : Instant) : Server BsonDocument := ⟨now, fun _ => none⟩

theorem initialiseDatabase_fresh (now : Instant) :
    ∃ s, initialiseDatabase (fresh now) = .ok s ∧ Initialised s := by
  refine ⟨_, rfl, ?_⟩
  intro name hname
  simp only [allCollections, List.mem_cons, List.not_mem_nil, or_false] at hname
  rcases hname with rfl | rfl | rfl | rfl | rfl <;>
    exact ⟨_, rfl, rfl, rfl, fun _ h => absurd h List.not_mem_nil⟩

theorem foldlM_eq_self {α σ ε : Type} {f : σ → α → Except ε σ} {s : σ} {l : List α}
    (h : ∀ x ∈ l, f s x = .ok s) : l.foldlM f s = .ok s := by
  induction l with
  | nil => rfl
  | cons x rest ih =>
      rw [List.foldlM_cons, h x (by simp)]
      exact ih fun y hy => h y (by simp [hy])

theorem exec_createIndex_eq_self {s : Server BsonDocument} {name : String}
    {c : Collection BsonDocument} {idx : Index BsonDocument}
    (hc : s.collections name = some c) (hidx : idx ∈ c.indexes) :
    s.exec (.createIndex name idx) = .ok s := by
  have htaken : c.createIndex idx = .ok c := by
    rw [Collection.createIndex, if_pos (List.any_eq_true.2 ⟨idx, hidx, by simp⟩)]
  show ((s.collection name).createIndex idx).map (s.put name) = .ok s
  rw [Server.collection_eq hc, htaken]
  exact congrArg Except.ok (Server.put_eq_self hc)

/-- The command for a collection that is there is no `create`. -/
theorem ensureCollection_of_existing {ex : String → Bool} {name : String}
    {command : Command BsonDocument} (hex : ex name = true)
    (h : ensureCollection ex name = some command) :
    ∃ q, collectionValidators.lookup name = some q ∧ command = .collMod name
      { validator := some q.matches
        validationLevel := some .strict
        validationAction := some .error } := by
  unfold ensureCollection at h
  rw [hex] at h
  cases hq : collectionValidators.lookup name with
  | none =>
      rw [hq] at h
      cases h
  | some q =>
      rw [hq] at h
      exact ⟨q, rfl, (Option.some.inj h).symm⟩

/-- The command for a collection that has its check changes nothing. -/
theorem exec_ensureCollection_eq_self {s : Server BsonDocument} {ex : String → Bool}
    {name : String} {c : Collection BsonDocument} {command : Command BsonDocument}
    (hc : s.collections name = some c) (hvalidation : c.validation = initialValidation name)
    (hex : ex name = true) (h : ensureCollection ex name = some command) :
    s.exec command = .ok s := by
  obtain ⟨q, hq, rfl⟩ := ensureCollection_of_existing hex h
  rw [initialValidation, hq] at hvalidation
  rw [exec_collMod_eq hc]
  show Except.ok (s.put name { c with validation := strictValidation q }) = .ok s
  have hsame : { c with validation := strictValidation q } = c :=
    congrArg (fun v => { c with validation := v }) hvalidation.symm
  rw [hsame, Server.put_eq_self hc]

/-- Starting again changes nothing. -/
theorem initialiseDatabase_eq_self {s : Server BsonDocument} (hs : Initialised s) :
    initialiseDatabase s = .ok s := by
  have hcollections : ensureCollectionsAndValidators s = .ok s := by
    refine foldlM_eq_self ?_
    intro command hcommand
    obtain ⟨name, hname, hensure⟩ := List.mem_filterMap.1 hcommand
    obtain ⟨c, hc, hvalidation, -, -⟩ := hs name hname
    have hex : existing s name = true := by simp [existing, hc]
    have hexec := exec_ensureCollection_eq_self hc hvalidation hex hensure
    obtain ⟨q, -, rfl⟩ := ensureCollection_of_existing hex hensure
    rwa [execTolerant_of_not (by simp)]
  have hindexes : ensureIndexes s = .ok s := by
    refine foldlM_eq_self ?_
    intro p hp
    have hname : p.1 ∈ allCollections := by
      revert p
      decide
    obtain ⟨c, hc, -, hindexes, -⟩ := hs p.1 hname
    refine exec_createIndex_eq_self hc ?_
    rw [hindexes]
    exact List.mem_cons_of_mem _ (List.mem_map.2 ⟨p, by simpa using hp, rfl⟩)
  rw [initialiseDatabase, hcollections]
  exact hindexes

end Ledgerlock.Schema
