import Ledgerlock.Schema.Setup

/-!
# Ledgerlock.Schema.Roles

The role of `docker/mongo-provision-roles.js`, under which the hardened deployment runs
the application. It is granted what `initialise_database` needs, and nothing that changes
or removes a document of the two append-only collections directly.
-/

namespace Ledgerlock.Schema

open DocServer

def appendOnlyActions : List Action :=
  [.find, .insert, .createCollection, .createIndex, .listIndexes, .listCollections, .collMod]

def mutableActions : List Action := appendOnlyActions ++ [.update, .remove]

def appendOnlyCollections : List String := ["ledger_entries", "transactions"]

def mutableCollections : List String := ["users", "accounts", "revoked_tokens"]

def ledgerlockAppendOnlyLedger : Role :=
  appendOnlyCollections.map (⟨·, appendOnlyActions⟩)
    ++ mutableCollections.map (⟨·, mutableActions⟩)
    ++ [⟨"", [.listCollections, .listIndexes]⟩]

/-- No action that is granted is an update, a removal or a drop. -/
theorem appendOnly {name : String} (hname : name ∈ appendOnlyCollections) :
    ledgerlockAppendOnlyLedger.AppendOnly name := by
  rcases List.mem_pair.1 hname with rfl | rfl <;> constructor <;> decide

/-- The mutations that `verify_append_only.sh` tries are refused, whatever they select. -/
theorem permits_mutation {name : String} (hname : name ∈ appendOnlyCollections)
    (selects : BsonDocument → Bool) (change : BsonDocument → BsonDocument) :
    ledgerlockAppendOnlyLedger.permits (.update name selects change) = false ∧
    ledgerlockAppendOnlyLedger.permits (.remove name selects) = false ∧
    ledgerlockAppendOnlyLedger.permits (.dropCollection name : Command BsonDocument) = false ∧
    ledgerlockAppendOnlyLedger.permits (.dropDatabase : Command BsonDocument) = false := by
  have hrole := appendOnly hname
  exact ⟨Role.permits_eq_false hrole.update (by simp [Command.needs]),
    Role.permits_eq_false hrole.remove (by simp [Command.needs]),
    Role.permits_eq_false hrole.dropCollection (by simp [Command.needs]),
    Role.permits_eq_false hrole.dropDatabase (by simp [Command.needs])⟩

theorem grants_bypassDocumentValidation (name : String) :
    ledgerlockAppendOnlyLedger.grants name .bypassDocumentValidation = false := by
  simp [Role.grants, ledgerlockAppendOnlyLedger, appendOnlyCollections, mutableCollections,
    appendOnlyActions, mutableActions]

/-- The application can set up its database under the role. -/
theorem permits_initialiseDatabase (s : Server BsonDocument) :
    (∀ command ∈ allCollections.filterMap (ensureCollection (existing s)),
      ledgerlockAppendOnlyLedger.permits command = true) ∧
    ∀ p ∈ requiredIndexes,
      ledgerlockAppendOnlyLedger.permits (.createIndex p.1 p.2) = true := by
  have hgrants : ∀ name ∈ allCollections, ∀ action ∈ appendOnlyActions,
      ledgerlockAppendOnlyLedger.grants name action = true := by
    decide
  have hindexed : ∀ p ∈ requiredIndexes, p.1 ∈ allCollections := by decide
  refine ⟨?_, ?_⟩
  · intro command hcommand
    obtain ⟨name, hname, hensure⟩ := List.mem_filterMap.1 hcommand
    unfold ensureCollection at hensure
    split at hensure <;> cases hensure
    · simpa [Role.permits, Command.needs] using hgrants name hname .collMod (by decide)
    · simpa [Role.permits, Command.needs] using hgrants name hname .createCollection (by decide)
    · simpa [Role.permits, Command.needs] using hgrants name hname .createCollection (by decide)
  · intro p hp
    simpa [Role.permits, Command.needs] using
      hgrants p.1 (hindexed p hp) .createIndex (by decide)

end Ledgerlock.Schema
