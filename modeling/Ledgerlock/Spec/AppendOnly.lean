import Ledgerlock.Schema.Roles

/-!
# Ledgerlock.Spec.AppendOnly

What the application's own credentials can do to the ledger in the hardened deployment.

The role withholds `update` and `remove`, but the server itself removes documents under a
TTL index, and the role may make one (`createIndex`, `collMod`). It withholds
`bypassDocumentValidation`, but the check that cannot be bypassed may be replaced
(`collMod`). So entries last as long as no command brings a date under a TTL index
(`ledger_append_only_iff`), and are valid as long as no command loosens the validator
(`ledger_entries_valid_iff`).
-/

namespace Ledgerlock.Schema

open DocServer

/-- In neither collection does the command bring together a document and an index that
can make it expire. -/
def KeepsDocuments (s : Server BsonDocument) (command : Command BsonDocument) : Prop :=
  ∀ name ∈ appendOnlyCollections, command.exposes name (s.collection name) = false

/-- The command leaves no check in force on `ledger_entries` that lets in a document the
validator refuses. -/
def KeepsValidator (s : Server BsonDocument) (command : Command BsonDocument) : Prop :=
  ¬ command.Loosens ledgerEntryValidator.matches "ledger_entries" (s.collection "ledger_entries")

/-! ### Commands for the runs below -/

namespace Example

/-- A database after `initialise_database`. -/
def database : Server BsonDocument := (initialiseDatabase (fresh 0)).toOption.getD (fresh 0)

theorem database_initialised : Initialised database := by
  obtain ⟨s, hs, h⟩ := initialiseDatabase_fresh 0
  rwa [database, hs]

def after (commands : List (Command BsonDocument)) : Server BsonDocument :=
  (commands.foldlM Server.exec database).toOption.getD database

def debit : BsonDocument :=
  entryDocument
    { id := 1, transactionId := 2, accountId := 3, direction := .debit, amountMinor := 100
      signedAmountMinor := -100, currency := "USD", createdAt := 1000 }

def credit : BsonDocument :=
  entryDocument
    { id := 4, transactionId := 2, accountId := 5, direction := .credit, amountMinor := 100
      signedAmountMinor := 100, currency := "USD", createdAt := 1000 }

/-- A credit of a negative amount. -/
def negative : BsonDocument :=
  entryDocument
    { id := 1, transactionId := 2, accountId := 3, direction := .credit, amountMinor := -100
      signedAmountMinor := -100, currency := "USD", createdAt := 1000 }

def enter (document : BsonDocument) : Command BsonDocument :=
  .insert "ledger_entries" document false

/-- What `initialise_database` sends to a collection that exists. -/
def revalidate : Command BsonDocument :=
  .collMod "ledger_entries"
    { validator := some ledgerEntryValidator.matches
      validationLevel := some .strict
      validationAction := some .error }

def validationOff : Command BsonDocument :=
  .collMod "ledger_entries" { validationLevel := some .off }

def ttlIndex : Index BsonDocument :=
  { name := "created_at_1", keys := [("created_at", 1)], expireAfterSeconds := some 0 }

def expireAtOnce : Command BsonDocument := .createIndex "ledger_entries" ttlIndex

/-- With an entry, and then that index. -/
def exposed : Server BsonDocument := after [enter debit, expireAtOnce]

end Example

variable {s u : Server BsonDocument}

theorem mem_allCollections {name : String} (hname : name ∈ appendOnlyCollections) :
    name ∈ allCollections := by
  rcases List.mem_pair.1 hname with rfl | rfl <;> decide

/-- None of the indexes `initialise_database` makes on the two collections has a TTL. -/
theorem Initialised.permanent (hs : Initialised s) {name : String}
    (hname : name ∈ appendOnlyCollections) :
    ∃ c, s.collections name = some c ∧ c.Permanent := by
  obtain ⟨c, hc, -, hindexes, -⟩ := hs name (mem_allCollections hname)
  refine ⟨c, hc, ?_⟩
  intro idx hidx d hd
  have hnone : ∀ i ∈ initialIndexes name, i.expireAfterSeconds = none := by
    rcases List.mem_pair.1 hname with rfl | rfl <;> decide
  rw [Index.expiries, hnone idx (hindexes ▸ hidx)]
  split <;> simp_all

/-- **The ledger is append-only under the role as long as no command brings a date under
a TTL index**, in `ledger_entries` or in `transactions`; and after one that does, the
server need only wait to lose a document. -/
theorem ledger_append_only_iff (hs : Initialised s)
    (hrun : Run ledgerlockAppendOnlyLedger KeepsDocuments s u) :
    (∀ t, Run ledgerlockAppendOnlyLedger KeepsDocuments u t →
      ∀ name ∈ appendOnlyCollections, u.documents name <+: t.documents name) ∧
    ∀ command v, ledgerlockAppendOnlyLedger.permits command = true →
      u.exec command = .ok v →
      (¬ KeepsDocuments u command ↔ ∃ t, Run ledgerlockAppendOnlyLedger (fun _ _ => False) v t ∧
        ∃ name ∈ appendOnlyCollections, ¬ v.documents name <+: t.documents name) := by
  -- up to `u` nothing can expire
  have hpermanent : ∀ name ∈ appendOnlyCollections,
      ∃ c, u.collections name = some c ∧ c.Permanent := by
    intro name hname
    obtain ⟨c, hc, hpermanent⟩ := hs.permanent hname
    obtain ⟨c', hc', hpermanent', -⟩ := hrun.prefix (appendOnly hname)
      (fun _ _ h => h name hname) hc hpermanent
    exact ⟨c', hc', hpermanent'⟩
  refine ⟨?_, ?_⟩
  · intro t hut name hname
    obtain ⟨c, hc, hpermanent⟩ := hpermanent name hname
    obtain ⟨c', hc', -, hprefix⟩ := hut.prefix (appendOnly hname) (fun _ _ h => h name hname)
      hc hpermanent
    rwa [Server.documents_eq hc, Server.documents_eq hc']
  · intro command v hpermits hexec
    have hexposes : ∀ name ∈ appendOnlyCollections,
        (command.exposes name (u.collection name) = true ↔
          ∃ t, Run ledgerlockAppendOnlyLedger (fun _ _ => False) v t ∧
            ¬ v.documents name <+: t.documents name) := by
      intro name hname
      obtain ⟨c, hc, hpermanent⟩ := hpermanent name hname
      rw [Server.collection_eq hc]
      exact exposes_iff (appendOnly hname) hc hpermanent hpermits hexec
    constructor
    · intro hexposed
      simp only [KeepsDocuments, not_forall, Bool.not_eq_false] at hexposed
      obtain ⟨name, hname, h⟩ := hexposed
      obtain ⟨t, hvt, hlost⟩ := (hexposes name hname).1 h
      exact ⟨t, hvt, name, hname, hlost⟩
    · intro hlost hkeeps
      obtain ⟨t, hvt, name, hname, hlost⟩ := hlost
      have h := (hexposes name hname).2 ⟨t, hvt, hlost⟩
      rw [hkeeps name hname] at h
      cases h

/-- Two entries of one transaction are added, and the database set up again in between. -/
theorem ledger_append_only_entered : ∃ u t,
    Run ledgerlockAppendOnlyLedger KeepsDocuments Example.database u ∧
    Run ledgerlockAppendOnlyLedger KeepsDocuments u t ∧
    u.documents "ledger_entries" = [Example.debit] ∧
    t.documents "ledger_entries" = [Example.debit, Example.credit] ∧
    u.documents "ledger_entries" <+: t.documents "ledger_entries" := by
  have hu : Run ledgerlockAppendOnlyLedger KeepsDocuments Example.database
      (Example.after [Example.enter Example.debit]) :=
    Run.nil.command (Example.enter Example.debit) (by decide) rfl
      (by unfold KeepsDocuments; decide)
  have hut : Run ledgerlockAppendOnlyLedger KeepsDocuments
      (Example.after [Example.enter Example.debit])
      (Example.after [Example.enter Example.debit, Example.revalidate,
        Example.enter Example.credit]) := by
    refine (Run.nil.command Example.revalidate (by decide) rfl ?_).command
      (Example.enter Example.credit) (by decide) rfl ?_
    · unfold KeepsDocuments
      decide
    · unfold KeepsDocuments
      decide
  exact ⟨_, _, hu, hut, rfl, rfl,
    (ledger_append_only_iff Example.database_initialised hu).1 _ hut _ (by decide)⟩

/-- The role makes a TTL index on `created_at`, and the server deletes the entry. -/
theorem ledger_entry_expires : ¬ ∀ s u t, Initialised s →
    Run ledgerlockAppendOnlyLedger (fun _ _ => True) s u →
    Run ledgerlockAppendOnlyLedger (fun _ _ => True) u t →
    ∀ name ∈ appendOnlyCollections, ∀ d ∈ u.documents name, d ∈ t.documents name := by
  intro h
  have hu : Run ledgerlockAppendOnlyLedger (fun _ _ => True) Example.database
      (Example.after [Example.enter Example.debit]) :=
    Run.nil.command (Example.enter Example.debit) (by decide) rfl trivial
  have hv : Run ledgerlockAppendOnlyLedger (fun _ _ => True)
      (Example.after [Example.enter Example.debit]) Example.exposed :=
    Run.nil.command Example.expireAtOnce (by decide) rfl trivial
  have hcollection : Example.exposed.collections "ledger_entries" =
      some (Example.exposed.collection "ledger_entries") := rfl
  have hidx : Example.ttlIndex ∈ (Example.exposed.collection "ledger_entries").indexes :=
    List.mem_append_right _ (.head _)
  have hdocuments : (Example.exposed.collection "ledger_entries").documents =
      [] ++ Example.debit :: [] := rfl
  obtain ⟨t, hvt, ht⟩ := Run.exists_expired hcollection hidx hdocuments (by decide)
  have hlost := h _ _ t Example.database_initialised hu (hv.trans hvt) "ledger_entries" (by decide)
    Example.debit (.head _)
  rw [ht] at hlost
  cases hlost

/-- **Every entry is valid under the role as long as no command loosens the validator of
`ledger_entries`**; and after one that does, the server no longer refuses every invalid
entry. -/
theorem ledger_entries_valid_iff (hs : Initialised s)
    (hrun : Run ledgerlockAppendOnlyLedger KeepsValidator s u) :
    (∀ document ∈ u.documents "ledger_entries",
      ledgerEntryValidator.matches document = true) ∧
    ∀ command v, ledgerlockAppendOnlyLedger.permits command = true →
      u.exec command = .ok v →
      (KeepsValidator u command ↔ ∀ document, ledgerEntryValidator.matches document = false →
        v.exec (.insert "ledger_entries" document false) =
          .error .documentValidationFailure) := by
  have hrole : ledgerlockAppendOnlyLedger.AppendOnly "ledger_entries" := appendOnly (by decide)
  obtain ⟨c, hc, hvalidation, -, hdocuments⟩ := hs "ledger_entries" (by decide)
  have hadmits : ∀ document, (initialValidation "ledger_entries").admits document = true →
      ledgerEntryValidator.matches document = true := by
    intro document h
    simpa [initialValidation, collectionValidators, strictValidation, Validation.admits] using h
  obtain ⟨c', hc', hguards', hvalid⟩ := hrun.valid hrole (grants_bypassDocumentValidation _)
    (fun _ _ h => h) hc (hvalidation ▸ hadmits) (fun d hd => hadmits d (hdocuments d hd))
  refine ⟨?_, ?_⟩
  · rw [Server.documents_eq hc']
    exact hvalid
  · intro command v hpermits hexec
    rw [KeepsValidator, Server.collection_eq hc']
    exact loosens_iff hrole hc' hguards' hpermits hexec

/-- An entry is added, the validator applied again as it was, and a second entry added. -/
theorem ledger_entries_valid_entered : ∃ u,
    Run ledgerlockAppendOnlyLedger KeepsValidator Example.database u ∧
    u.documents "ledger_entries" = [Example.debit, Example.credit] ∧
    ∀ document ∈ u.documents "ledger_entries",
      ledgerEntryValidator.matches document = true := by
  have hu : Run ledgerlockAppendOnlyLedger KeepsValidator Example.database
      (Example.after [Example.enter Example.debit, Example.revalidate,
        Example.enter Example.credit]) := by
    refine ((Run.nil.command (Example.enter Example.debit) (by decide) rfl ?_).command
      Example.revalidate (by decide) rfl ?_).command
      (Example.enter Example.credit) (by decide) rfl ?_
    · exact id
    · intro hloosens
      refine hloosens.2 ?_
      intro document h
      exact h
    · exact id
  exact ⟨_, hu, rfl, (ledger_entries_valid_iff Example.database_initialised hu).1⟩

/-- The role turns validation off and writes a document that is no entry. -/
theorem ledger_entry_invalid : ¬ ∀ s u, Initialised s →
    Run ledgerlockAppendOnlyLedger (fun _ _ => True) s u →
    ∀ document ∈ u.documents "ledger_entries",
      ledgerEntryValidator.matches document = true := by
  intro h
  have hu : Run ledgerlockAppendOnlyLedger (fun _ _ => True) Example.database
      (Example.after [Example.validationOff, Example.enter Example.negative]) :=
    (Run.nil.command Example.validationOff (by decide) rfl trivial).command
      (Example.enter Example.negative) (by decide) rfl trivial
  have hvalid := h _ _ Example.database_initialised hu Example.negative (.head _)
  exact absurd hvalid (by decide)

end Ledgerlock.Schema
