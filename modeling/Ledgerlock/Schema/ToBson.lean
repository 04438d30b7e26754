import Ledgerlock.Schema.Validators
import Ledgerlock.Services.Ledger

/-!
# Ledgerlock.Schema.ToBson

`MongoDocument.to_bson` field by field: the dictionaries that `_apply_transfer` hands to
the driver, and what is sent once they have an `_id`.

They have the fields of `transactionDocument` and `entryDocument` in another order
(`sentTransaction_perm`, `sentLedgerEntry_perm`), which no validator notices
(`Query.matches_perm`). So whatever the models accept the validators accept
(`validators_accept`).
-/

namespace Ledgerlock.Schema

/-! ### The order of fields -/

section Perm

variable {document document' : BsonDocument}

theorem lookup_eq_some_iff_mem (h : (document.map Prod.fst).Nodup) {name : String} {v : Bson} :
    document.lookup name = some v ↔ (name, v) ∈ document := by
  constructor
  · intro hlookup
    obtain ⟨before, after, rfl, -⟩ := List.lookup_eq_some_iff.mp hlookup
    exact List.mem_append_right before List.mem_cons_self
  · intro hmem
    obtain ⟨before, after, rfl⟩ := List.append_of_mem hmem
    refine List.lookup_eq_some_iff.mpr ⟨before, after, rfl, fun field hfield => ?_⟩
    rw [List.map_append, List.nodup_append] at h
    simpa using (h.2.2 _ (List.mem_map_of_mem hfield) _ List.mem_cons_self).symm

theorem lookup_perm (h : document.Perm document') (hnodup : (document.map Prod.fst).Nodup)
    (name : String) : document.lookup name = document'.lookup name := by
  have hnodup' : (document'.map Prod.fst).Nodup := (h.map Prod.fst).nodup hnodup
  refine Option.ext fun v => ?_
  rw [lookup_eq_some_iff_mem hnodup, lookup_eq_some_iff_mem hnodup', h.mem_iff]

theorem eval_perm (h : document.Perm document') (hnodup : (document.map Prod.fst).Nodup)
    (e : AggregateExpr) : e.eval document = e.eval document' := by
  induction e with
  | field name => exact lookup_perm h hnodup name
  | literal v => rfl
  | eq a b iha ihb => simp only [AggregateExpr.eval, iha, ihb]
  | cond condition a b ihc iha ihb => simp only [AggregateExpr.eval, ihc, iha, ihb]
  | multiply a b iha ihb => simp only [AggregateExpr.eval, iha, ihb]

/-- What a query says of a document does not depend on the order of its fields. -/
theorem matches_perm (h : document.Perm document') (hnodup : (document.map Prod.fst).Nodup)
    (q : Query) : q.matches document = q.matches document' := by
  induction q with
  | jsonSchema schema =>
      simp only [Query.matches, JsonSchema.matches, lookup_perm h hnodup, h.all_eq]
  | expr e => simp only [Query.matches, eval_perm h hnodup]
  | and p q ihp ihq => simp only [Query.matches, ihp, ihq]

end Perm

/-! ### `to_bson` -/

/-- `model_dump(by_alias=True)` of a `TransactionDocument`. -/
def dumpTransaction (id : Option ObjectId) (d : TransactionDocument) : BsonDocument :=
  [("_id", id.elim .null .objectId),
   ("idempotency_key", .string d.idempotencyKey),
   ("kind", .string (kindValue d.kind)),
   ("status", .string (statusValue d.status)),
   ("source_account_id", .objectId d.sourceAccountId),
   ("destination_account_id", .objectId d.destinationAccountId),
   ("amount_minor", .ofInt d.amountMinor),
   ("currency", .string d.currency),
   ("description", .string d.description),
   ("submitted_by", d.submittedBy.elim .null .objectId),
   ("created_at", .date d.createdAt)]

/-- `model_dump(by_alias=True)` of a `LedgerEntryDocument`. -/
def dumpLedgerEntry (id : Option ObjectId) (d : LedgerEntryDocument) : BsonDocument :=
  [("_id", id.elim .null .objectId),
   ("transaction_id", .objectId d.transactionId),
   ("account_id", .objectId d.accountId),
   ("direction", .string (directionValue d.direction)),
   ("amount_minor", .ofInt d.amountMinor),
   ("signed_amount_minor", .ofInt d.signedAmountMinor),
   ("currency", .string d.currency),
   ("created_at", .date d.createdAt)]

/-- `MongoDocument.to_bson`, from what `model_dump` gives. -/
def toBson (dump : BsonDocument) (includeId : Bool) : BsonDocument :=
  if includeId then dump else dump.filter fun field => field.1 ≠ "_id"

/-- `document["_id"] = id`, as `_apply_transfer` assigns it. -/
def assignId (document : BsonDocument) (id : ObjectId) : BsonDocument :=
  if (document.lookup "_id").isSome then
    document.map fun field => if field.1 = "_id" then ("_id", .objectId id) else field
  else document ++ [("_id", .objectId id)]

/-- What the driver sends: a document that has an `_id` as it is, be it null, and any
other with the `_id` that the driver makes. -/
def sentWithId (document : BsonDocument) (id : ObjectId) : BsonDocument :=
  if (document.lookup "_id").isSome then document else document ++ [("_id", .objectId id)]

/-- The header that `insert_one` sends: `_apply_transfer` has assigned its `_id`. -/
def sentTransaction (d : TransactionDocument) (id driverId : ObjectId) : BsonDocument :=
  sentWithId (assignId (toBson (dumpTransaction none d) false) id) driverId

/-- An entry that `insert_many` sends. -/
def sentLedgerEntry (d : LedgerEntryDocument) (driverId : ObjectId) : BsonDocument :=
  sentWithId (toBson (dumpLedgerEntry none d) false) driverId

/-- The fields of what is sent are those of the stored document, and its `_id` is the assigned
one. -/
theorem sentTransaction_perm (d : TransactionDocument) (id driverId : ObjectId) :
    (sentTransaction d id driverId).Perm (transactionDocument (d.toBson id)) := by
  show (toBson (dumpTransaction none d) false ++ [("_id", Bson.objectId id)]).Perm _
  exact List.perm_append_singleton ("_id", Bson.objectId id) (toBson (dumpTransaction none d) false)

theorem sentLedgerEntry_perm (d : LedgerEntryDocument) (id : ObjectId) :
    (sentLedgerEntry d id).Perm (entryDocument (d.toBson id)) := by
  show (toBson (dumpLedgerEntry none d) false ++ [("_id", Bson.objectId id)]).Perm _
  exact List.perm_append_singleton ("_id", Bson.objectId id) (toBson (dumpLedgerEntry none d) false)

/-! ### What the models accept -/

theorem matches_sentTransaction (d : TransactionDocument) (id driverId : ObjectId) :
    transactionValidator.matches (sentTransaction d id driverId) =
      transactionValidator.matches (transactionDocument (d.toBson id)) := by
  have hnames : ((transactionDocument (d.toBson id)).map Prod.fst).Nodup := by
    simp [transactionDocument]
  exact (matches_perm (sentTransaction_perm d id driverId).symm hnames _).symm

theorem matches_sentLedgerEntry (d : LedgerEntryDocument) (id : ObjectId) :
    ledgerEntryValidator.matches (sentLedgerEntry d id) =
      ledgerEntryValidator.matches (entryDocument (d.toBson id)) := by
  have hnames : ((entryDocument (d.toBson id)).map Prod.fst).Nodup := by
    simp [entryDocument]
  exact (matches_perm (sentLedgerEntry_perm d id).symm hnames _).symm

/-- The server asks no more of a header than the model. -/
theorem sentTransaction_accepted {d sent : TransactionDocument} (h : d.create = .ok sent)
    (hamount : FitsLong d.amountMinor) (id driverId : ObjectId) :
    transactionValidator.matches (sentTransaction sent id driverId) = true := by
  obtain ⟨haccepted, rfl⟩ := validated_eq_ok.mp h
  obtain ⟨hkey, hpositive, hcurrency, hdescription⟩ :=
    TransactionDocument.refusedFields_eq_nil.mp haccepted
  simp only [isIdempotencyKey, Bool.and_eq_true, decide_eq_true_eq] at hkey
  rw [matches_sentTransaction, matches_transactionDocument hamount, transactionValidator_iff]
  exact ⟨hkey.1.1, hkey.1.2, hamount, hpositive,
    matchesCurrencyPattern_of_isCurrencyCode hcurrency, hdescription⟩

/-- The server asks no more of an entry than the model. -/
theorem sentLedgerEntry_accepted {transactionId accountId : ObjectId} {direction : EntryDirection}
    {amount : Int} {currency : String} {createdAt : Timestamp} {sent : LedgerEntryDocument}
    (h : LedgerEntryDocument.create transactionId accountId direction amount currency createdAt =
      .ok sent) (hamount : FitsLong amount) (id : ObjectId) :
    ledgerEntryValidator.matches (sentLedgerEntry sent id) = true := by
  obtain ⟨hpositive, hcurrency, rfl⟩ := LedgerEntryDocument.create_eq_ok.mp h
  have hsigned : FitsLong (if direction = .credit then amount else -amount) := by
    unfold FitsLong at hamount ⊢
    split <;> omega
  rw [matches_sentLedgerEntry, matches_entryDocument hamount hsigned, ledgerEntryValidator_iff]
  exact ⟨hamount, hpositive, hsigned, matchesCurrencyPattern_of_isCurrencyCode hcurrency, rfl⟩

/-- The sign rule of the model, read off a raw document. -/
def FollowsSignRule (document : BsonDocument) : Prop :=
  ∃ direction amount signed v w,
    document.lookup "direction" = some (.string (directionValue direction)) ∧
    document.lookup "amount_minor" = some v ∧ v.toInt? = some amount ∧
    document.lookup "signed_amount_minor" = some w ∧ w.toInt? = some signed ∧
    signedAmountFor direction amount = .ok signed

theorem followsSignRule_of_matches {document : BsonDocument}
    (h : ledgerEntryValidator.matches document = true) : FollowsSignRule document := by
  obtain ⟨direction, amount, signed, v, w, hd, hv, hamount, hw, hsigned, hpositive, hsign⟩ :=
    ledgerEntryValidator_sound h
  rcases hsign with ⟨rfl, rfl⟩ | ⟨rfl, rfl⟩
  · exact ⟨.credit, signed, signed, v, w, hd, hv, hamount, hw, hsigned,
      signedAmountFor_of_pos hpositive⟩
  · exact ⟨.debit, amount, -amount, v, w, hd, hv, hamount, hw, hsigned,
      signedAmountFor_of_pos hpositive⟩

/-- The three documents that `_apply_transfer` inserts satisfy the validators whenever the
models accept them; and every entry the server accepts follows the sign rule. -/
theorem validators_accept :
    (∀ (args : TransferArgs) (createdAt debitedAt creditedAt : Timestamp)
      (transactionId driverId debitEntryId creditEntryId : ObjectId)
      (transaction : TransactionDocument) (debitEntry creditEntry : LedgerEntryDocument),
      1 ≤ args.amountMinor → args.amountMinor ≤ 9223372036854775807 →
      (Ledgerlock.transactionDocument args createdAt).create = .ok transaction →
      LedgerEntryDocument.create transactionId args.sourceAccountId .debit args.amountMinor
        args.currency debitedAt = .ok debitEntry →
      LedgerEntryDocument.create transactionId args.destinationAccountId .credit args.amountMinor
        args.currency creditedAt = .ok creditEntry →
      transactionValidator.matches (sentTransaction transaction transactionId driverId) = true ∧
      ledgerEntryValidator.matches (sentLedgerEntry debitEntry debitEntryId) = true ∧
      ledgerEntryValidator.matches (sentLedgerEntry creditEntry creditEntryId) = true) ∧
    ∀ document, ledgerEntryValidator.matches document = true → FollowsSignRule document := by
  refine ⟨?_, fun document h => followsSignRule_of_matches h⟩
  intro args createdAt _ _ transactionId driverId debitEntryId creditEntryId _ _ _ hleast hgreatest
    htransaction hdebit hcredit
  have hamount : FitsLong args.amountMinor := ⟨le_trans (by decide) hleast, hgreatest⟩
  exact ⟨sentTransaction_accepted htransaction hamount transactionId driverId,
    sentLedgerEntry_accepted hdebit hamount debitEntryId,
    sentLedgerEntry_accepted hcredit hamount creditEntryId⟩

/-- A funding with the largest amount that can be encoded. -/
def largestTransfer : TransferArgs where
  idempotencyKey := "transfer-0001"
  sourceAccountId := 0
  destinationAccountId := 1
  amountMinor := 9223372036854775807
  currency := "USD"
  description := ""
  kind := .funding
  submittedBy := none

theorem validators_accept_largest :
    transactionValidator.matches
        (sentTransaction (Ledgerlock.transactionDocument largestTransfer 5) 2 8) = true ∧
      FollowsSignRule (sentLedgerEntry
        ⟨2, 0, .debit, 9223372036854775807, -9223372036854775807, "USD", 6⟩ 3) := by
  obtain ⟨htransaction, hdebit, -⟩ := validators_accept.1 largestTransfer 5 6 7 2 8 3 4 _
    ⟨2, 0, .debit, 9223372036854775807, -9223372036854775807, "USD", 6⟩
    ⟨2, 1, .credit, 9223372036854775807, 9223372036854775807, "USD", 7⟩ (by decide) (by decide)
    rfl rfl rfl
  exact ⟨htransaction, validators_accept.2 _ hdebit⟩

end Ledgerlock.Schema
