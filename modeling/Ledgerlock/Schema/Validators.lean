import Ledgerlock.Schema.Bson

/-!
# Ledgerlock.Schema.Validators

The validators of `app/core/db.py` as they are sent to the server, and the documents they
see: the entries and transactions of `Ledgerlock.Models` in the server's form. On those
they agree with the checks `Ledgerlock.Db` makes (`matches_toDocument`).
-/

namespace Ledgerlock.Schema

/-! ### The validators -/

/-- `^[A-Z]{3}$` -/
def currencySchema : PropertySchema where
  bsonType := some [.string]
  pattern := some matchesCurrencyPattern

def objectIdSchema : PropertySchema where
  bsonType := some [.objectId]

def dateSchema : PropertySchema where
  bsonType := some [.date]

def positiveSchema : PropertySchema where
  bsonType := some [.int, .long]
  minimum := some 1

def ledgerEntrySchema : JsonSchema where
  required := ["_id", "transaction_id", "account_id", "direction", "amount_minor",
    "signed_amount_minor", "currency", "created_at"]
  additionalProperties := false
  properties :=
    [("_id", objectIdSchema),
     ("transaction_id", objectIdSchema),
     ("account_id", objectIdSchema),
     ("direction", { enum := some ["DEBIT", "CREDIT"] }),
     ("amount_minor", positiveSchema),
     ("signed_amount_minor", { bsonType := some [.int, .long] }),
     ("currency", currencySchema),
     ("created_at", dateSchema)]

def signConvention : AggregateExpr :=
  .eq (.field "signed_amount_minor")
    (.cond (.eq (.field "direction") (.literal (.string "CREDIT")))
      (.field "amount_minor")
      (.multiply (.field "amount_minor") (.literal (.int (-1)))))

/-- `_ledger_entry_validator` -/
def ledgerEntryValidator : Query :=
  .and (.jsonSchema ledgerEntrySchema) (.expr signConvention)

/-- `_transaction_validator` -/
def transactionValidator : Query :=
  .jsonSchema
    { required := ["_id", "idempotency_key", "kind", "status", "source_account_id",
        "destination_account_id", "amount_minor", "currency", "created_at"]
      additionalProperties := false
      properties :=
        [("_id", objectIdSchema),
         ("idempotency_key",
           { bsonType := some [.string], minLength := some 8, maxLength := some 128 }),
         ("kind", { enum := some ["TRANSFER", "FUNDING"] }),
         ("status", { enum := some ["PENDING", "COMPLETED", "FAILED", "REVERSED"] }),
         ("source_account_id", objectIdSchema),
         ("destination_account_id", objectIdSchema),
         ("amount_minor", positiveSchema),
         ("currency", currencySchema),
         ("description", { bsonType := some [.string], maxLength := some 280 }),
         ("submitted_by", { bsonType := some [.objectId, .null] }),
         ("created_at", dateSchema)] }

/-! ### What a ledger entry that passes looks like -/

theorem lookup_matches {schema : JsonSchema} {document : BsonDocument} {n : String}
    {p : PropertySchema} (h : schema.matches document = true) (hn : n ∈ schema.required)
    (hp : schema.properties.lookup n = some p) :
    ∃ v, document.lookup n = some v ∧ p.matches v = true := by
  simp only [JsonSchema.matches, Bool.and_eq_true, List.all_eq_true] at h
  obtain ⟨hrequired, hproperties⟩ := h
  obtain ⟨v, hv⟩ := Option.isSome_iff_exists.1 (hrequired n hn)
  refine ⟨v, hv, ?_⟩
  obtain ⟨before, after, rfl, -⟩ := List.lookup_eq_some_iff.1 hv
  have hmatches := hproperties (n, v) (by simp)
  simpa [hp] using hmatches

theorem enum_matches {values : List String} {v : Bson}
    (h : PropertySchema.matches { enum := some values } v = true) :
    ∃ s ∈ values, v = .string s := by
  simp only [PropertySchema.matches, Option.all_some, Option.all_none, Bool.and_eq_true,
    List.any_eq_true, Bson.equals_string] at h
  obtain ⟨⟨⟨-, hvalues⟩, -⟩, -⟩ := h
  exact hvalues

theorem positiveSchema_matches {v : Bson} (h : positiveSchema.matches v = true) :
    ∃ n, v.toInt? = some n ∧ 1 ≤ n := by
  cases v <;> simp_all [positiveSchema, PropertySchema.matches, Bson.bsonType, Bson.toInt?]

theorem integer_matches {v : Bson}
    (h : PropertySchema.matches { bsonType := some [.int, .long] } v = true) :
    ∃ n, v.toInt? = some n := by
  cases v <;> simp_all [PropertySchema.matches, Bson.bsonType, Bson.toInt?]

/-- `$expr` on a document of that shape. -/
theorem matches_signConvention {document : BsonDocument} {direction : String} {v w : Bson}
    {amount signed : Int} (hdirection : document.lookup "direction" = some (.string direction))
    (hv : document.lookup "amount_minor" = some v) (hamount : v.toInt? = some amount)
    (hw : document.lookup "signed_amount_minor" = some w) (hsigned : w.toInt? = some signed) :
    (Query.expr signConvention).matches document = true ↔
      if direction = "CREDIT" then signed = amount
      else FitsLong (-amount) ∧ signed = -amount := by
  have hone : (Bson.int (-1)).toInt? = some (-1) := rfl
  by_cases hcredit : direction = "CREDIT"
  · simp [Query.matches, signConvention, AggregateExpr.eval, hdirection, hv, hw, hcredit,
      Bson.equals, Bson.equals_of_toInt? hsigned hamount]
  by_cases hfits : FitsLong (-amount)
  · have hminus : (Bson.ofInt (-amount)).toInt? = some (-amount) := Bson.toInt?_ofInt hfits
    simp [Query.matches, signConvention, AggregateExpr.eval, hdirection, hv, hw, hcredit,
      hamount, hone, Bson.equals, hfits, Bson.equals_of_toInt? hsigned hminus]
  · simp [Query.matches, signConvention, AggregateExpr.eval, hdirection, hv, hw, hcredit,
      hamount, hone, hfits]

/-- An entry that passes has a positive amount, and the signed amount the sign
convention gives it. -/
theorem ledgerEntryValidator_sound {document : BsonDocument}
    (h : ledgerEntryValidator.matches document = true) :
    ∃ direction amount signed v w, document.lookup "direction" = some (.string direction) ∧
      document.lookup "amount_minor" = some v ∧ v.toInt? = some amount ∧
      document.lookup "signed_amount_minor" = some w ∧ w.toInt? = some signed ∧
      1 ≤ amount ∧
      (direction = "CREDIT" ∧ signed = amount ∨ direction = "DEBIT" ∧ signed = -amount) := by
  simp only [ledgerEntryValidator, Query.matches, Bool.and_eq_true] at h
  obtain ⟨hschema, hsign⟩ := h
  obtain ⟨d, hd, hdirection⟩ := lookup_matches (n := "direction") hschema (by decide) rfl
  obtain ⟨direction, hvalue, rfl⟩ := enum_matches hdirection
  obtain ⟨v, hv, hpositive⟩ := lookup_matches (n := "amount_minor") hschema (by decide) rfl
  obtain ⟨amount, hamount, hle⟩ := positiveSchema_matches hpositive
  obtain ⟨w, hw, hinteger⟩ := lookup_matches (n := "signed_amount_minor") hschema (by decide) rfl
  obtain ⟨signed, hsigned⟩ := integer_matches hinteger
  refine ⟨direction, amount, signed, v, w, hd, hv, hamount, hw, hsigned, hle, ?_⟩
  have hconvention := (matches_signConvention hd hv hamount hw hsigned).1 hsign
  rcases List.mem_pair.1 hvalue with rfl | rfl
  · exact .inr ⟨rfl, hconvention.2⟩
  · exact .inl ⟨rfl, hconvention⟩

/-! ### The documents of the application -/

def directionValue : EntryDirection → String
  | .debit => "DEBIT"
  | .credit => "CREDIT"

def kindValue : TransactionKind → String
  | .transfer => "TRANSFER"
  | .funding => "FUNDING"

def statusValue : TransactionStatus → String
  | .pending => "PENDING"
  | .completed => "COMPLETED"
  | .failed => "FAILED"
  | .reversed => "REVERSED"

def entryDocument (e : LedgerEntry) : BsonDocument :=
  [("_id", .objectId e.id),
   ("transaction_id", .objectId e.transactionId),
   ("account_id", .objectId e.accountId),
   ("direction", .string (directionValue e.direction)),
   ("amount_minor", .ofInt e.amountMinor),
   ("signed_amount_minor", .ofInt e.signedAmountMinor),
   ("currency", .string e.currency),
   ("created_at", .date e.createdAt)]

def transactionDocument (t : Transaction) : BsonDocument :=
  [("_id", .objectId t.id),
   ("idempotency_key", .string t.idempotencyKey),
   ("kind", .string (kindValue t.kind)),
   ("status", .string (statusValue t.status)),
   ("source_account_id", .objectId t.sourceAccountId),
   ("destination_account_id", .objectId t.destinationAccountId),
   ("amount_minor", .ofInt t.amountMinor),
   ("currency", .string t.currency),
   ("description", .string t.description),
   ("submitted_by", t.submittedBy.elim .null .objectId),
   ("created_at", .date t.createdAt)]

theorem ofInt_bsonType (n : Int) : (Bson.ofInt n).bsonType ∈ [BsonType.int, .long] := by
  unfold Bson.ofInt
  split <;> simp [Bson.bsonType]

theorem matches_objectIdSchema (id : ObjectId) :
    objectIdSchema.matches (.objectId id) = true := rfl

theorem matches_dateSchema (t : DocServer.Instant) : dateSchema.matches (.date t) = true := rfl

theorem matches_currencySchema (s : String) :
    currencySchema.matches (.string s) = matchesCurrencyPattern s := by
  simp [currencySchema, PropertySchema.matches, Bson.bsonType]

theorem matches_enum {values : List String} {s : String} (h : s ∈ values) :
    PropertySchema.matches { enum := some values } (.string s) = true := by
  simp [PropertySchema.matches, h]

theorem matches_integer (n : Int) :
    PropertySchema.matches { bsonType := some [.int, .long] } (.ofInt n) = true := by
  have htype := ofInt_bsonType n
  generalize Bson.ofInt n = v at htype
  cases v <;> simp_all [PropertySchema.matches]

theorem matches_positiveSchema {n : Int} (h : FitsLong n) :
    positiveSchema.matches (.ofInt n) = decide (1 ≤ n) := by
  have htype := ofInt_bsonType n
  have hvalue := Bson.toInt?_ofInt h
  generalize Bson.ofInt n = v at htype hvalue
  cases v <;> simp_all [positiveSchema, PropertySchema.matches, Bson.toInt?]

theorem matches_ledgerEntrySchema {e : LedgerEntry} (h : FitsLong e.amountMinor) :
    ledgerEntrySchema.matches (entryDocument e) =
      (decide (1 ≤ e.amountMinor) && matchesCurrencyPattern e.currency) := by
  have hdirection : directionValue e.direction ∈ ["DEBIT", "CREDIT"] := by
    cases e.direction <;> simp [directionValue]
  simp [JsonSchema.matches, ledgerEntrySchema, entryDocument, List.lookup_cons,
    matches_objectIdSchema, matches_dateSchema, matches_currencySchema, matches_enum hdirection,
    matches_integer, matches_positiveSchema h]

/-- On what the application writes the validator and the model's check are one, as long
as the integers can be encoded. -/
theorem matches_entryDocument {e : LedgerEntry} (hamount : FitsLong e.amountMinor)
    (hsigned : FitsLong e.signedAmountMinor) :
    ledgerEntryValidator.matches (entryDocument e) = Ledgerlock.ledgerEntryValidator e := by
  have hsign : (Query.expr signConvention).matches (entryDocument e) = true ↔ _ :=
    matches_signConvention rfl rfl (Bson.toInt?_ofInt hamount) rfl (Bson.toInt?_ofInt hsigned)
  have hschema := matches_ledgerEntrySchema hamount
  rw [Bool.eq_iff_iff, ledgerEntryValidator_iff]
  simp only [ledgerEntryValidator, Query.matches, Bool.and_eq_true, hschema] at hsign ⊢
  rw [hsign]
  cases e.direction with
  | debit =>
      -- the server's product is the signed amount, so it can be stored
      simp only [directionValue, decide_eq_true_eq, reduceCtorEq, if_false, String.reduceEq]
      constructor
      · intro h
        obtain ⟨⟨hle, hcurrency⟩, -, hminus⟩ := h
        exact ⟨hamount, hle, hsigned, hcurrency, hminus⟩
      · intro h
        obtain ⟨-, hle, -, hcurrency, hminus⟩ := h
        exact ⟨⟨hle, hcurrency⟩, hminus ▸ hsigned, hminus⟩
  | credit =>
      simp only [directionValue, decide_eq_true_eq, if_true]
      constructor
      · intro h
        obtain ⟨⟨hle, hcurrency⟩, hplus⟩ := h
        exact ⟨hamount, hle, hsigned, hcurrency, hplus⟩
      · intro h
        obtain ⟨-, hle, -, hcurrency, hplus⟩ := h
        exact ⟨⟨hle, hcurrency⟩, hplus⟩

theorem matches_string {least greatest : Option Nat} (s : String) :
    PropertySchema.matches
        { bsonType := some [.string], minLength := least, maxLength := greatest } (.string s) =
      (least.all (fun least => decide (least ≤ s.toList.length))
        && greatest.all fun greatest => decide (s.toList.length ≤ greatest)) := by
  simp [PropertySchema.matches, Bson.bsonType]

theorem matches_submittedBy (submittedBy : Option ObjectId) :
    PropertySchema.matches { bsonType := some [.objectId, .null] }
      (submittedBy.elim .null .objectId) = true := by
  cases submittedBy <;> rfl

theorem matches_transactionDocument {t : Transaction} (hamount : FitsLong t.amountMinor) :
    transactionValidator.matches (transactionDocument t) =
      Ledgerlock.transactionValidator t := by
  have hkind : kindValue t.kind ∈ ["TRANSFER", "FUNDING"] := by
    cases t.kind <;> simp [kindValue]
  have hstatus : statusValue t.status ∈ ["PENDING", "COMPLETED", "FAILED", "REVERSED"] := by
    cases t.status <;> simp [statusValue]
  rw [Bool.eq_iff_iff, transactionValidator_iff]
  simp [Query.matches, transactionValidator, JsonSchema.matches, transactionDocument,
    List.lookup_cons, matches_objectIdSchema, matches_dateSchema, matches_currencySchema,
    matches_enum hkind, matches_enum hstatus, matches_string, matches_submittedBy,
    matches_positiveSchema hamount, hamount, maxDescriptionLength, and_assoc]

end Ledgerlock.Schema
