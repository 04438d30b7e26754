import Ledgerlock.Db
import Ledgerlock.DocServer.Server

/-!
# Ledgerlock.Schema.Bson

Documents as the server has them, and the two languages a validator is written in: the
part of `$jsonSchema` and the part of `$expr` that `app/core/db.py` uses.
-/

namespace Ledgerlock

open DocServer (Fields Instant)

inductive Bson
  | objectId (id : ObjectId)
  | string (s : String)
  | int (n : Int32)
  | long (n : Int64)
  | bool (b : Bool)
  | date (t : Instant)
  | null
  | array (items : List Bson)
  | document (fields : List (String × Bson))
  | other (type : String) (bytes : List Nat)
  deriving Repr

abbrev BsonDocument := List (String × Bson)

namespace Bson

/-- An integer takes the narrower of the two widths it fits. -/
def ofInt (n : Int) : Bson :=
  if -2147483648 ≤ n ∧ n < 2147483648 then int (Int32.ofInt n) else long (Int64.ofInt n)

def toInt? : Bson → Option Int
  | int n => some n.toInt
  | long n => some n.toInt
  | _ => none

@[simp] theorem toInt?_ofInt {n : Int} (h : FitsLong n) : (ofInt n).toInt? = some n := by
  obtain ⟨hle, hge⟩ := h
  unfold ofInt
  split
  · rename_i hnarrow
    rw [toInt?, Int32.toInt_ofInt_of_le hnarrow.1 hnarrow.2]
  · rw [toInt?, Int64.toInt_ofInt_of_le hle (by omega)]

/-! ### Comparison -/

mutual

/-- Integers are compared by value, whatever their width. -/
def equals : Bson → Bson → Bool
  | objectId x, objectId y => x == y
  | string s, string t => s == t
  | bool b, bool c => b == c
  | date t, date u => t == u
  | null, null => true
  | array vs, array ws => equalItems vs ws
  | document fs, document gs => equalFields fs gs
  | other t xs, other u ys => t == u && xs == ys
  | v, w => v.toInt?.isSome && v.toInt? == w.toInt?

def equalItems : List Bson → List Bson → Bool
  | [], [] => true
  | v :: vs, w :: ws => equals v w && equalItems vs ws
  | _, _ => false

def equalFields : List (String × Bson) → List (String × Bson) → Bool
  | [], [] => true
  | (f, v) :: fs, (g, w) :: gs => f == g && equals v w && equalFields fs gs
  | _, _ => false

end

instance : BEq Bson := ⟨equals⟩

@[simp] theorem beq_eq_equals (v w : Bson) : (v == w) = v.equals w := rfl

@[simp] theorem equals_string {v : Bson} {s : String} :
    v.equals (string s) = true ↔ v = string s := by
  cases v <;> simp [equals, toInt?]

@[simp] theorem equals_int {v : Bson} {n : Int32} :
    v.equals (int n) = true ↔ v.toInt? = some n.toInt := by
  cases v <;> simp [equals, toInt?]

theorem equals_of_toInt? {v w : Bson} {m n : Int} (hv : v.toInt? = some m)
    (hw : w.toInt? = some n) : v.equals w = (m == n) := by
  cases v <;> cases w <;> simp_all [equals, toInt?]

/-! ### Field paths -/

/-- The values under a path, which goes through the documents of an array one by one. -/
def valuesAt : List String → Bson → List Bson
  | [], v => [v]
  | name :: path, document fields =>
      match fields.lookup name with
      | some v => v.valuesAt path
      | none => []
  | name :: path, array items => items.flatMap fun
      | document fields =>
          match fields.lookup name with
          | some v => v.valuesAt path
          | none => []
      | _ => []
  | _, _ => []

/-- The dates an index finds in a value. -/
def dates : Bson → List Instant
  | date t => [t]
  | array items => items.filterMap fun
      | date t => some t
      | _ => none
  | _ => []

end Bson

/-- A dot in a field path goes down into a document. -/
instance : Fields BsonDocument (List Bson) where
  get document path :=
    (Bson.document document).valuesAt ((path.toList.splitOn '.').map String.ofList)
  dates values := values.flatMap Bson.dates

/-! ### `$jsonSchema` -/

inductive BsonType
  | objectId | string | int | long | bool | date | null | array | object | other
  deriving Repr, DecidableEq

def Bson.bsonType : Bson → BsonType
  | objectId _ => .objectId
  | string _ => .string
  | int _ => .int
  | long _ => .long
  | bool _ => .bool
  | date _ => .date
  | null => .null
  | array _ => .array
  | document _ => .object
  | other _ _ => .other

/-- The schema of one property. -/
structure PropertySchema where
  bsonType : Option (List BsonType) := none
  enum : Option (List String) := none
  minimum : Option Int := none
  minLength : Option Nat := none
  maxLength : Option Nat := none
  pattern : Option (String → Bool) := none

/-- A bound on numbers says nothing of other values, nor one on strings. -/
def PropertySchema.matches (p : PropertySchema) (v : Bson) : Bool :=
  p.bsonType.all (fun types => decide (v.bsonType ∈ types))
    && p.enum.all (fun values => values.any fun s => v.equals (.string s))
    && p.minimum.all (fun least => v.toInt?.all fun n => decide (least ≤ n))
    && match v with
      | .string s =>
          p.minLength.all (fun least => decide (least ≤ s.toList.length))
            && p.maxLength.all (fun greatest => decide (s.toList.length ≤ greatest))
            && p.pattern.all fun accepts => accepts s
      | _ => true

/-- The schema of a document, whose own `bsonType` is always `object`. -/
structure JsonSchema where
  required : List String
  additionalProperties : Bool
  properties : List (String × PropertySchema)

def JsonSchema.matches (schema : JsonSchema) (document : BsonDocument) : Bool :=
  (schema.required.all fun name => (document.lookup name).isSome)
    && document.all fun field =>
      match schema.properties.lookup field.1 with
      | some p => p.matches field.2
      | none => schema.additionalProperties

/-! ### `$expr` -/

inductive AggregateExpr
  | field (name : String)
  | literal (v : Bson)
  | eq (a b : AggregateExpr)
  | cond (condition a b : AggregateExpr)
  | multiply (a b : AggregateExpr)
  deriving Repr

/-- No value stands for an error, for a field that is missing, and for a product that is
no 64-bit integer: the server's is then a double, which equals none of those. -/
def AggregateExpr.eval (document : BsonDocument) : AggregateExpr → Option Bson
  | field name => document.lookup name
  | literal v => some v
  | eq a b => do
      let v ← a.eval document
      let w ← b.eval document
      some (.bool (v.equals w))
  | cond condition a b => do
      match ← condition.eval document with
      | .bool true => a.eval document
      | _ => b.eval document
  | multiply a b => do
      let m ← (← a.eval document).toInt?
      let n ← (← b.eval document).toInt?
      if FitsLong (m * n) then some (.ofInt (m * n)) else none

/-! ### Queries -/

inductive Query
  | jsonSchema (schema : JsonSchema)
  | expr (e : AggregateExpr)
  | and (p q : Query)

def Query.matches : Query → BsonDocument → Bool
  | jsonSchema schema, document => schema.matches document
  | expr e, document => (e.eval document).any fun v => v.equals (.bool true)
  | and p q, document => p.matches document && q.matches document

end Ledgerlock
