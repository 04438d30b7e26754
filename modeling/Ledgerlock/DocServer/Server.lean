import Mathlib.Data.List.Nodup
import Mathlib.Logic.Function.Basic
import Mathlib.Tactic.Common

/-!
# Ledgerlock.DocServer.Server

A **document server** with role-based access: collections of documents with a validator
and indexes, the commands of its clients, and the actions a command needs its role to
grant.

* `Server.exec` — what a command does, or the error it ends in;
* `Role.permits` — an action list permits the commands of its actions, and no others;
* `Step` — a permitted command, or what the server does by itself: time passes, and a
  document that has expired under a TTL index is deleted.

Documents are of any type that says what stands under a field path (`Fields`).
-/

namespace DocServer

/-- In milliseconds. -/
abbrev Instant := Int

/-- What an index sees of a document of type `D`: the values under a field path, and the
dates among them. -/
class Fields (D : Type) (V : outParam Type) where
  get : D → String → V
  dates : V → List Instant

/-! ### Roles -/

inductive Action
  | find | insert | update | remove | createCollection | createIndex | listIndexes
  | listCollections | collMod | dropCollection | dropDatabase | bypassDocumentValidation
  deriving Repr, DecidableEq

/-- The actions granted on a collection, or with an empty name on all of them. -/
structure Privilege where
  collection : String
  actions : List Action
  deriving Repr, DecidableEq

abbrev Role := List Privilege

def Role.grants (role : Role) (collection : String) (action : Action) : Bool :=
  role.any fun p => decide (p.collection = "" ∨ p.collection = collection) &&
    decide (action ∈ p.actions)

/-! ### Collections -/

variable {D V : Type}

inductive ValidationLevel
  | off | strict | moderate
  deriving Repr, DecidableEq

inductive ValidationAction
  | error | warn
  deriving Repr, DecidableEq

structure Validation (D : Type) where
  validator : D → Bool
  validationLevel : ValidationLevel
  validationAction : ValidationAction

namespace Validation

/-- Does the check let a new document in? -/
def admits (v : Validation D) (document : D) : Bool :=
  decide (v.validationLevel = .off) || decide (v.validationAction = .warn)
    || v.validator document

/-- Does the check let a document be changed? A moderate one says nothing of those that
were invalid before. -/
def admitsUpdate (v : Validation D) (old new : D) : Bool :=
  v.admits new || (decide (v.validationLevel = .moderate) && !v.validator old)

/-- No check. -/
def none : Validation D := ⟨fun _ => true, .strict, .error⟩

end Validation

structure Index (D : Type) where
  name : String
  /-- The field paths, each with its order. -/
  keys : List (String × Int)
  unique : Bool := false
  expireAfterSeconds : Option Nat := none
  partialFilterExpression : D → Bool := fun _ => true

/-- An index on one field other than `_id` may have a TTL. -/
def Index.allowsTtl (idx : Index D) : Bool :=
  match idx.keys with
  | [key] => key.1 != "_id"
  | _ => false

/-- Every collection has it. -/
def idIndex : Index D where
  name := "_id_"
  keys := [("_id", 1)]
  unique := true

structure Collection (D : Type) where
  documents : List D := []
  validation : Validation D := .none
  indexes : List (Index D) := [idIndex]

/-- The options of `collMod`. -/
structure CollMod (D : Type) where
  validator : Option (D → Bool) := none
  validationLevel : Option ValidationLevel := none
  validationAction : Option ValidationAction := none
  /-- A new TTL for the index of that name. -/
  index : Option (String × Nat) := none

/-- The check a collection is left with. -/
def CollMod.validation (m : CollMod D) (v : Validation D) : Validation D where
  validator := m.validator.getD v.validator
  validationLevel := m.validationLevel.getD v.validationLevel
  validationAction := m.validationAction.getD v.validationAction

/-- The index with the TTL that `m` gives it, if it gives it one. -/
def CollMod.reindex (m : CollMod D) (idx : Index D) : Index D :=
  match m.index with
  | some (name, seconds) =>
      if idx.name = name then { idx with expireAfterSeconds := some seconds } else idx
  | none => idx

inductive ServerError
  | namespaceExists | namespaceNotFound | documentValidationFailure | duplicateKey
  | indexNotFound | invalidIndexOptions
  deriving Repr, DecidableEq

section Commands

variable [Fields D V]

def Index.keyOf (idx : Index D) (document : D) : List V :=
  idx.keys.map fun key => Fields.get document key.1

/-- When a document expires under a TTL index: there may be several dates under its
field, and one of them will do. -/
def Index.expiries (idx : Index D) (document : D) : List Instant :=
  match idx.keys, idx.expireAfterSeconds with
  | [key], some seconds =>
      if idx.partialFilterExpression document then
        (Fields.dates D (Fields.get document key.1)).map (· + 1000 * seconds)
      else []
  | _, _ => []

variable [BEq V]

/-- A unique index allows no two documents with one key. -/
def Index.holds (idx : Index D) (documents : List D) : Bool :=
  !idx.unique || decide (((documents.filter idx.partialFilterExpression).map
    idx.keyOf).Pairwise fun k k' : List V => (k == k') = false)

namespace Collection

def store (c : Collection D) (documents : List D) : Except ServerError (Collection D) :=
  if c.indexes.all (·.holds documents) then .ok { c with documents } else .error .duplicateKey

def insert (c : Collection D) (document : D) (bypassDocumentValidation : Bool) :
    Except ServerError (Collection D) :=
  if !bypassDocumentValidation && !c.validation.admits document then
    .error .documentValidationFailure
  else c.store (c.documents ++ [document])

def update (c : Collection D) (selects : D → Bool) (change : D → D) :
    Except ServerError (Collection D) :=
  if c.documents.any fun d => selects d && !c.validation.admitsUpdate d (change d) then
    .error .documentValidationFailure
  else c.store (c.documents.map fun d => if selects d then change d else d)

def remove (c : Collection D) (selects : D → Bool) : Collection D :=
  { c with documents := c.documents.filter fun d => !selects d }

/-- An index of that name is left as it is. -/
def createIndex (c : Collection D) (idx : Index D) : Except ServerError (Collection D) :=
  if c.indexes.any fun i => i.name = idx.name then .ok c
  else if idx.expireAfterSeconds.isSome && !idx.allowsTtl then .error .invalidIndexOptions
  else if !idx.holds c.documents then .error .duplicateKey
  else .ok { c with indexes := c.indexes ++ [idx] }

def modify (c : Collection D) (m : CollMod D) : Except ServerError (Collection D) :=
  match m.index with
  | none => .ok { c with validation := m.validation c.validation }
  | some (name, _) =>
      match c.indexes.find? fun idx => idx.name = name with
      | none => .error .indexNotFound
      | some idx =>
          if !idx.allowsTtl then .error .invalidIndexOptions
          else .ok { c with
            validation := m.validation c.validation
            indexes := c.indexes.map m.reindex }

end Collection

end Commands

/-! ### Commands -/

inductive Command (D : Type)
  | find (collection : String)
  | listIndexes (collection : String)
  | listCollections
  /-- One document; a batch is one after the other. -/
  | insert (collection : String) (document : D) (bypassDocumentValidation : Bool)
  | update (collection : String) (selects : D → Bool) (change : D → D)
  | remove (collection : String) (selects : D → Bool)
  | createCollection (collection : String) (validation : Validation D)
  | createIndex (collection : String) (idx : Index D)
  | collMod (collection : String) (m : CollMod D)
  | dropCollection (collection : String)
  | dropDatabase

/-- The actions a command needs, each on a collection. -/
def Command.needs : Command D → List (String × Action)
  | find c => [(c, .find)]
  | listIndexes c => [(c, .listIndexes)]
  | listCollections => [("", .listCollections)]
  | insert c _ true => [(c, .insert), (c, .bypassDocumentValidation)]
  | insert c _ false => [(c, .insert)]
  | update c _ _ => [(c, .update)]
  | remove c _ => [(c, .remove)]
  | createCollection c _ => [(c, .createCollection)]
  | createIndex c _ => [(c, .createIndex)]
  | collMod c _ => [(c, .collMod)]
  | dropCollection c => [(c, .dropCollection)]
  | dropDatabase => [("", .dropDatabase)]

/-- A role permits exactly the commands of its actions. -/
def Role.permits (role : Role) (command : Command D) : Bool :=
  command.needs.all fun need => role.grants need.1 need.2

structure Server (D : Type) where
  now : Instant
  collections : String → Option (Collection D)

namespace Server

/-- The collection of that name, which some commands make if there is none. -/
def collection (s : Server D) (name : String) : Collection D := (s.collections name).getD {}

def documents (s : Server D) (name : String) : List D := (s.collection name).documents

def put (s : Server D) (name : String) (c : Collection D) : Server D :=
  { s with collections := Function.update s.collections name (some c) }

def drop (s : Server D) (name : String) : Server D :=
  { s with collections := Function.update s.collections name none }

end Server

section Steps

variable [Fields D V] [BEq V]

def Server.exec (s : Server D) : Command D → Except ServerError (Server D)
  | .find _ | .listIndexes _ | .listCollections => .ok s
  | .insert name document bypass =>
      ((s.collection name).insert document bypass).map (s.put name)
  | .update name selects change =>
      match s.collections name with
      | none => .ok s
      | some c => (c.update selects change).map (s.put name)
  | .remove name selects =>
      match s.collections name with
      | none => .ok s
      | some c => .ok (s.put name (c.remove selects))
  | .createCollection name validation =>
      match s.collections name with
      | none => .ok (s.put name { validation })
      | some _ => .error .namespaceExists
  | .createIndex name idx => ((s.collection name).createIndex idx).map (s.put name)
  | .collMod name m =>
      match s.collections name with
      | none => .error .namespaceNotFound
      | some c => (c.modify m).map (s.put name)
  | .dropCollection name => .ok (s.drop name)
  | .dropDatabase => .ok { s with collections := fun _ => none }

/-- One command of a client with that role, or one step of the server's own (`none`). -/
inductive Step (role : Role) (s : Server D) : Option (Command D) → Server D → Prop
  | command {command : Command D} {s' : Server D} : role.permits command = true →
      s.exec command = .ok s' → Step role s (some command) s'
  /-- A document that has expired under a TTL index is deleted. -/
  | expire {name : String} {c : Collection D} {before after : List D} {document : D}
      {idx : Index D} {t : Instant} : s.collections name = some c →
      c.documents = before ++ document :: after → idx ∈ c.indexes → t ∈ idx.expiries document →
      t ≤ s.now → Step role s none (s.put name { c with documents := before ++ after })
  | clock {t : Instant} : s.now ≤ t → Step role s none { s with now := t }

/-- Finitely many steps, in which `P` holds of every command and the state it is sent
in. -/
inductive Run (role : Role) (P : Server D → Command D → Prop) (s : Server D) : Server D → Prop
  | nil : Run role P s s
  | concat {t u : Server D} {l : Option (Command D)} : Run role P s t → Step role t l u →
      (∀ command, l = some command → P t command) → Run role P s u

end Steps

end DocServer
