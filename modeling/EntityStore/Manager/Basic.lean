import EntityStore.Builder.Create
import EntityStore.Builder.Delete
import EntityStore.Builder.Exist
import EntityStore.Builder.Query
import EntityStore.Builder.Update
import EntityStore.Manager.Admission

/-!
Managers: every request for the entities of one type on one storage. Reading goes straight to the
builders; creating, updating and deleting have the hooks and observers of the type around them.
-/

namespace EntityStore.Manager

variable {σ ε : Type}

def query (m : Manager ε) : Query ε :=
  { type := m.type, storage := m.storage }

def idFilter (m : Manager ε) (ids : List Int64) : Predicate :=
  FieldPath.isIn ⟨m.type.model.root.primaryKey⟩ ids

variable (env : Setting σ)

def getAll (m : Manager ε) : Engine σ ε (Outcome (List ε)) :=
  m.query.run env

def getById (m : Manager ε) (id : Int64) : Engine σ ε (Outcome (Option ε)) :=
  (m.query.filter (m.idFilter [id])).single env

def byId (type : EntityType ε) (items : List ε) : List (Int64 × ε) :=
  items.foldl (fun found item => Assoc.put (type.id item) item found) []

/-- Takes the entity of each id, in the order of the ids; one that was taken is gone. -/
def inOrder : List Int64 → List (Int64 × ε) → List ε
  | [], _ => []
  | id :: rest, found =>
    match found.lookup id with
    | some item => item :: inOrder rest (found.filter fun (other, _) => other != id)
    | none => inOrder rest found

def getByIds (m : Manager ε) (ids : List Int64) : Engine σ ε (Outcome (List ε)) := do
  return (← (m.query.filter (m.idFilter ids)).run env).map fun items =>
    inOrder ids (byId m.type items)

def filter (m : Manager ε) (p : Predicate) : Engine σ ε (Outcome (List ε)) :=
  (m.query.filter p).run env

/-- The entities whose one relation to the target points to one of the ids. -/
def referencing (m : Manager ε) (target : EntityModel) (ids : List Int64) :
    Engine σ ε (Outcome (List ε)) :=
  match m.type.model.reverseRelation env.schema target with
  | .ok column => m.filter env (FieldPath.isIn ⟨column.name⟩ ids)
  | .error e => return .ofError e

def single (m : Manager ε) (p : Predicate) : Engine σ ε (Outcome (Option ε)) :=
  (m.query.filter p).single env

def exist (m : Manager ε) (p : Predicate) : Engine σ ε (Outcome Bool) :=
  (Exist.filter { type := m.type, storage := m.storage } p).run env

/-- Tells of the items that a mutation gave, if it gave any, and hands them on with all errors. -/
def conclude (m : Manager ε) (mutation : Mutation) (errors : List EngineError)
    (items? : Option (List ε)) : Engine σ ε (Outcome (List ε)) := do
  match items? with
  | none => return .ofErrors errors
  | some items => return ⟨some items, errors ++ (← m.tellAll mutation items)⟩

/-- Creates the items that are admitted. -/
def createItems (m : Manager ε) (items : List ε) (withId bulk : Bool) :
    Engine σ ε (Outcome (List ε)) := do
  let (accepted, errors) ← m.admitAll .create items
  let created ← Create.run env
    { type := m.type, storage := m.storage, items := accepted, withId, bulk }
  m.conclude .create (errors ++ created.errors) created.value?

def createMany (m : Manager ε) (items : List ε) : Engine σ ε (Outcome (List ε)) :=
  m.createItems env items false false

def bulkCreate (m : Manager ε) (items : List ε) (withId : Bool) : Engine σ ε (Outcome (List ε)) :=
  m.createItems env items withId true

def create (m : Manager ε) (item : ε) : Engine σ ε (Outcome ε) := do
  return ((← m.createMany env [item]).map List.head?).flatten

/-- Writes the fields of the items that are admitted, and reads them back. -/
def updateMany (m : Manager ε) (items : List ε) (fields : List String) :
    Engine σ ε (Outcome (List ε)) := do
  let (accepted, errors) ← m.admitAll .update items
  let updated ← Update.run env { type := m.type, storage := m.storage, items := accepted, fields }
  let errors := errors ++ updated.errors
  match updated.value? with
  | none => return .ofErrors errors
  | some _ =>
    let stored ← m.getByIds env (accepted.map m.type.id)
    m.conclude .update (errors ++ stored.errors) stored.value?

def update (m : Manager ε) (item : ε) (fields : List String) : Engine σ ε (Outcome ε) := do
  return ((← m.updateMany env [item] fields).map List.head?).flatten

def deleteMany (m : Manager ε) (items : List ε) : Engine σ ε (Outcome (List ε)) := do
  let (accepted, errors) ← m.admitAll .delete items
  let deleted ← (Delete.items m.type m.storage accepted).run env
  m.conclude .delete (errors ++ deleted.errors) (deleted.value?.map fun _ => accepted)

def delete (m : Manager ε) (item : ε) : Engine σ ε (Outcome ε) := do
  return ((← m.deleteMany env [item]).map List.head?).flatten

def runInsideTransaction {α : Type} (m : Manager ε) (action : Engine σ ε (Outcome α)) :
    Engine σ ε (Outcome α) :=
  Storage.runInsideTransaction env m.storage action

end EntityStore.Manager
