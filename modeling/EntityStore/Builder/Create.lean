import EntityStore.Builder.Links
import EntityStore.Storage.Transaction

/-!
Creation: entities are inserted level by level, the root first, in one transaction. Unless they
bring their own ids, the database generates the key of the root, and the levels below take it over.
In bulk each level takes one statement for many entities, whose generated keys are consecutive.
-/

namespace EntityStore

structure Create (ε : Type) where
  type : EntityType ε
  storage : StorageId
  items : List ε
  withId : Bool := false
  bulk : Bool := false

namespace Create

variable {σ ε : Type}

def isGenerated (withId : Bool) (c : Column) : Bool :=
  c.primary && c.autoIncrement && !withId

def insertColumns (level : EntityModel) (withId : Bool) : List String :=
  (level.ownColumns.filter fun c => !isGenerated withId c).map (·.name)

def generatesKey (level : EntityModel) (withId : Bool) : Bool :=
  level.ownColumns.any (isGenerated withId)

def rowValues (level : EntityModel) (columns : List String) (values : List (String × Value))
    (id : Int64) : Except QueryError (List Value) :=
  columns.mapM fun column =>
    if column = level.primaryKey then .ok (.int id) else Builder.storedValue level values column

variable (env : Setting σ)

/-- Inserts rows into a level and gives back the last generated key if the level generates keys. -/
def insertRows (i : StorageId) (withId : Bool) (level : EntityModel) (rows : List (List Value)) :
    Attempt σ ε (Option Int64) := do
  let s ← Storage.bound (Sql.insert (Storage.dialect env i) level.table
    (insertColumns level withId) rows) []
  if level.isRoot && generatesKey level withId then
    return some (← Storage.insert env i s)
  else
    let _ ← Storage.execute env i s
    return none

def insertLevel (i : StorageId) (withId : Bool) (values : List (String × Value)) (id : Int64)
    (level : EntityModel) : Attempt σ ε Int64 := do
  let row ← Attempt.ofResult (rowValues level (insertColumns level withId) values id)
  return (← insertRows env i withId level [row]).getD id

def insertOne (c : Create ε) (item : ε) : Attempt σ ε ε := do
  let id ← c.type.model.levels.foldlM
    (insertLevel env c.storage c.withId (c.type.values item)) (c.type.id item)
  return c.type.setId item id

def rowsPerInsert (columns : Nat) : Nat :=
  max 1 (bulkParams / max 1 columns)

def setIds (type : EntityType ε) (first : Int64) : List ε → List ε
  | [] => []
  | item :: rest => type.setId item first :: setIds type (first + 1) rest

/-- Inserts some of the entities into one level with one statement. -/
def insertChunk (c : Create ε) (level : EntityModel) (chunk : List (List (String × Value) × ε)) :
    Attempt σ ε (List (List (String × Value) × ε)) := do
  let columns := insertColumns level c.withId
  let rows ← Attempt.ofResult
    (chunk.mapM fun (values, item) => rowValues level columns values (c.type.id item))
  match ← insertRows env c.storage c.withId level rows with
  | none => return chunk
  | some last =>
    let first := last - Int64.ofNat (chunk.length - 1)
    return (chunk.map (·.1)).zip (setIds c.type first (chunk.map (·.2)))

def insertBulkLevel (c : Create ε) (items : List (List (String × Value) × ε))
    (level : EntityModel) : Attempt σ ε (List (List (String × Value) × ε)) := do
  let size := rowsPerInsert (insertColumns level c.withId).length
  return (← (chunksOf size items).mapM (c.insertChunk env level)).flatten

def insertBulk (c : Create ε) : Attempt σ ε (List ε) := do
  if c.items.isEmpty then return []
  let items := c.items.map fun item => (c.type.values item, item)
  return (← c.type.model.levels.foldlM (c.insertBulkLevel env) items).map (·.2)

def insertAll (c : Create ε) : Attempt σ ε (List ε) :=
  if c.bulk then c.insertBulk env else c.items.mapM (c.insertOne env)

def writeLinks (c : Create ε) (item : ε) : Attempt σ ε Unit :=
  Links.write env c.storage c.type item (c.type.id item) false none

def insertWithLinks (c : Create ε) : Attempt σ ε (List ε) := do
  let items ← c.insertAll env
  items.forM (c.writeLinks env)
  return items

def run (c : Create ε) : Engine σ ε (Outcome (List ε)) :=
  Storage.runInsideTransaction env c.storage (c.insertWithLinks env).outcome

def runBare (c : Create ε) : Engine σ ε (List ε) := do
  return (← Engine.collapse (env.log c.storage) "create" (← c.run env)).getD []

end Create

end EntityStore
