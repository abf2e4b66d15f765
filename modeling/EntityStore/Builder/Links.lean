import EntityStore.Builder.Basic

/-!
The rows behind relations to many rows. Loading gives every entity the ids it is linked to in
ascending order; writing inserts each link once.
-/

namespace EntityStore.Links

variable {σ ε : Type} (env : Setting σ) (i : StorageId)

/-- The link tables of a model, or only those of the named relations. -/
def tablesOf (schema : Schema) (m : EntityModel) (only? : Option (List String)) : List LinkTable :=
  (m.manyColumns.filter fun (_, column) =>
    match only? with
    | none => true
    | some names => names.contains column.name).filterMap fun (_, column) =>
      m.linkTable? schema column.name

def ascending (ids : List Int64) : List Int64 :=
  ids.mergeSort fun a b => decide (a ≤ b)

def withoutRepeats : List Int64 → List Int64
  | a :: b :: rest => if a = b then withoutRepeats (b :: rest) else a :: withoutRepeats (b :: rest)
  | ids => ids

def addTarget (grouped : List (Int64 × List Int64)) (link : Int64 × Int64) :
    List (Int64 × List Int64) :=
  Assoc.put link.1 ((grouped.lookup link.1).getD [] ++ [link.2]) grouped

/-- Hands out the targets of a relation: each owner's go to the first entity with its id. -/
def handOut (type : EntityType ε) (field : String) (grouped : List (Int64 × List Int64)) :
    List ε → List ε
  | [] => []
  | item :: rest =>
    let id := type.id item
    type.setLinks item field (ascending ((grouped.lookup id).getD []))
      :: handOut type field (grouped.filter fun (owner, _) => owner != id) rest

def readLink (link : LinkTable) (row : Row) : Except EngineError (Int64 × Int64) := do
  let owner ← row.get Int64 link.ownerColumn
  let target ← row.get Int64 link.targetColumn
  return (owner, target)

/-- Loads one relation of the entities. -/
def loadTable (type : EntityType ε) (ids : List Int64) (items : List ε) (link : LinkTable) :
    Attempt σ ε (List ε) := do
  let rows ← Storage.queryTemplate env i (Sql.selectWhereIn (Storage.dialect env i) link.table
    [link.ownerColumn, link.targetColumn] link.ownerColumn ids)
  let links ← Attempt.ofExcept (rows.mapM (readLink link))
  return handOut type link.field (links.foldl addTarget []) items

def load (type : EntityType ε) (items : List ε) : Attempt σ ε (List ε) :=
  if items.isEmpty then return items
  else (tablesOf env.schema type.model none).foldlM (loadTable env i type (items.map type.id)) items

def insertLinks (link : LinkTable) (id : Int64) (targets : List Int64) : Attempt σ ε Unit := do
  let _ ← Storage.executeTemplate env i (Sql.insert (Storage.dialect env i) link.table
    [link.ownerColumn, link.targetColumn]
    (targets.map fun target => [.int id, .int target]))

def clear (link : LinkTable) (id : Int64) : Attempt σ ε Unit := do
  let _ ← Storage.executeTemplate env i
    (Sql.delete (Storage.dialect env i) link.table link.ownerColumn [id])

/-- Writes the links of one relation for an owner, in place of the old ones if asked. -/
def writeTable (type : EntityType ε) (item : ε) (id : Int64) (replace : Bool) (link : LinkTable) :
    Attempt σ ε Unit := do
  if replace then clear env i link id
  let targets := withoutRepeats (ascending (type.links item link.field))
  (chunksOf (bulkParams / 2) targets).forM (insertLinks env i link id)

def write (type : EntityType ε) (item : ε) (id : Int64) (replace : Bool)
    (only? : Option (List String)) : Attempt σ ε Unit :=
  (tablesOf env.schema type.model only?).forM (writeTable env i type item id replace)

end EntityStore.Links
