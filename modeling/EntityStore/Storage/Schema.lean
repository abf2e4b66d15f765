import EntityStore.Storage.Statement

/-!
The tables of a storage. Tables are made for every level of the models it holds, each after the
tables that its foreign keys name as far as they allow it, then the tables behind relations to many
rows. Tables that are there already are left alone.
-/

namespace EntityStore.Storage

variable {σ ε : Type} (env : Setting σ) (i : StorageId)

def addDistinct (models : List EntityModel) (m : EntityModel) : List EntityModel :=
  if models.any (·.same m) then models else models ++ [m]

def addModel (m : EntityModel) : Engine σ ε Unit :=
  modify fun s => { s with models := setAt s.models i (addDistinct (s.models i) m) }

def models : Engine σ ε (List EntityModel) := do
  return (← get).models i

def hasModel (m : EntityModel) : Engine σ ε Bool := do
  return (← models i).any (·.same m)

def dependencies (schema : Schema) (level : EntityModel) : List EntityModel :=
  level.parent?.toList
    ++ (level.ownColumns.filterMap Column.target?).map fun target => (schema.model target).root

def isReady (schema : Schema) (pending ordered : List EntityModel) (level : EntityModel) : Bool :=
  (dependencies schema level).all fun dep =>
    dep.same level || ordered.any (·.same dep) || !pending.any (·.same dep)

/-- Orders levels in so many steps: each step takes the first that is ready, or else the first. -/
def arrange (schema : Schema) : Nat → List EntityModel → List EntityModel → List EntityModel
  | 0, _, ordered => ordered
  | steps + 1, pending, ordered =>
    let next := (pending.findIdx? (isReady schema pending ordered)).getD 0
    match pending[next]? with
    | none => ordered
    | some level => arrange schema steps (pending.eraseIdx next) (ordered ++ [level])

/-- The levels of the models, each after what it depends on; where that is a cycle, in the order of
registration. -/
def creationOrder (schema : Schema) (models : List EntityModel) : List EntityModel :=
  let pending := (models.flatMap EntityModel.levels).foldl addDistinct []
  arrange schema pending.length pending []

structure Progress where
  seen : List String := []
  created : List String := []

def executeAll (templates : List Sql.Template) : Attempt σ ε Unit :=
  templates.forM fun t => do
    let _ ← executeTemplate env i t

/-- Makes a table unless it has been looked at before or is there already. -/
def createMissing (table : String) (templates : List Sql.Template) (p : Progress) :
    Attempt σ ε Progress := do
  if p.seen.contains table then return p
  let p := { p with seen := table :: p.seen }
  if ← tableExists env i table then return p
  executeAll env i templates
  return { p with created := p.created ++ [table] }

def createLevel (p : Progress) (level : EntityModel) : Attempt σ ε Progress :=
  let d := dialect env i
  createMissing env i level.table
    (Sql.createTable env.schema d level :: Sql.createIndexes d level) p

def linkTables (schema : Schema) (m : EntityModel) : List LinkTable :=
  m.manyColumns.filterMap fun (_, column) => m.linkTable? schema column.name

def createLinks (p : Progress) (link : LinkTable) : Attempt σ ε Progress :=
  createMissing env i link.table [Sql.createLinkTable (dialect env i) link] p

/-- Makes the tables that are missing, and names them in the order in which they were made. -/
def createTables : Attempt σ ε (List String) := do
  let models ← Attempt.lift (models i)
  let p ← (creationOrder env.schema models).foldlM (createLevel env i) {}
  let p ← (models.flatMap (linkTables env.schema)).foldlM (createLinks env i) p
  return p.created

end EntityStore.Storage
