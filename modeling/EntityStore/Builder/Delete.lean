import EntityStore.Builder.Basic
import EntityStore.Builder.Prepared
import EntityStore.Predicate.Path
import EntityStore.Storage.Schema
import EntityStore.Storage.Transaction

/-!
Deletion: the rows of the entities at every level of their chain, the links that name them, and what
the relations of the storage's models ask for. Rows that point to a deleted row through a cascading
relation are deleted as well, and so on; each pair of root table and id is handled once, so circles
of relations come to an end.
-/

namespace EntityStore

inductive DeleteTarget
  | matching (filter? : Option Predicate)
  | ids (ids : List Int64)

inductive DeleteSelection
  | ids (ids : List Int64)
  | template (t : Sql.Template)

abbrev RowKey := String × Int64

namespace Removal

def sharesKeys (a b : EntityModel) : Bool :=
  a.descendsFrom b || b.descendsFrom a

/-- The ids that have not been handled, each once, and all that have been handled then. -/
def fresh (table : String) : List Int64 → List RowKey → List Int64 × List RowKey
  | [], visited => ([], visited)
  | id :: rest, visited =>
    if visited.contains (table, id) then fresh table rest visited
    else
      let (ids, after) := fresh table rest ((table, id) :: visited)
      (id :: ids, after)

def addLinkTable (found : List LinkTable) (link : LinkTable) : List LinkTable :=
  if found.any (·.table == link.table) then found else found ++ [link]

def linkTables (schema : Schema) (models : List EntityModel) : List LinkTable :=
  (models.flatMap (Storage.linkTables schema)).foldl addLinkTable []

def clearLinks (d : Sql.Dialect) (m : EntityModel) (ids : List Int64) (link : LinkTable) :
    List Sql.Template :=
  (if sharesKeys m link.owner then [Sql.delete d link.table link.ownerColumn ids] else [])
    ++ (if sharesKeys m link.target then [Sql.delete d link.table link.targetColumn ids] else [])

def descendants (models : List EntityModel) (m : EntityModel) : List EntityModel :=
  models.filter fun other => !other.same m && other.descendsFrom m

structure Reference where
  level : EntityModel
  column : String
  onDelete : OnDelete

def reference? (member : EntityModel × Column) : Option Reference :=
  match member.2.kind with
  | .relation _ _ onDelete => some ⟨member.1, member.2.name, onDelete⟩
  | _ => none

def addReference (found : List Reference) (r : Reference) : List Reference :=
  if found.any fun f => f.level.table == r.level.table && f.column == r.column then found
  else found ++ [r]

def references (schema : Schema) (models : List EntityModel) (m : EntityModel) : List Reference :=
  let targets := m :: descendants models m
  (models.flatMap fun owner => targets.flatMap fun target =>
    (owner.relatedMembers schema target).filterMap reference?).foldl addReference []

def clearReferences (d : Sql.Dialect) (references : List Reference) (ids : List Int64) :
    List Sql.Template :=
  (references.filter (·.onDelete = .setNull)).map fun r => Sql.setNull d r.level.table r.column ids

def deleteBelow (d : Sql.Dialect) (models : List EntityModel) (m : EntityModel)
    (ids : List Int64) : List Sql.Template :=
  ((descendants models m).mergeSort fun a b => decide (b.levels.length ≤ a.levels.length)).map
    fun level => Sql.delete d level.table level.primaryKey ids

variable {σ ε : Type} (env : Setting σ) (i : StorageId)

def referencing (ids : List Int64) (r : Reference) : Attempt σ ε (EntityModel × List Int64) := do
  let s ← Storage.bound (Sql.selectWhereIn (Storage.dialect env i) r.level.table
    [r.level.primaryKey] r.column ids) []
  return (r.level, ← Builder.readIds env i r.level.primaryKey s)

def deleteLevel (ids : List Int64) (_ : Nat) (level : EntityModel) : Attempt σ ε Nat :=
  Storage.executeTemplate env i
    (Sql.delete (Storage.dialect env i) level.table level.primaryKey ids)

def deleteLevels (m : EntityModel) (ids : List Int64) : Attempt σ ε Nat :=
  m.chain.foldlM (deleteLevel env i ids) 0

/-- Deletes ids of a model that have not been handled, and what cascades from them, to the given
depth of cascades. First go links, then rows that point here through cascading relations; then
relations are emptied, and the rows themselves go last. -/
def remove (models : List EntityModel) :
    Nat → EntityModel → List Int64 → List RowKey → Attempt σ ε (Nat × List RowKey)
  | 0, _, _, visited => return (0, visited)
  | depth + 1, m, ids, visited => do
    let (ids, visited) := fresh m.root.table ids visited
    if ids.isEmpty then return (0, visited)
    let d := Storage.dialect env i
    Storage.executeAll env i ((linkTables env.schema models).flatMap (clearLinks d m ids))
    let references := references env.schema models m
    let cascades ← (references.filter (·.onDelete = .cascade)).mapM (referencing env i ids)
    let visited ← cascades.foldlM
      (fun visited (level, found) => do return (← remove models depth level found visited).2)
      visited
    Storage.executeAll env i (clearReferences d references ids)
    Storage.executeAll env i (deleteBelow d models m ids)
    let deleted ← deleteLevels env i m ids
    return (deleted, visited)

/-- Deeper than cascades can go: every one of them handles a new pair of a root table and an id, and
there are no more root tables than models. -/
def depthBound (models : List EntityModel) : Nat :=
  (models.length + 1) * UInt64.size + 1

end Removal

structure Delete (ε : Type) where
  type : EntityType ε
  storage : StorageId
  target : DeleteTarget := .matching none

namespace Delete

variable {σ ε : Type}

def items (type : EntityType ε) (storage : StorageId) (items : List ε) : Delete ε :=
  { type, storage, target := .ids (items.map type.id) }

/-- Narrows a deletion; one of given ids becomes a filter on those. -/
def filter (x : Delete ε) (p : Predicate) : Delete ε :=
  let current? := match x.target with
    | .matching filter? => filter?
    | .ids ids => some (FieldPath.isIn ⟨x.type.model.root.primaryKey⟩ ids)
  { x with target := .matching (some (Predicate.conjoin current? p)) }

variable (env : Setting σ)

def compile (x : Delete ε) : Except TranslateError DeleteSelection :=
  match x.target with
  | .ids ids => .ok (.ids ids)
  | .matching filter? => do
    return .template (← Builder.idsTemplate env x.storage x.type.model (filter?.getD .always))

/-- The ids that a deletion addresses. -/
def selectedIds (x : Delete ε) (bindings : Sql.Bindings) :
    DeleteSelection → Attempt σ ε (List Int64)
  | .ids ids => return ids
  | .template t => do
    let s ← Storage.bound t bindings
    Builder.readIds env x.storage x.type.model.root.primaryKey s

def apply (x : Delete ε) (selection : DeleteSelection) (bindings : Sql.Bindings) :
    Attempt σ ε Nat := do
  let ids ← x.selectedIds env bindings selection
  let models ← Attempt.lift (Storage.models x.storage)
  let (deleted, _) ←
    Removal.remove env x.storage models (Removal.depthBound models) x.type.model ids []
  return deleted

def compiled (x : Delete ε) (selection : DeleteSelection) : Compiled σ ε Nat where
  storage := x.storage
  operation := "delete"
  fallback := 0
  variableNames := match selection with
    | .ids _ => []
    | .template t => t.variableNames
  execute bindings := Storage.runInsideTransaction env x.storage
    (x.apply env selection bindings).outcome

def prepare (x : Delete ε) : Except EngineError (Compiled σ ε Nat) :=
  match x.compile env with
  | .ok selection => .ok (x.compiled env selection)
  | .error e => .error e

def run (x : Delete ε) : Engine σ ε (Outcome Nat) :=
  match x.prepare env with
  | .ok c => c.execute []
  | .error e => return .ofError e

def runBare (x : Delete ε) : Engine σ ε Nat := do
  return (← Engine.collapse (env.log x.storage) "delete" (← x.run env)).getD 0

end Delete

end EntityStore
