import EntityStore.Builder.Links
import EntityStore.Builder.Prepared
import EntityStore.Storage.Transaction

/-!
Updates: only the listed fields are written. Each entity's values go to its own row; with a filter
the first entity's values go to every row that the filter holds for. Listed relations to many rows
have their links replaced.
-/

namespace EntityStore

structure UpdatePlan where
  levels : List (EntityModel × List Column) := []
  links : List String := []

namespace UpdatePlan

/-- Adds a column to those of its level, unless one of its name is there. -/
def addColumn (level : EntityModel) (column : Column) :
    List (EntityModel × List Column) → List (EntityModel × List Column)
  | [] => [(level, [column])]
  | (l, columns) :: rest =>
    if l.same level then
      (l, if columns.any (·.name == column.name) then columns else columns ++ [column]) :: rest
    else (l, columns) :: addColumn level column rest

/-- Adds a field to a plan. Keys are never written. -/
def addField (model : EntityModel) (plan : UpdatePlan) (field : String) :
    Except EngineError UpdatePlan :=
  match model.findColumn? field with
  | none => .error (TranslateError.unknownField model.path field)
  | some (level, column) =>
    if column.primary then .error (QueryError.primaryKeyField field)
    else if column.isMany then
      .ok (if plan.links.contains column.name then plan
        else { plan with links := plan.links ++ [column.name] })
    else .ok { plan with levels := addColumn level column plan.levels }

def resolve (model : EntityModel) (fields : List String) : Except EngineError UpdatePlan :=
  if fields.isEmpty then .error QueryError.noFields else fields.foldlM (addField model) {}

def assignments (level : EntityModel) (values : List (String × Value)) (columns : List Column) :
    Except QueryError (List (String × Value)) :=
  columns.mapM fun c => return (c.name, ← Builder.storedValue level values c.name)

variable {σ ε : Type} (env : Setting σ) (i : StorageId)

/-- Writes the columns of one level; the greatest number of rows touched so far. -/
def applyLevel (values : List (String × Value)) (ids : List Int64) (affected? : Option Nat)
    (level : EntityModel × List Column) : Attempt σ ε (Option Nat) := do
  let set ← Attempt.ofResult (assignments level.1 values level.2)
  let n ← Storage.executeTemplate env i
    (Sql.update (Storage.dialect env i) level.1.table set level.1.primaryKey ids)
  return some (max (affected?.getD 0) n)

/-- Writes an entity's values to rows. The number of rows is the greatest that a level reports, or
that of the ids where only links were written. -/
def apply (plan : UpdatePlan) (type : EntityType ε) (item : ε) (ids : List Int64) :
    Attempt σ ε Nat := do
  let affected? ← plan.levels.foldlM (applyLevel env i (type.values item) ids) none
  if !plan.links.isEmpty then
    ids.forM fun id => Links.write env i type item id true (some plan.links)
  return affected?.getD ids.length

end UpdatePlan

structure Update (ε : Type) where
  type : EntityType ε
  storage : StorageId
  items : List ε
  fields : List String := []
  filter? : Option Predicate := none

namespace Update

variable {σ ε : Type}

def field (u : Update ε) (name : String) : Update ε :=
  { u with fields := u.fields ++ [name] }

def withFields (u : Update ε) (names : List String) : Update ε :=
  { u with fields := u.fields ++ names }

def filter (u : Update ε) (p : Predicate) : Update ε :=
  { u with filter? := some (Predicate.conjoin u.filter? p) }

variable (env : Setting σ)

def applyEach (u : Update ε) (plan : UpdatePlan) (total : Nat) (item : ε) : Attempt σ ε Nat := do
  let id := u.type.id item
  if id = 0 then Attempt.ofResult (.error (QueryError.unsaved u.type.model.path) : Except _ Unit)
  return total + (← plan.apply env u.storage u.type item [id])

/-- Writes the first entity's values to the rows that a statement selects. -/
def applySelected (u : Update ε) (plan : UpdatePlan) (t : Sql.Template) (bindings : Sql.Bindings) :
    Attempt σ ε Nat := do
  match u.items with
  | [] => return 0
  | item :: _ =>
    let s ← Storage.bound t bindings
    let ids ← Builder.readIds env u.storage u.type.model.root.primaryKey s
    if ids.isEmpty then return 0 else plan.apply env u.storage u.type item ids

def apply (u : Update ε) (plan : UpdatePlan) (selection? : Option Sql.Template)
    (bindings : Sql.Bindings) : Attempt σ ε Nat :=
  match selection? with
  | some t => u.applySelected env plan t bindings
  | none => u.items.foldlM (u.applyEach env plan) 0

/-- The plan of an update, and the statement that selects its rows if it has a filter. -/
def compile (u : Update ε) : Except EngineError (UpdatePlan × Option Sql.Template) := do
  let plan ← UpdatePlan.resolve u.type.model u.fields
  match u.filter? with
  | none => return (plan, none)
  | some p =>
    match Builder.idsTemplate env u.storage u.type.model p with
    | .ok t => return (plan, some t)
    | .error e => throw (e : EngineError)

def compiled (u : Update ε) (plan : UpdatePlan) (selection? : Option Sql.Template) :
    Compiled σ ε Nat where
  storage := u.storage
  operation := "update"
  fallback := 0
  variableNames := (selection?.map (·.variableNames)).getD []
  execute bindings := Storage.runInsideTransaction env u.storage
    (u.apply env plan selection? bindings).outcome

def prepare (u : Update ε) : Except EngineError (Compiled σ ε Nat) := do
  let (plan, selection?) ← u.compile env
  return u.compiled env plan selection?

def run (u : Update ε) : Engine σ ε (Outcome Nat) :=
  match u.prepare env with
  | .ok c => c.execute []
  | .error e => return .ofError e

def runBare (u : Update ε) : Engine σ ε Nat := do
  return (← Engine.collapse (env.log u.storage) "update" (← u.run env)).getD 0

end Update

end EntityStore
