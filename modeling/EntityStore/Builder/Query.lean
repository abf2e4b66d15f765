import EntityStore.Builder.Links
import EntityStore.Builder.Prepared

/-!
Queries: entities of one type that a predicate holds for, in an order and page by page. The entities
come whole, with their links; the rows alone can be had with only some of their columns.
-/

namespace EntityStore

structure Query (ε : Type) where
  type : EntityType ε
  storage : StorageId
  filter? : Option Predicate := none
  fields : List String := []
  order : List (String × Sql.Direction) := []
  limit? : Option UInt64 := none
  offset? : Option UInt64 := none

namespace Query

variable {σ ε : Type}

def filter (q : Query ε) (p : Predicate) : Query ε :=
  { q with filter? := some (Predicate.conjoin q.filter? p) }

def field (q : Query ε) (name : String) : Query ε :=
  { q with fields := q.fields ++ [name] }

def orderBy (q : Query ε) (path : String) (direction : Sql.Direction) : Query ε :=
  { q with order := q.order ++ [(path, direction)] }

def limit (q : Query ε) (n : UInt64) : Query ε :=
  { q with limit? := some n }

def offset (q : Query ε) (n : UInt64) : Query ε :=
  { q with offset? := some n }

variable (env : Setting σ)

/-- Resolves the filter, then the order, on one set of tables. -/
def resolve (q : Query ε) : Resolve (Option WhereGroup × List Sql.OrderTerm) := do
  let filter? ← Builder.resolveFilter env.schema q.type.model q.filter?
  let order ← q.order.mapM fun (path, direction) => do
    let (column, _) ← Resolve.column env.schema q.type.model path
    return ({ column, direction } : Sql.OrderTerm)
  return (filter?, order)

/-- The statement of a query. -/
def compile (q : Query ε) : Except TranslateError Sql.Template :=
  match Resolve.runOn q.type.model (q.resolve env) with
  | (.ok (filter?, order), joins) => .ok (Sql.select (Storage.dialect env q.storage) q.type.model
      { joins, filter?, order, limit? := q.limit?, offset? := q.offset? })
  | (.error e, _) => .error e

def load (i : StorageId) (type : EntityType ε) (t : Sql.Template) (bindings : Sql.Bindings) :
    Attempt σ ε (List ε) := do
  let rows ← Storage.query env i (← Storage.bound t bindings)
  Links.load env i type (← Attempt.ofExcept (rows.mapM type.ofRow))

def compiled (q : Query ε) (t : Sql.Template) : Compiled σ ε (List ε) where
  storage := q.storage
  operation := "query"
  fallback := []
  variableNames := t.variableNames
  execute bindings := (load env q.storage q.type t bindings).outcome

def prepare (q : Query ε) : Except EngineError (Compiled σ ε (List ε)) :=
  match q.compile env with
  | .ok t => .ok (q.compiled env t)
  | .error e => .error e

def run (q : Query ε) : Engine σ ε (Outcome (List ε)) :=
  match q.prepare env with
  | .ok c => c.execute []
  | .error e => return .ofError e

theorem run_of_compile {env : Setting σ} {q : Query ε} {t : Sql.Template}
    (compiled : q.compile env = .ok t) :
    q.run env = (load env q.storage q.type t []).outcome := by
  rw [run, prepare, compiled]
  rfl

def runBare (q : Query ε) : Engine σ ε (List ε) := do
  return (← Engine.collapse (env.log q.storage) "query" (← q.run env)).getD []

def single (q : Query ε) : Engine σ ε (Outcome (Option ε)) := do
  return (← (q.limit 1).run env).map List.head?

def singleBare (q : Query ε) : Engine σ ε (Option ε) := do
  return (← Engine.collapse (env.log q.storage) "single" (← q.single env)).join

/-- The stored name of a column that rows are to keep. -/
def projected (m : EntityModel) (name : String) : Except TranslateError String :=
  match m.findColumn? name with
  | some (_, column) =>
    if column.isPhysical then .ok column.name else .error (.unknownField m.path name)
  | none => .error (.unknownField m.path name)

/-- The rows of a query, with the columns that were named, or with all. -/
def rows (q : Query ε) : Engine σ ε (Outcome (List Row)) :=
  Attempt.outcome do
    let t ← Attempt.ofResult (q.compile env)
    let names ← Attempt.ofResult (q.fields.mapM (projected q.type.model))
    let rows ← Storage.query env q.storage (← Storage.bound t [])
    return if names.isEmpty then rows else rows.map (·.project names)

end Query

end EntityStore
