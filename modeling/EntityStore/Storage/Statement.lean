import EntityStore.Engine.State
import EntityStore.Sql.Definition
import EntityStore.Sql.Mutation
import EntityStore.Sql.Select

/-!
Running statements on a storage. Every statement reaches the provider through one of `execute`,
`query` and `insert`, which report it if the storage is asked to.
-/

namespace EntityStore.Storage

variable {σ ε : Type} (env : Setting σ) (i : StorageId)

def dialect : Sql.Dialect := (env.provider i).dialect

def name : String := (env.provider i).name

/-- Reports a statement that is about to run. -/
def traceStatement (s : Sql.Statement) : Attempt σ ε Unit :=
  if (env.log i).traceSql then
    Attempt.trace .debug .sql "execute"
      [("sql", .text s.sql), ("params", .number s.params.length),
        ("values", .text ("[" ++ ",".intercalate (s.values.map Value.json) ++ "]"))]
  else return

def answered {α : Type} (c : Engine σ ε (Except StorageError α)) : Attempt σ ε α := do
  Attempt.ofResult (← Attempt.lift c)

def connect : Attempt σ ε Unit :=
  answered (Engine.call (.connect i) (env.provider i).connect)

def execute (s : Sql.Statement) : Attempt σ ε Nat := do
  traceStatement env i s
  answered (Engine.call (.execute i s) ((env.provider i).execute s))

def query (s : Sql.Statement) : Attempt σ ε (List Row) := do
  traceStatement env i s
  answered (Engine.call (.query i s) ((env.provider i).query s))

def insert (s : Sql.Statement) : Attempt σ ε Int64 := do
  traceStatement env i s
  answered (Engine.call (.insert i s) ((env.provider i).insert s))

def bound (t : Sql.Template) (bindings : Sql.Bindings) : Attempt σ ε Sql.Statement :=
  Attempt.ofResult (t.bind bindings)

def executeTemplate (t : Sql.Template) : Attempt σ ε Nat := do
  execute env i (← bound t [])

def queryTemplate (t : Sql.Template) : Attempt σ ε (List Row) := do
  query env i (← bound t [])

/-- The number that a counting statement returns; a negative one counts as none. -/
def count (s : Sql.Statement) : Attempt σ ε Nat := do
  match ← query env i s with
  | [] => return 0
  | row :: _ =>
    let n ← Attempt.ofExcept (row.get Int64 Sql.countColumn)
    return n.toInt.toNat

def tableExists (table : String) : Attempt σ ε Bool := do
  return 0 < (← count env i (← bound (Sql.tableProbe (dialect env i) table) []))

end EntityStore.Storage
