import EntityStore.Engine.Assoc
import EntityStore.Engine.State
import EntityStore.Sql.Template

/-!
Requests made ready to run many times. A ready request has its statements; each run begins without
any values for their variables. Of the runs of one request only one is under way at a time.
-/

namespace EntityStore

/-- A request of which nothing is open but the values of its variables. -/
structure Compiled (σ ε α : Type) where
  storage : StorageId
  operation : String
  variableNames : List String
  fallback : α
  execute : Sql.Bindings → Engine σ ε (Outcome α)

/-- The request with another form of its answers. -/
def Compiled.map {σ ε α β : Type} (f : α → β) (c : Compiled σ ε α) : Compiled σ ε β where
  storage := c.storage
  operation := c.operation
  variableNames := c.variableNames
  fallback := f c.fallback
  execute bindings := do
    return (← c.execute bindings).map f

structure Prepared (σ ε α : Type) where
  compiled : Compiled σ ε α
  bindings? : Option Sql.Bindings := none

namespace Prepared

variable {σ ε α : Type}

def isBusy (p : Prepared σ ε α) : Bool :=
  p.bindings?.isSome

def start? (p : Prepared σ ε α) : Option (Prepared σ ε α) :=
  if p.isBusy then none else some { p with bindings? := some [] }

def setVariable (p : Prepared σ ε α) (name : String) (value : Value) : Prepared σ ε α :=
  { p with bindings? := p.bindings?.map (Assoc.put name value) }

def execute (p : Prepared σ ε α) : Engine σ ε (Outcome α) :=
  p.compiled.execute (p.bindings?.getD [])

def executeBare (p : Prepared σ ε α) (env : Setting σ) : Engine σ ε α := do
  let log := env.log p.compiled.storage
  return (← Engine.collapse log p.compiled.operation (← p.execute)).getD p.compiled.fallback

def finish (p : Prepared σ ε α) : Prepared σ ε α :=
  { p with bindings? := none }

end Prepared

end EntityStore
