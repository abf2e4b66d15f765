import EntityStore.Builder.Basic
import EntityStore.Builder.Prepared

/-!
Whether entities of a type exist that a predicate holds for, and how many. Both are answered by one
counting statement.
-/

namespace EntityStore

structure Exist (ε : Type) where
  type : EntityType ε
  storage : StorageId
  filter? : Option Predicate := none

namespace Exist

variable {σ ε : Type}

def filter (e : Exist ε) (p : Predicate) : Exist ε :=
  { e with filter? := some (Predicate.conjoin e.filter? p) }

variable (env : Setting σ)

def compile (e : Exist ε) : Except TranslateError Sql.Template :=
  match Resolve.runOn e.type.model (Builder.resolveFilter env.schema e.type.model e.filter?) with
  | (.ok filter?, joins) =>
    .ok (Sql.count (Storage.dialect env e.storage) e.type.model joins filter?)
  | (.error error, _) => .error error

def countWith (i : StorageId) (t : Sql.Template) (bindings : Sql.Bindings) :
    Engine σ ε (Outcome Nat) :=
  Attempt.outcome do Storage.count env i (← Storage.bound t bindings)

def compiled (e : Exist ε) (t : Sql.Template) : Compiled σ ε Bool where
  storage := e.storage
  operation := "exist"
  fallback := false
  variableNames := t.variableNames
  execute bindings := return (← countWith env e.storage t bindings).map (0 < ·)

def prepare (e : Exist ε) : Except EngineError (Compiled σ ε Bool) :=
  match e.compile env with
  | .ok t => .ok (e.compiled env t)
  | .error error => .error error

def count (e : Exist ε) : Engine σ ε (Outcome Nat) :=
  match e.compile env with
  | .ok t => countWith env e.storage t []
  | .error error => return .ofError error

def countBare (e : Exist ε) : Engine σ ε Nat := do
  return (← Engine.collapse (env.log e.storage) "count" (← e.count env)).getD 0

def run (e : Exist ε) : Engine σ ε (Outcome Bool) := do
  return (← e.count env).map (0 < ·)

def runBare (e : Exist ε) : Engine σ ε Bool := do
  return (← Engine.collapse (env.log e.storage) "exist" (← e.run env)).getD false

end Exist

end EntityStore
