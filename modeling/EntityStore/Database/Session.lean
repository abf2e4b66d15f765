import EntityStore.Database.Dynamic
import EntityStore.Database.PublicError
import EntityStore.Database.Shared

/-!
Sessions: a database as callers outside of the engine use it. Every call answers a value or one
public error.
-/

namespace EntityStore.Session

variable {σ ε α β : Type}

abbrev Reply (α : Type) := Except PublicError α

/-- The value of an outcome, which has to be there if there is no error. -/
def required (o : Outcome α) : Reply α :=
  match o.toExcept with
  | .ok (some value) => .ok value
  | .ok none => .error (.ofErrors [])
  | .error errors => .error (.ofErrors errors)

def optional (o : Outcome (Option α)) : Reply (Option α) :=
  match o.toExcept with
  | .ok value? => .ok value?.join
  | .error errors => .error (.ofErrors errors)

def attempt (a : Attempt σ ε α) : Engine σ ε (Reply α) := do
  match ← a.run with
  | .ok value => return .ok value
  | .error e => return .error (.ofError e)

def register (db : DatabaseId) (type : EntityType ε) (storage : StorageId)
    (alias? : Option String) : Engine σ ε (Reply Unit) :=
  attempt (Database.register db type storage alias?)

def init (env : Setting σ) (db : DatabaseId) : Engine σ ε (Reply (List String)) :=
  attempt (Database.init env db)

def ask (env : Setting σ) (db : DatabaseId) (c : DatabaseCall σ ε α β) : Engine σ ε (Reply α) := do
  return required (← c.run env db)

def askOptional (env : Setting σ) (db : DatabaseId) (c : DatabaseCall σ ε (Option α) β) :
    Engine σ ε (Reply (Option α)) := do
  return optional (← c.run env db)

def shared : Engine σ ε (Reply DatabaseId) :=
  attempt do Attempt.ofResult (← Attempt.lift SharedDatabase.installed)

def install (db : DatabaseId) : Engine σ ε (Reply DatabaseId) :=
  attempt do Attempt.ofResult (← Attempt.lift (SharedDatabase.install db))

end EntityStore.Session
