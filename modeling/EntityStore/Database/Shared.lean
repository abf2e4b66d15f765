import EntityStore.Database.Basic

/-!
The database that a whole program shares. It is installed once and stays until it is torn down,
which also forgets its registrations, for whoever still holds it.
-/

namespace EntityStore.SharedDatabase

variable {σ ε : Type}

def isInstalled : Engine σ ε Bool := do
  return (← get).installed?.isSome

def installed : Engine σ ε (Except RegistryError DatabaseId) := do
  match (← get).installed? with
  | some db => return .ok db
  | none => return .error .notInstalled

/-- Installs a database unless one is installed. -/
def install (db : DatabaseId) : Engine σ ε (Except RegistryError DatabaseId) := do
  if ← isInstalled then return .error .alreadyInstalled
  modify fun s => { s with installed? := some db }
  Engine.trace .debug .registry "global database installed" []
  return .ok db

/-- Removes the installed database and forgets its registrations. -/
def teardown : Engine σ ε (Option DatabaseId) := do
  match (← get).installed? with
  | none => return none
  | some db =>
    modify fun s => { s with installed? := none }
    Database.teardown db
    Engine.trace .debug .registry "global database torn down" []
    return some db

end EntityStore.SharedDatabase
