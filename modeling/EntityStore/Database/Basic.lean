import EntityStore.Manager.Request
import EntityStore.Storage.Schema

/-!
Databases: a registry of types, a dispatcher and settings. Types are registered here, tables are
made for all of their storages, and typed requests go to the manager of their type.
-/

namespace EntityStore

/-- What can be asked of a database, with the name under which errors are reported and what the bare
form gives where there is no value. -/
structure DatabaseCall (σ ε α β : Type) where
  name : String
  run : Setting σ → DatabaseId → Engine σ ε (Outcome α)
  bare : Option α → β

namespace Database

variable {σ ε α β : Type}

def current (db : DatabaseId) : Engine σ ε (Database ε) := do
  return (← get).database db

def setRegistry (db : DatabaseId) (registry : Registry ε) : Engine σ ε Unit :=
  modify fun s =>
    { s with database := setAt s.database db { s.database db with registry } }

def setDispatcher (db : DatabaseId) (dispatcher : Dispatcher ε) : Engine σ ε Unit :=
  modify fun s =>
    { s with database := setAt s.database db { s.database db with dispatcher } }

def freshManager : Engine σ ε ManagerId :=
  modifyGet fun s => (s.managerCount, { s with managerCount := s.managerCount + 1 })

/-- Registers a type on a storage, under its path and perhaps an alias; its node in the forest. -/
def registerNode (db : DatabaseId) (type : EntityType ε) (storage : StorageId)
    (alias? : Option String) : Engine σ ε (Except RegistryError Nat) := do
  let registry := (← current db).registry
  let manager : Manager ε := ⟨← freshManager, type, storage⟩
  match registry.insert manager alias? with
  | .error e => return .error e
  | .ok (node, registry) =>
    Storage.addModel storage type.model
    setRegistry db registry
    Engine.trace .debug .registry "registered"
      ([("path", .text type.model.path), ("table", .text type.model.table)]
        ++ (alias?.map fun a => ("alias", TraceField.text a)).toList)
    return .ok node

def register (db : DatabaseId) (type : EntityType ε) (storage : StorageId)
    (alias? : Option String) : Attempt σ ε Unit := do
  let _ ← Attempt.ofResult (← Attempt.lift (registerNode db type storage alias?))

def manager (db : DatabaseId) (type : EntityType ε) : Attempt σ ε (Manager ε) := do
  Attempt.ofResult ((← Attempt.lift (current db)).registry.manager type)

def storage (db : DatabaseId) (type : EntityType ε) : Attempt σ ε StorageId := do
  Attempt.ofResult ((← Attempt.lift (current db)).registry.storageOf type.model.path)

def initStorage (env : Setting σ) (created : List String) (i : StorageId) :
    Attempt σ ε (List String) := do
  Storage.connect env i
  return created ++ (← Storage.createTables env i)

def init (env : Setting σ) (db : DatabaseId) : Attempt σ ε (List String) := do
  let storages := (← Attempt.lift (current db)).registry.storages
  storages.foldlM (initStorage env) []

/-- Forgets every registration and every answer of the dispatcher. -/
def teardown (db : DatabaseId) : Engine σ ε Unit := do
  let d ← current db
  setDispatcher db d.dispatcher.clear
  setRegistry db {}
  Engine.trace .debug .registry "cleared" []

/-- Hands a request to the manager of a type. -/
def withManager (db : DatabaseId) (type : EntityType ε)
    (call : Manager ε → Engine σ ε (Outcome α)) : Engine σ ε (Outcome α) := do
  match ← (manager db type).run with
  | .ok m => call m
  | .error e => return .ofError e

def typed (type : EntityType ε) (r : Request σ ε α β) : DatabaseCall σ ε α β where
  name := r.name
  run env db := withManager db type (r.run env)
  bare := r.bare

/-- Runs an action inside a transaction on the storage of a type. -/
def runInsideTransaction (env : Setting σ) (db : DatabaseId) (type : EntityType ε)
    (action : Engine σ ε (Outcome α)) : Engine σ ε (Outcome α) := do
  match ← (storage db type).run with
  | .ok i => Storage.runInsideTransaction env i action
  | .error e => return .ofError e

end Database

def DatabaseCall.runBare {σ ε α β : Type} (c : DatabaseCall σ ε α β) (env : Setting σ)
    (db : DatabaseId) : Engine σ ε β := do
  let log := (← Database.current db).config.log
  return c.bare (← Engine.collapse log c.name (← c.run env db))

end EntityStore
