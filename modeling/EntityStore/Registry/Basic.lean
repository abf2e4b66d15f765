import EntityStore.Engine.Assoc
import EntityStore.Engine.Event
import EntityStore.Entity.Basic
import EntityStore.Model.Forest

/-!
The registry: which types are known, under which paths, on which storage and with which manager. A
type comes after the one it extends and on the same storage. Registering either adds a type to all
of the registry's tables or changes none of them.
-/

namespace EntityStore

/-- The entry point for the entities of one type on one storage. -/
structure Manager (ε : Type) where
  number : Nat
  type : EntityType ε
  storage : StorageId

structure TypeRecord (ε : Type) where
  node : Nat
  storage : StorageId
  manager : Manager ε

namespace TypeRecord

variable {ε : Type}

def type (r : TypeRecord ε) : EntityType ε := r.manager.type

def model (r : TypeRecord ε) : EntityModel := r.manager.type.model

end TypeRecord

structure Registry (ε : Type) where
  forest : Forest := {}
  types : List (TypeKey × TypeRecord ε) := []
  paths : List (String × TypeKey) := []
  storages : List StorageId := []

namespace Registry

variable {ε : Type}

def record? (r : Registry ε) (key : TypeKey) : Option (TypeRecord ε) :=
  r.types.lookup key

def typeOf (r : Registry ε) (path : String) : Except RegistryError TypeKey :=
  match r.paths.lookup path with
  | some key => .ok key
  | none => .error (.notRegistered path)

def isRegistered (r : Registry ε) (path : String) : Bool :=
  (r.paths.lookup path).isSome

def recordAt? (r : Registry ε) (path : String) : Option (TypeRecord ε) :=
  (r.paths.lookup path).bind r.record?

def storageOf (r : Registry ε) (path : String) : Except RegistryError StorageId :=
  match r.recordAt? path with
  | some record => .ok record.storage
  | none => .error (.notRegistered path)

def manager (r : Registry ε) (type : EntityType ε) : Except RegistryError (Manager ε) :=
  match r.record? type.key with
  | some record => .ok record.manager
  | none => .error (.notRegistered type.model.path)

def size (r : Registry ε) : Nat :=
  r.types.length

/-- Whether a parent of the model is registered on another storage. -/
def parentElsewhere? (r : Registry ε) (model : EntityModel) (storage : StorageId) :
    Option EntityModel :=
  match model.parent? with
  | none => none
  | some parent =>
    match r.recordAt? parent.path with
    | some record => if record.storage = storage then none else some parent
    | none => none

/-- Registers a type, given as its manager, under its path and perhaps an alias. -/
def insert (r : Registry ε) (manager : Manager ε) (alias? : Option String) :
    Except RegistryError (Nat × Registry ε) := do
  let model := manager.type.model
  let key := manager.type.key
  if let some parent := r.parentElsewhere? model manager.storage then
    throw (.storageMismatch model.path parent.path)
  let (node, forest) ← r.forest.insert model alias?
  return (node,
    { forest
      types := Assoc.put key ⟨node, manager.storage, manager⟩ r.types
      paths := (model.path :: alias?.toList).foldl (fun ps path => Assoc.put path key ps) r.paths
      storages := if r.storages.contains manager.storage then r.storages
        else r.storages ++ [manager.storage] })

end Registry

end EntityStore
