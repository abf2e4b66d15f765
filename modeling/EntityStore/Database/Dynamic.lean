import EntityStore.Database.Basic
import EntityStore.Registry.Handlers

/-!
Dynamic calls: types are named by a path or an alias, and entities bring their type with them. Each
call is resolved to the handlers and the manager of its type.
-/

namespace EntityStore.Database

variable {σ ε α β : Type}

/-- The handlers and the manager of a type, for an operation. -/
def resolve (db : DatabaseId) (operation : Operation) (key : TypeKey) :
    Attempt σ ε (Resolved ε) := do
  let d ← Attempt.lift (current db)
  let (result, dispatcher) := d.dispatcher.resolve d.registry operation key
  Attempt.lift (setDispatcher db dispatcher)
  Attempt.ofResult result

def resolvePath (db : DatabaseId) (operation : Operation) (path : String) :
    Attempt σ ε (Resolved ε) := do
  let key ← Attempt.ofResult ((← Attempt.lift (current db)).registry.typeOf path)
  resolve db operation key

/-- Hands a call to what it was resolved to. -/
def handOver (resolved : Attempt σ ε (Resolved ε))
    (call : Resolved ε → Engine σ ε (Outcome α)) : Engine σ ε (Outcome α) := do
  match ← resolved.run with
  | .ok r => call r
  | .error e => return .ofError e

/-- A call to the type under a path. -/
def byPath (name : String) (operation : Operation) (path : String)
    (call : Setting σ → Resolved ε → Engine σ ε (Outcome α)) (bare : Option α → β) :
    DatabaseCall σ ε α β where
  name := name
  run env db := handOver (resolvePath db operation path) (call env)
  bare := bare

/-- A call to the type of an entity. -/
def byEntity (name : String) (operation : Operation) (boxed : BoxedEntity ε)
    (call : Setting σ → Resolved ε → Engine σ ε (Outcome α)) (bare : Option α → β) :
    DatabaseCall σ ε α β where
  name := name
  run env db := handOver (resolve db operation boxed.type.key) (call env)
  bare := bare

def dynGetAll (path : String) : DatabaseCall σ ε (List (BoxedEntity ε)) (List (BoxedEntity ε)) :=
  byPath "dyn_get_all" .getAll path (fun env r => r.getAll env) fun value? => value?.getD []

def dynGetById (path : String) (id : Int64) :
    DatabaseCall σ ε (Option (BoxedEntity ε)) (Option (BoxedEntity ε)) :=
  byPath "dyn_get_by_id" .getById path (fun env r => r.getById env id) Option.join

def dynFilter (path : String) (p : Predicate) :
    DatabaseCall σ ε (List (BoxedEntity ε)) (List (BoxedEntity ε)) :=
  byPath "dyn_filter" .filter path (fun env r => r.filter env p) fun value? => value?.getD []

def dynExist (path : String) (p : Predicate) : DatabaseCall σ ε Bool Bool :=
  byPath "dyn_exist" .exist path (fun env r => r.exist env p) fun value? => value?.getD false

def dynCreate (boxed : BoxedEntity ε) :
    DatabaseCall σ ε (BoxedEntity ε) (Option (BoxedEntity ε)) :=
  byEntity "dyn_create" .create boxed (fun env r => r.create env boxed) id

def dynUpdate (boxed : BoxedEntity ε) (fields : List String) :
    DatabaseCall σ ε (BoxedEntity ε) (Option (BoxedEntity ε)) :=
  byEntity "dyn_update" .update boxed (fun env r => r.update env boxed fields) id

def dynDelete (boxed : BoxedEntity ε) :
    DatabaseCall σ ε (BoxedEntity ε) (Option (BoxedEntity ε)) :=
  byEntity "dyn_delete" .delete boxed (fun env r => r.delete env boxed) id

end EntityStore.Database
