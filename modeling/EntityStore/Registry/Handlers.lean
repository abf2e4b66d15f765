import EntityStore.Manager.Basic

/-!
Handlers of dynamic calls. A handler belongs to a type; it takes a manager and entities of any type
and checks that they are of its own before it hands them on.
-/

namespace EntityStore.Resolved

variable {σ ε : Type}

def managerFor (r : Resolved ε) (operation : Operation) : Except DispatchError (Manager ε) :=
  if r.manager.type.key = r.type.key then .ok r.manager
  else .error (.methodNotFound operation r.type.model.path)

def entityFor (r : Resolved ε) (operation : Operation) (boxed : BoxedEntity ε) :
    Except DispatchError ε :=
  if boxed.type.key = r.type.key then .ok boxed.item
  else .error (.typeMismatch operation r.type.model.path boxed.type.model.path)

def box (r : Resolved ε) (item : ε) : BoxedEntity ε :=
  ⟨r.type, item⟩

/-- Hands a call to the manager. -/
def withManager {α : Type} (r : Resolved ε) (operation : Operation)
    (call : Manager ε → Engine σ ε (Outcome α)) : Engine σ ε (Outcome α) :=
  match r.managerFor operation with
  | .ok m => call m
  | .error e => return .ofError e

/-- Hands a call with an entity to the manager. -/
def withEntity {α : Type} (r : Resolved ε) (operation : Operation) (boxed : BoxedEntity ε)
    (call : Manager ε → ε → Engine σ ε (Outcome α)) : Engine σ ε (Outcome α) :=
  r.withManager operation fun m =>
    match r.entityFor operation boxed with
    | .ok item => call m item
    | .error e => return .ofError e

variable (env : Setting σ)

def getAll (r : Resolved ε) : Engine σ ε (Outcome (List (BoxedEntity ε))) :=
  r.withManager .getAll fun m => return (← m.getAll env).map (·.map r.box)

def getById (r : Resolved ε) (id : Int64) : Engine σ ε (Outcome (Option (BoxedEntity ε))) :=
  r.withManager .getById fun m => return (← m.getById env id).map (·.map r.box)

def filter (r : Resolved ε) (p : Predicate) : Engine σ ε (Outcome (List (BoxedEntity ε))) :=
  r.withManager .filter fun m => return (← m.filter env p).map (·.map r.box)

def exist (r : Resolved ε) (p : Predicate) : Engine σ ε (Outcome Bool) :=
  r.withManager .exist fun m => m.exist env p

def create (r : Resolved ε) (boxed : BoxedEntity ε) : Engine σ ε (Outcome (BoxedEntity ε)) :=
  r.withEntity .create boxed fun m item => return (← m.create env item).map r.box

def update (r : Resolved ε) (boxed : BoxedEntity ε) (fields : List String) :
    Engine σ ε (Outcome (BoxedEntity ε)) :=
  r.withEntity .update boxed fun m item => return (← m.update env item fields).map r.box

def delete (r : Resolved ε) (boxed : BoxedEntity ε) : Engine σ ε (Outcome (BoxedEntity ε)) :=
  r.withEntity .delete boxed fun m item => return (← m.delete env item).map r.box

end EntityStore.Resolved
