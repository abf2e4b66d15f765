import EntityStore.Engine.State

/-!
How hooks and observers take part in a mutation. Before it, each item is admitted by its hooks or
left out with one error; after it, each item is told to the hook and then to the observers, and what
fails there is reported without stopping anything.
-/

namespace EntityStore.Manager

variable {σ ε : Type}

def hooks? (m : Manager ε) : Engine σ ε (Option (Hooks ε)) := do
  return (← get).hooks? m.number

def observers (m : Manager ε) (mutation : Mutation) : Engine σ ε (List (Observer ε)) := do
  return (← get).observers m.number mutation

def setHooks (m : Manager ε) (hooks? : Option (Hooks ε)) : Engine σ ε Unit :=
  modify fun s => { s with hooks? := setAt s.hooks? m.number hooks? }

/-- Adds an observer behind those there are. -/
def observe (m : Manager ε) (mutation : Mutation) (o : Observer ε) : Engine σ ε Unit :=
  modify fun s =>
    let present := s.observers m.number
    { s with observers := setAt s.observers m.number fun other =>
        if other = mutation then present other ++ [o] else present other }

/-- Asks a hook, which answers `fallback` where no hooks are set. -/
def askHook {α : Type} (m : Manager ε) (point : HookPoint) (item : ε) (fallback : α)
    (ask : Hooks ε → Except Panic α) : Engine σ ε (Except EngineError α) := do
  match ← m.hooks? with
  | none => return .ok fallback
  | some hooks =>
    Engine.record (.hook point (m.type.id item))
    match ask hooks with
    | .ok answer => return .ok answer
    | .error p => return .error (p.error point.label)

/-- Admits an item to a mutation, as its hook leaves it; a deletion takes the item as it was. -/
def admitOne (m : Manager ε) (mutation : Mutation) (item : ε) :
    Engine σ ε (Except EngineError ε) := do
  let can : HookPoint := ⟨.can, mutation⟩
  match ← m.askHook can item true (·.can mutation item) with
  | .error e => return .error e
  | .ok false => return .error (refusal can)
  | .ok true =>
    match ← m.askHook ⟨.before, mutation⟩ item item (·.before mutation item) with
    | .error e => return .error e
    | .ok changed => return .ok (if mutation = .delete then item else changed)

def admitted : List (Except EngineError ε) → List ε
  | [] => []
  | .ok item :: rest => item :: admitted rest
  | .error _ :: rest => admitted rest

def rejected : List (Except EngineError ε) → List EngineError
  | [] => []
  | .ok _ :: rest => rejected rest
  | .error e :: rest => e :: rejected rest

def admitAll (m : Manager ε) (mutation : Mutation) (items : List ε) :
    Engine σ ε (List ε × List EngineError) := do
  let answers ← items.mapM (m.admitOne mutation)
  return (admitted answers, rejected answers)

/-- Tells one observer; the error if it fails. -/
def tellObserver (m : Manager ε) (mutation : Mutation) (item : ε) (o : Observer ε) :
    Engine σ ε (List EngineError) := do
  Engine.record (.observer mutation o.tag (m.type.id item))
  match o.notify item with
  | .ok () => return []
  | .error p => return [p.error mutation.eventLabel]

/-- Tells the hook, then the observers in order, that an item has gone through. -/
def tellOne (m : Manager ε) (mutation : Mutation) (item : ε) : Engine σ ε (List EngineError) := do
  let hookErrors ← do
    match ← m.askHook ⟨.after, mutation⟩ item () (·.after mutation item) with
    | .ok () => pure []
    | .error e => pure [e]
  let observers ← m.observers mutation
  let told ← observers.mapM (m.tellObserver mutation item)
  return hookErrors ++ told.flatten

def tellAll (m : Manager ε) (mutation : Mutation) (items : List ε) :
    Engine σ ε (List EngineError) := do
  return (← items.mapM (m.tellOne mutation)).flatten

end EntityStore.Manager
