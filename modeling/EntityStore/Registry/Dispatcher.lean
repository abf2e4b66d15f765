import EntityStore.Registry.Basic

/-!
The dispatcher: which type and manager a dynamic call goes to. The last answer for each operation is
kept and used again for the same type; any other type is looked up afresh.
-/

namespace EntityStore

structure Resolved (ε : Type) where
  type : EntityType ε
  manager : Manager ε

structure Dispatcher (ε : Type) where
  cache : List (Operation × TypeKey × Resolved ε) := []
  lookups : Nat := 0

namespace Dispatcher

variable {ε : Type}

def clear (d : Dispatcher ε) : Dispatcher ε :=
  { d with cache := [] }

def cached? (d : Dispatcher ε) (operation : Operation) (key : TypeKey) : Option (Resolved ε) :=
  match d.cache.lookup operation with
  | some (kept, resolved) => if kept = key then some resolved else none
  | none => none

def resolve (d : Dispatcher ε) (registry : Registry ε) (operation : Operation) (key : TypeKey) :
    Except DispatchError (Resolved ε) × Dispatcher ε :=
  match d.cached? operation key with
  | some resolved => (.ok resolved, d)
  | none =>
    let counted := { d with lookups := d.lookups + 1 }
    match registry.record? key with
    | none => (.error (.methodNotFound operation key.label), counted)
    | some record =>
      let resolved : Resolved ε := ⟨record.type, record.manager⟩
      (.ok resolved, { counted with cache := Assoc.put operation (key, resolved) d.cache })

end Dispatcher

end EntityStore
