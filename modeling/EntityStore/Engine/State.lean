import EntityStore.Config.Basic
import EntityStore.Engine.Provider
import EntityStore.Outcome
import EntityStore.Registry.Dispatcher

/-!
The state of an engine and the computations on it. What does not change is in a `Setting`: the
models, the providers, what is reported. `Engine` computations change the state; an `Attempt` may
also fail, and keeps the state it has reached.
-/

namespace EntityStore

structure ActiveTransaction where
  id : Nat
  depth : Nat
  deriving DecidableEq, Repr

structure Coordinator where
  active? : Option ActiveTransaction := none
  lastId : Nat := 0
  deriving DecidableEq, Repr

abbrev DatabaseId := Nat

abbrev ManagerId := Nat

structure Database (ε : Type) where
  registry : Registry ε := {}
  dispatcher : Dispatcher ε := {}
  config : Config := {}

structure Setting (σ : Type) where
  schema : Schema
  provider : StorageId → Provider σ
  log : StorageId → LogConfig
  now : DateTime

structure State (σ ε : Type) where
  outside : σ
  trail : Array Event := #[]
  coordinator : StorageId → Coordinator := fun _ => {}
  models : StorageId → List EntityModel := fun _ => []
  hooks? : ManagerId → Option (Hooks ε) := fun _ => none
  observers : ManagerId → Mutation → List (Observer ε) := fun _ _ => []
  managerCount : Nat := 0
  database : DatabaseId → Database ε := fun _ => {}
  installed? : Option DatabaseId := none
  openUnit : Nat → Option Nat := fun _ => none
  providerCount : Nat := 0

abbrev Engine (σ ε : Type) := StateM (State σ ε)

abbrev Attempt (σ ε : Type) := ExceptT EngineError (Engine σ ε)

variable {σ ε α : Type}

namespace Engine

def record (e : Event) : Engine σ ε Unit :=
  modify fun s => { s with trail := s.trail.push e }

def trace (level : TraceLevel) (target : TraceTarget) (message : String)
    (fields : List (String × TraceField)) : Engine σ ε Unit :=
  record (.trace { level, target, message, fields })

/-- Makes a call, and records it with its success. -/
def call (event : Bool → Event) (answer : Answer σ α) : Engine σ ε (Except StorageError α) := do
  let s ← get
  let (result, outside) := answer s.outside
  set { s with outside }
  record (event result.isOk)
  return result

/-- The value that errors leave out, after they have been reported. -/
def collapse (log : LogConfig) (operation : String) (o : Outcome α) : Engine σ ε (Option α) := do
  if log.printErrors then
    for e in o.errors do
      trace .error .engine e.message
        [("operation", .text operation), ("origin", .text e.origin.label),
          ("class", .text e.errorClass.label)]
  return o.value?

end Engine

namespace Attempt

def outcome (a : Attempt σ ε α) : Engine σ ε (Outcome α) := do
  return .ofExcept (← a.run)

def lift (e : Engine σ ε α) : Attempt σ ε α :=
  ExceptT.lift e

def trace (level : TraceLevel) (target : TraceTarget) (message : String)
    (fields : List (String × TraceField)) : Attempt σ ε Unit :=
  lift (Engine.trace level target message fields)

def ofExcept (r : Except EngineError α) : Attempt σ ε α :=
  ExceptT.mk (pure r)

def ofResult {β : Type} [Coe β EngineError] (r : Except β α) : Attempt σ ε α :=
  match r with
  | .ok value => ofExcept (.ok value)
  | .error e => ofExcept (.error e)

end Attempt

end EntityStore
