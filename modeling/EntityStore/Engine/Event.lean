import EntityStore.Manager.Hooks
import EntityStore.Sql.Template

/-!
The trail of a run: every call that leaves the engine, in order, with whether it succeeded, and the
messages that the engine reports on the way.
-/

namespace EntityStore

abbrev StorageId := Nat

inductive TraceLevel
  | debug
  | info
  | warn
  | error
  deriving DecidableEq, Repr

def TraceLevel.label : TraceLevel → String
  | .debug => "DEBUG"
  | .info => "INFO"
  | .warn => "WARN"
  | .error => "ERROR"

/-- The part of the engine that reports. -/
inductive TraceTarget
  | engine
  | sql
  | transaction
  | migration
  | registry
  deriving DecidableEq, Repr

/-- The name under which a part of the engine reports. -/
def TraceTarget.label : TraceTarget → String
  | .engine => "tabula"
  | .sql => "tabula::sql"
  | .transaction => "tabula::txn"
  | .migration => "tabula::migration"
  | .registry => "tabula::registry"

inductive TraceField
  | number (n : Nat)
  | text (s : String)
  deriving DecidableEq, Repr

/-- One reported message with its fields. -/
structure Trace where
  level : TraceLevel
  target : TraceTarget
  message : String
  fields : List (String × TraceField) := []
  deriving DecidableEq, Repr

/-- The calls that a migration makes to a provider. -/
inductive UnitCall
  | prepare
  | can (name : String)
  | save (name : String)
  | beforeUp
  | afterUp (success : Bool)
  | apply (path : String)
  deriving DecidableEq, Repr

inductive Event
  | connect (storage : StorageId) (succeeded : Bool)
  | begin (storage : StorageId) (succeeded : Bool)
  | commit (storage : StorageId) (succeeded : Bool)
  | rollback (storage : StorageId) (succeeded : Bool)
  | execute (storage : StorageId) (statement : Sql.Statement) (succeeded : Bool)
  | query (storage : StorageId) (statement : Sql.Statement) (succeeded : Bool)
  | insert (storage : StorageId) (statement : Sql.Statement) (succeeded : Bool)
  | hook (point : HookPoint) (id : Int64)
  | observer (mutation : Mutation) (tag : String) (id : Int64)
  | unitCall (storage : StorageId) (call : UnitCall) (succeeded : Bool)
  | trace (trace : Trace)

end EntityStore
