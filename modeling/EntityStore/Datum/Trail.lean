import EntityStore.Datum.Statement
import EntityStore.Engine.Event

/-!
The trail of a run as plain data: each event is a list of its name, what it happened to, and what it
carried. Whether the call succeeded is not part of it.
-/

namespace EntityStore

def UnitCall.label : UnitCall → String
  | prepare => "init"
  | can _ => "can"
  | save _ => "save"
  | beforeUp => "before_up"
  | afterUp _ => "after_up"
  | apply _ => "apply"

/-- What a call to a provider of migrations carries. -/
def UnitCall.argument : UnitCall → Datum
  | prepare => .null
  | can name => name
  | save name => name
  | beforeUp => .null
  | afterUp success => success
  | apply path => path

instance : ToDatum TraceField := ⟨fun
  | .number n => n
  | .text s => s⟩

instance : ToDatum Trace := ⟨fun t =>
  .list ["trace", t.level.label, t.target.label,
    .record (("message", datum t.message) :: t.fields.map fun (key, field) => (key, datum field))]⟩

namespace Event

def ofStatement (word storage : String) (s : Sql.Statement) : Datum :=
  .list [word, storage, s.sql, .list (s.params.map fun p => .list [p.placeholder, p.value])]

/-- An event, given the names of the storages. The calls to a provider of migrations show for those
providers that have a name. -/
def datum? (storageName : StorageId → String) (unitNames : List (StorageId × String)) :
    Event → Option Datum
  | connect i _ => some (.list ["connect", storageName i])
  | begin i _ => some (.list ["begin", storageName i])
  | commit i _ => some (.list ["commit", storageName i])
  | rollback i _ => some (.list ["rollback", storageName i])
  | execute i s _ => some (ofStatement "execute" (storageName i) s)
  | query i s _ => some (ofStatement "query" (storageName i) s)
  | insert i s _ => some (ofStatement "insert" (storageName i) s)
  | hook point id => some (.list ["hook", point.label, id])
  | observer m tag id => some (.list ["observer", m.label ++ "d", tag, id])
  | unitCall i call _ =>
    (unitNames.lookup i).map fun name => .list ["provider", name, call.label, call.argument]
  | trace t => some t

end Event

end EntityStore
