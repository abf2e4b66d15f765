import EntityStore.Config.Basic
import EntityStore.Datum.Error
import EntityStore.Datum.Value
import EntityStore.Engine.Script
import EntityStore.Entity.Record
import EntityStore.Manager.Rules
import EntityStore.Storage.Transaction

/-!
What goes into the engine and what comes out of it as plain data: records, scripted databases, rules
of hooks, settings, and how transactions end.
-/

namespace EntityStore

instance : OfDatum Record := ⟨fun d =>
  { id := d.get "id"
    values := (d.get "values" : Datum).bindings
    links := (d.get "links" : Datum).members.map fun (field, ids) => (field, ofDatum ids) }⟩

instance : ToDatum Record := ⟨fun r =>
  .record [("id", r.id), ("values", .ofBindings r.values),
    ("links", .record (r.links.map fun (field, ids) => (field, datum ids)))]⟩

instance {ε : Type} [ToDatum ε] : ToDatum (BoxedEntity ε) := ⟨fun b =>
  .record [("type", b.type.model.path), ("entity_id", b.type.id b.item), ("item", b.item)]⟩

/-- The answers of each call. -/
instance : OfDatum Script := ⟨fun d =>
  { connect := d.get "connect"
    execute := d.get "execute"
    query := d.get "query"
    insert := d.get "insert"
    begin := d.get "begin"
    commit := d.get "commit"
    rollback := d.get "rollback" }⟩

instance : OfDatum Config := ⟨fun d =>
  { log := ⟨d.get "print_errors", d.get "trace_sql"⟩
    migration := ⟨d.get "multiple_providers", d.getD "table" "_migrations"⟩ }⟩

instance : ToDatum TransactionStatus := ⟨fun
  | .committed => "committed"
  | .pending depth => .record [("pending", depth)]
  | .rolledBack => "rolled_back"
  | .alreadyEnded => "already_ended"⟩

instance : OfDatum Operation := ⟨fun d =>
  (d.pick? [.getAll, .getById, .filter, .exist, .create, .update] Operation.label).getD .delete⟩

instance : OfDatum Mutation := ⟨fun d =>
  (d.pick? [.create, .update] Mutation.label).getD .delete⟩

namespace Datum

def hookPoints : List HookPoint :=
  [HookStage.can, .before, .after].flatMap fun stage =>
    [Mutation.create, .update, .delete].map fun mutation => ⟨stage, mutation⟩

end Datum

instance : OfDatum HookPoint := ⟨fun d =>
  (d.pick? Datum.hookPoints HookPoint.label).getD ⟨.can, .create⟩⟩

instance : OfDatum Panic := ⟨fun d =>
  if (d.get "payload" : String) = "other" then .other else .text (d.getD "text" "boom")⟩

namespace Record

def setValue (r : Record) (column : String) (value : Value) : Record :=
  { r with values := Assoc.put column value r.values }

def matchesPair (r : Record) (pair : String × Value) : Bool :=
  (r.values.lookup pair.1).any (· == pair.2)

end Record

/-- A rule that applies to all records or to those with a value in a column. -/
instance : OfDatum (HookRule Record) := ⟨fun d =>
  { point := d.get "at"
    appliesTo := fun r => ((d.get "when" : Option (String × Value)).map r.matchesPair).getD true
    effect := match (d.get "do" : String) with
      | "refuse" => .refuse
      | "set" => .change fun r => r.setValue (d.get "column") (d.get "value")
      | _ => .fail (ofDatum d) }⟩

end EntityStore
