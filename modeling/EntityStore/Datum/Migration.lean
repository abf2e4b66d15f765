import EntityStore.Datum.Model
import EntityStore.Datum.Value
import EntityStore.Migration.Plan

/-!
Declarations and plans of migrations as plain data.
-/

namespace EntityStore.Migration

instance : ToDatum Action := ⟨fun a => a.label⟩

instance : OfDatum Action := ⟨fun
  | .text "create" => .create
  | .text "update" => .update
  | _ => .delete⟩

instance : OfDatum PropertyOptions := ⟨fun d =>
  { primary := d.get "primary"
    autoIncrement := d.get "auto_increment"
    unique := d.get "unique"
    nullable := d.get "nullable"
    indexed := d.get "indexed"
    size := d.get "size"
    default? := (d.member? "default").map ofDatum }⟩

/-- What is declared of a property: a word, and what it needs. -/
instance : OfDatum PropertyDeclaration := ⟨fun d =>
  match (d.nth 0 : String) with
  | "add" => .add (d.nth 1) (d.nth 2) (d.nth 3)
  | "primary" => .addPrimary (d.nth 1)
  | "rename" => .rename (d.nth 1) (d.nth 2)
  | _ => .remove (d.nth 1)⟩

instance : OfDatum ModelRequest := ⟨fun d =>
  match (d.get "how" : String) with
  | "create" => .create
  | "rename" => .rename (d.get "from")
  | "delete" => .delete
  | _ => .select⟩

def Declaration.ofDatum (c : Catalog) (d : Datum) : Declaration :=
  ⟨c.model (d.get "model"), EntityStore.ofDatum d, d.get "props"⟩

def Declaration.listOf (c : Catalog) (ds : List Datum) : List Declaration :=
  ds.map (ofDatum c)

def MigrationUnit.ofDatum (c : Catalog) (d : Datum) : MigrationUnit :=
  ⟨d.get "name", Declaration.listOf c (d.get "decls")⟩

namespace PropertyChange

def columnDatum (p : PropertyChange) : Option Datum :=
  p.column?.map (Datum.ofColumn (Catalog.schema []))

end PropertyChange

namespace PropertyOptions

def flags (o : PropertyOptions) : List Bool :=
  [o.nullable, o.unique, o.primary, o.autoIncrement, o.indexed]

end PropertyOptions

instance : ToDatum PropertyChange := ⟨fun p =>
  .record [("name", p.name), ("action", p.action?), ("type", p.type?), ("from", p.renamedFrom?),
    ("flags", p.options.flags), ("size", p.options.size), ("default", p.options.default?),
    ("column", p.columnDatum)]⟩

namespace ModelChange

def datumAt (m : ModelChange) (index : Nat) : Datum :=
  .record [("path", m.path), ("table", m.table), ("priority", index), ("action", m.action?),
    ("from", m.renamedFrom?), ("pending", m.isPending),
    ("pending_props", m.pendingProperties.map (·.name)), ("props", m.properties)]

end ModelChange

instance : ToDatum Plan := ⟨fun p =>
  .record [("empty", p.isEmpty),
    ("models", .list (p.models.zipIdx.map fun (m, index) => m.datumAt index))]⟩

end EntityStore.Migration
