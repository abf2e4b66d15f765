import EntityStore.Datum.Basic
import EntityStore.Model.Catalog

/-!
Models as plain data. A column is read from its name, its kind, what the kind needs and its flags;
it is written with the flags in the order nullable, unique, primary, generated, indexed.
-/

namespace EntityStore

instance : ToDatum SqlType := ⟨fun t => t.label⟩

instance : OfDatum SqlType := ⟨fun d =>
  (d.pick? [.smallInt, .int, .float, .bool, .date, .dateTime, .text] SqlType.label).getD .bigInt⟩

instance : ToDatum TextSize := ⟨fun
  | .bounded length => length
  | .maxVarChar => "max"
  | .text => "text"
  | .mediumText => "medium"
  | .longText => "long"⟩

instance : OfDatum TextSize := ⟨fun
  | .number n => .bounded n.toNat
  | .text "text" => .text
  | .text "medium" => .mediumText
  | .text "long" => .longText
  | _ => .maxVarChar⟩

instance : OfDatum OnDelete := ⟨fun
  | .text "cascade" => .cascade
  | .text "set_null" => .setNull
  | .text "restrict" => .restrict
  | _ => .noAction⟩

instance : OfDatum ModelRef := ⟨fun d => ⟨ofDatum d⟩⟩

namespace Datum

/-- A column without its flags. -/
def plainColumn (d : Datum) : Column :=
  let name : String := d.get "name"
  match (d.get "kind" : String) with
  | "primary" => .generatedKey name
  | "inherited" => .inheritedKey name
  | "scalar" => .scalar name (d.get "type")
  | "text" => .text name (d.get "size")
  | "relation" => .relation name (d.get "field") (d.get "target") (d.get "on_delete")
  | _ => .many name (d.get "target") (d.get "table")

def retyped (kind : ColumnKind) (type? : Option SqlType) : ColumnKind :=
  match kind, type? with
  | .scalar _ size, some type => .scalar type size
  | kind, _ => kind

instance : OfDatum Column := ⟨fun d =>
  let plain := d.plainColumn
  { name := plain.name
    kind := retyped plain.kind (d.get "type")
    nullable := d.get "nullable"
    unique := d.get "unique"
    primary := d.getD "primary" plain.primary
    autoIncrement := d.getD "auto_increment" plain.autoIncrement
    indexed := d.get "indexed" }⟩

/-- Adds a model to the models read so far. -/
def addModel (c : Catalog) (d : Datum) : Catalog :=
  let name : String := d.get "name"
  let level : Level :=
    ⟨d.getD "path" name, d.get "table", d.getD "primary_key" "id", d.get "columns"⟩
  c.add name level (d.get "parent")

def catalog (models : List Datum) : Catalog :=
  models.foldl addModel []

def ofFlags (c : Column) : List Bool :=
  [c.nullable, c.unique, c.primary, c.autoIncrement, c.indexed]

def ofRelation : ColumnKind → List (String × Datum)
  | .scalar .. => []
  | .relation _ _ onDelete => [("on_delete", onDelete.sql)]
  | .many _ table => [("table", table)]

/-- A column, whose target goes by the path of its model. -/
def ofColumn (schema : Schema) (c : Column) : Datum :=
  let common : List (String × Datum) :=
    [("name", c.name), ("field_name", c.fieldName), ("physical", c.isPhysical),
      ("type", c.sqlType?), ("size", c.size), ("flags", ofFlags c),
      ("target", c.target?.map fun target => (schema.model target).path)]
  record (common ++ ofRelation c.kind)

end Datum

instance : ToDatum (EntityModel × Column) := ⟨fun (m, c) => [m.table, c.name]⟩

instance : ToDatum LinkTable := ⟨fun l =>
  .record [("table", l.table), ("field", l.field), ("owner", l.owner.path),
    ("owner_column", l.ownerColumn), ("target", l.target.path),
    ("target_column", l.targetColumn)]⟩

end EntityStore
