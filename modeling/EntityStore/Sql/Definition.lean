import EntityStore.Model.Entity
import EntityStore.Sql.Template

/-!
Statements that make tables: a table for each level of a model, with foreign keys for its relations
and for the key it shares with the level above, indexes, and the tables behind relations to many
rows.
-/

namespace EntityStore.Sql

def constraintLength : Nat := 63

def constraintName (name : String) : String :=
  String.ofList (name.toList.take constraintLength)

/-- A column with its type and its constraints, or nothing for a relation to many rows. -/
def columnDefinition? (d : Dialect) (c : Column) : Option String :=
  c.sqlType?.map fun type =>
    if c.primary && c.autoIncrement then d.quote c.name ++ " " ++ d.generatedKey c
    else
      d.quote c.name ++ " " ++ d.columnType type c.size
        ++ (if c.primary then " PRIMARY KEY" else "")
        ++ (if c.nullable then "" else " NOT NULL")
        ++ (if c.unique && !c.primary then " UNIQUE" else "")

def foreignKeyName (column table targetTable : String) : String :=
  constraintName ("FK_" ++ column ++ "_" ++ table ++ "_" ++ targetTable)

def foreignKey (d : Dialect) (table column targetTable targetColumn : String)
    (onDelete : OnDelete) : String :=
  "CONSTRAINT " ++ d.quote (foreignKeyName column table targetTable) ++ " FOREIGN KEY ("
    ++ d.quote column ++ ") REFERENCES " ++ d.quote targetTable
    ++ " (" ++ d.quote targetColumn ++ ")"
    ++ (if onDelete = .noAction then "" else " ON DELETE " ++ onDelete.sql)

/-- The foreign key of a relation. -/
def relationKey? (schema : Schema) (d : Dialect) (table : String) (c : Column) : Option String :=
  match c.kind with
  | .relation _ target onDelete =>
    let target := schema.model target
    some (foreignKey d table c.name target.table target.primaryKey onDelete)
  | _ => none

def parentKey? (d : Dialect) (level : EntityModel) : Option String :=
  level.parent?.map fun parent =>
    foreignKey d level.table level.primaryKey parent.table parent.primaryKey .cascade

def tableText (d : Dialect) (table : String) (parts : List String) : String :=
  "CREATE TABLE " ++ d.quote table ++ " (" ++ ", ".intercalate parts ++ ")"

def createTable (schema : Schema) (d : Dialect) (level : EntityModel) : Template :=
  plainTemplate d (tableText d level.table
    (level.ownColumns.filterMap (columnDefinition? d) ++ (parentKey? d level).toList
      ++ level.ownColumns.filterMap (relationKey? schema d level.table)))

def createIndexes (d : Dialect) (level : EntityModel) : List Template :=
  (level.ownColumns.filter fun c => c.indexed && !c.primary).map fun c =>
    plainTemplate d (d.createIndex level.table c.name c.unique)

/-- Makes a link table. Its rows go with the rows that they link. -/
def createLinkTable (d : Dialect) (link : LinkTable) : Template :=
  let keyType := d.columnType .bigInt .maxVarChar
  plainTemplate d (tableText d link.table
    [d.quote link.ownerColumn ++ " " ++ keyType ++ " NOT NULL",
      d.quote link.targetColumn ++ " " ++ keyType ++ " NOT NULL",
      "PRIMARY KEY (" ++ d.quote link.ownerColumn ++ ", " ++ d.quote link.targetColumn ++ ")",
      foreignKey d link.table link.ownerColumn link.owner.table link.owner.primaryKey .cascade,
      foreignKey d link.table link.targetColumn link.target.table link.target.primaryKey .cascade])

def tableProbe (d : Dialect) (table : String) : Template :=
  Writer.finish d do
    return d.tableExists (← Writer.literal (.text table))

end EntityStore.Sql
