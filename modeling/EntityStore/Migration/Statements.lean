import EntityStore.Error.Basic
import EntityStore.Migration.Plan
import EntityStore.Sql.Definition
import EntityStore.Sql.Mutation
import EntityStore.Sql.Select

/-!
The statements of migrations: those of the table that remembers which units have run, and those that
change tables as a plan asks for.
-/

namespace EntityStore.Migration

open Sql (Dialect Template plainTemplate)

def nameColumn : Column :=
  { Column.text "name" (.bounded 255) with unique := true }

def timeColumn : Column :=
  Column.scalar "applied_at" .dateTime

def createTracking (d : Dialect) (table : String) : Template :=
  plainTemplate d
    (Sql.tableText d table ([nameColumn, timeColumn].filterMap (Sql.columnDefinition? d)))

/-- Counts the records of a unit. -/
def countRecords (d : Dialect) (table unitName : String) : Template :=
  Sql.Writer.finish d do
    let name ← Sql.Writer.literal (.text unitName)
    return Sql.raw ("SELECT COUNT(*) AS " ++ d.quote Sql.countColumn ++ " FROM " ++ d.quote table
      ++ " WHERE " ++ d.quote nameColumn.name ++ " = ") ++ name

def insertRecord (d : Dialect) (table unitName : String) (time : DateTime) : Template :=
  Sql.insert d table [nameColumn.name, timeColumn.name] [[.text unitName, .dateTime time]]

/-- The default of a column. A text, a date and a time stand between apostrophes, and an apostrophe
in them is written twice. -/
def defaultLiteral (d : Dialect) (v : Value) : String :=
  match v with
  | .null | .list _ => "NULL"
  | .bool b => d.boolLiteral b
  | .int _ | .float _ => v.shown
  | .text _ | .date _ | .dateTime _ =>
    "'" ++ String.ofList (Sql.doubled '\'' v.shown.toList) ++ "'"

namespace PropertyChange

/-- The definition of the column of a property that was added, with its default. -/
def definition? (d : Dialect) (p : PropertyChange) : Option String := do
  let column ← p.column?
  let definition ← Sql.columnDefinition? d column
  match p.options.default? with
  | none => return definition
  | some default => return definition ++ " DEFAULT " ++ defaultLiteral d default

/-- Carries out what is to happen to a property of a table that is there. -/
def alteration (d : Dialect) (table : String) (p : PropertyChange) :
    Except EngineError (List Template) :=
  match p.action? with
  | some .create =>
    match p.definition? d with
    | some definition => .ok [plainTemplate d (d.addColumn table definition)]
    | none => .error (.invariant .migration s!"property '{p.name}' has no type")
  | some .update =>
    .ok (p.renamedFrom?.toList.map fun old => plainTemplate d (d.renameColumn table old p.name))
  | some .delete => .ok [plainTemplate d (d.dropColumn table p.name)]
  | none => .ok []

end PropertyChange

namespace ModelChange

def propertyIndexes (d : Dialect) (m : ModelChange) : List Template :=
  (m.pendingProperties.filter fun p => p.isNew && p.options.indexed && !p.options.primary).map
    fun p => plainTemplate d (d.createIndex m.table p.name p.options.unique)

def definitions (d : Dialect) (m : ModelChange) : List String :=
  (m.pendingProperties.filter PropertyChange.isNew).filterMap (PropertyChange.definition? d)

def createDeclared (d : Dialect) (m : ModelChange) : List Template :=
  plainTemplate d (Sql.tableText d m.table (m.definitions d)) :: m.propertyIndexes d

end ModelChange

end EntityStore.Migration
