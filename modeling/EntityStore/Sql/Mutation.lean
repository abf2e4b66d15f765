import EntityStore.Sql.Template

/-!
Statements that change rows of one table, and the look-up of rows by the values of a column. Every
value and id is a parameter.
-/

namespace EntityStore.Sql

def quotedList (d : Dialect) (columns : List String) : String :=
  ", ".intercalate (columns.map d.quote)

def rowFragment (values : List Value) : Writer Fragment :=
  return raw "(" ++ (← Writer.literals values) ++ raw ")"

/-- Inserts rows, each with a value for every column. -/
def insert (d : Dialect) (table : String) (columns : List String) (rows : List (List Value)) :
    Template :=
  Writer.finish d do
    let groups ← rows.mapM rowFragment
    return raw ("INSERT INTO " ++ d.quote table ++ " (" ++ quotedList d columns ++ ") VALUES ")
      ++ joined ", " groups

def assignment (d : Dialect) (set : String × Value) : Writer Fragment :=
  return raw (d.quote set.1 ++ " = ") ++ (← Writer.literal set.2)

/-- Sets columns of the rows whose key is one of the ids. -/
def update (d : Dialect) (table : String) (set : List (String × Value)) (key : String)
    (ids : List Int64) : Template :=
  Writer.finish d do
    let sets ← set.mapM (assignment d)
    let list ← Writer.ids ids
    return raw ("UPDATE " ++ d.quote table ++ " SET ") ++ joined ", " sets
      ++ raw (" WHERE " ++ d.quote key ++ " IN (") ++ list ++ raw ")"

/-- Empties a column in the rows where it holds one of the ids. -/
def setNull (d : Dialect) (table column : String) (ids : List Int64) : Template :=
  Writer.finish d do
    let list ← Writer.ids ids
    return raw ("UPDATE " ++ d.quote table ++ " SET " ++ d.quote column ++ " = NULL WHERE "
      ++ d.quote column ++ " IN (") ++ list ++ raw ")"

/-- Deletes the rows where a column holds one of the ids. -/
def delete (d : Dialect) (table column : String) (ids : List Int64) : Template :=
  Writer.finish d do
    let list ← Writer.ids ids
    return raw ("DELETE FROM " ++ d.quote table ++ " WHERE " ++ d.quote column ++ " IN (") ++ list
      ++ raw ")"

/-- Reads columns of the rows where a column holds one of the ids. -/
def selectWhereIn (d : Dialect) (table : String) (columns : List String) (column : String)
    (ids : List Int64) : Template :=
  Writer.finish d do
    let list ← Writer.ids ids
    return raw ("SELECT " ++ quotedList d columns ++ " FROM " ++ d.quote table ++ " WHERE "
      ++ d.quote column ++ " IN (") ++ list ++ raw ")"

end EntityStore.Sql
