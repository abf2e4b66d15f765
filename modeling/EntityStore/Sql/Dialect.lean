import EntityStore.Model.Column
import EntityStore.Sql.Fragment

/-!
Dialects: how each database spells quoted names, placeholders, types, paging and changes of a
schema. The shape of statements is the same for all of them and lies elsewhere.
-/

namespace EntityStore.Sql

inductive Dialect
  | generic
  | postgres
  | sqlite
  | mssql
  deriving DecidableEq, Repr

inductive Placeholders
  | named (sign : Char)
  | positional (sign : Char)
  deriving DecidableEq, Repr

def Placeholders.render (style : Placeholders) (name : String) (position : Nat) : String :=
  match style with
  | .named sign => sign.toString ++ name
  | .positional sign => sign.toString ++ decimal position

def doubled (quote : Char) : List Char → List Char
  | [] => []
  | c :: rest => if c = quote then c :: c :: doubled quote rest else c :: doubled quote rest

namespace Dialect

def name : Dialect → String
  | generic => "generic"
  | postgres => "postgres"
  | sqlite => "sqlite"
  | mssql => "mssql"

def backquote : Char := '\x60'

def quotes : Dialect → Char × Char
  | generic => (backquote, backquote)
  | mssql => ('[', ']')
  | _ => ('"', '"')

def quote (d : Dialect) (name : String) : String :=
  let (opening, closing) := d.quotes
  String.ofList (opening :: doubled closing name.toList ++ [closing])

def placeholders : Dialect → Placeholders
  | postgres => .positional '$'
  | _ => .named '@'

def placeholder (d : Dialect) (name : String) (position : Nat) : String :=
  d.placeholders.render name position

def boundedText (typeName : String) : TextSize → String
  | .bounded n => typeName ++ "(" ++ decimal n ++ ")"
  | _ => typeName ++ "(" ++ decimal TextSize.standardLength ++ ")"

def columnType (d : Dialect) (type : SqlType) (size : TextSize) : String :=
  match d with
  | generic =>
    match type with
    | .smallInt => "smallint"
    | .int => "int"
    | .bigInt => "bigint"
    | .float => "float"
    | .bool => "bit"
    | .date => "date"
    | .dateTime => "datetime"
    | .text =>
      match size with
      | .text => "TEXT"
      | .mediumText => "MEDIUMTEXT"
      | .longText => "LONGTEXT"
      | size => boundedText "varchar" size
  | postgres =>
    match type with
    | .smallInt => "smallint"
    | .int => "integer"
    | .bigInt => "bigint"
    | .float => "double precision"
    | .bool => "boolean"
    | .date => "date"
    | .dateTime => "timestamp"
    | .text =>
      match size with
      | .text | .mediumText | .longText => "text"
      | size => boundedText "varchar" size
  | sqlite =>
    match type with
    | .smallInt | .int | .bigInt | .bool => "INTEGER"
    | .float => "REAL"
    | .date | .dateTime | .text => "TEXT"
  | mssql =>
    match type with
    | .smallInt => "smallint"
    | .int => "int"
    | .bigInt => "bigint"
    | .float => "float"
    | .bool => "bit"
    | .date => "date"
    | .dateTime => "datetime2"
    | .text =>
      match size with
      | .text | .mediumText | .longText => "nvarchar(max)"
      | size => boundedText "nvarchar" size

/-- What follows the name of a key that the database generates. -/
def generatedKey (d : Dialect) (column : Column) : String :=
  let type := column.sqlType?.getD .bigInt
  match d with
  | generic => d.columnType type column.size ++ " NOT NULL AUTO_INCREMENT PRIMARY KEY"
  | postgres =>
    (match type with
      | .smallInt => "SMALLSERIAL"
      | .int => "SERIAL"
      | _ => "BIGSERIAL") ++ " PRIMARY KEY NOT NULL"
  | sqlite => "INTEGER PRIMARY KEY AUTOINCREMENT"
  | mssql => d.columnType type column.size ++ " IDENTITY(1,1) PRIMARY KEY NOT NULL"

/-- Names the backslash as the escape of `LIKE`. In the generic dialect a backslash in a literal has
to be escaped itself. -/
def likeEscape : Dialect → String
  | generic => " ESCAPE '\\\\'"
  | _ => " ESCAPE '\\'"

def boolLiteral (d : Dialect) (b : Bool) : String :=
  match d with
  | postgres => if b then "TRUE" else "FALSE"
  | _ => if b then "1" else "0"

/-- The tail of a select that takes a page of its rows. Paging by `OFFSET` and `FETCH` needs an
order, so one is made up where the statement has none. -/
def paging (d : Dialect) (limit offset : Option Fragment) (ordered : Bool) : Fragment :=
  match d with
  | mssql =>
    if limit.isNone && offset.isNone then []
    else
      (if ordered then [] else raw " ORDER BY (SELECT NULL)")
        ++ raw " OFFSET " ++ offset.getD (raw "0") ++ raw " ROWS"
        ++ (match limit with
          | some n => raw " FETCH NEXT " ++ n ++ raw " ROWS ONLY"
          | none => [])
  | _ =>
    match limit, offset with
    | some n, some k => raw " LIMIT " ++ n ++ raw " OFFSET " ++ k
    | some n, none => raw " LIMIT " ++ n
    | none, some k =>
      (match d with
        | generic => raw " LIMIT 18446744073709551615 OFFSET "
        | sqlite => raw " LIMIT -1 OFFSET "
        | _ => raw " OFFSET ") ++ k
    | none, none => []

/-- Counts the tables whose name the parameter holds. -/
def tableExists (d : Dialect) (parameter : Fragment) : Fragment :=
  raw (match d with
    | generic =>
      "SELECT COUNT(*) AS nb FROM information_schema.tables "
        ++ "WHERE table_schema = DATABASE() AND table_name = "
    | postgres =>
      "SELECT COUNT(*) AS nb FROM information_schema.tables "
        ++ "WHERE table_schema = current_schema() AND table_name = "
    | sqlite => "SELECT COUNT(*) AS nb FROM sqlite_master WHERE type = 'table' AND name = "
    | mssql => "SELECT COUNT(*) AS nb FROM INFORMATION_SCHEMA.TABLES WHERE TABLE_NAME = ")
    ++ parameter

def renameTable (d : Dialect) (table newName : String) : String :=
  match d with
  | generic => "RENAME TABLE " ++ d.quote table ++ " TO " ++ d.quote newName
  | mssql => "EXEC sp_rename '" ++ table ++ "', '" ++ newName ++ "'"
  | _ => "ALTER TABLE " ++ d.quote table ++ " RENAME TO " ++ d.quote newName

def dropTable (d : Dialect) (table : String) : String :=
  "DROP TABLE IF EXISTS " ++ d.quote table

def addColumn (d : Dialect) (table definition : String) : String :=
  match d with
  | mssql => "ALTER TABLE " ++ d.quote table ++ " ADD " ++ definition
  | _ => "ALTER TABLE " ++ d.quote table ++ " ADD COLUMN " ++ definition

def dropColumn (d : Dialect) (table column : String) : String :=
  "ALTER TABLE " ++ d.quote table ++ " DROP COLUMN " ++ d.quote column

def renameColumn (d : Dialect) (table column newName : String) : String :=
  match d with
  | mssql => "EXEC sp_rename '" ++ table ++ "." ++ column ++ "', '" ++ newName ++ "', 'COLUMN'"
  | _ =>
    "ALTER TABLE " ++ d.quote table ++ " RENAME COLUMN " ++ d.quote column ++ " TO "
      ++ d.quote newName

def indexName (table column : String) : String :=
  "IX_" ++ table ++ "_" ++ column

def createIndex (d : Dialect) (table column : String) (unique : Bool) : String :=
  "CREATE " ++ (if unique then "UNIQUE " else "") ++ "INDEX " ++ d.quote (indexName table column)
    ++ " ON " ++ d.quote table ++ " (" ++ d.quote column ++ ")"

end Dialect

end EntityStore.Sql
