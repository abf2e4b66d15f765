import EntityStore.Sql.Mutation
import EntityStore.Sql.Select

/-!
Statements with every value written in its place. This is how a statement reads to someone who
wants to know what it asks for: no slots, no parameters, no numbering. How a value is spelled is
left open, and variables are looked up where they stand.
-/

namespace EntityStore.Sql

/-- The statements that read and change rows, with all that they are made from. -/
inductive Emission
  | select (m : EntityModel) (s : Selection)
  | selectIds (m : EntityModel) (s : Selection)
  | count (m : EntityModel) (joins : JoinGraph) (filter? : Option WhereGroup)
  | insert (table : String) (columns : List String) (rows : List (List Value))
  | update (table : String) (set : List (String × Value)) (key : String) (ids : List Int64)
  | setNull (table column : String) (ids : List Int64)
  | delete (table column : String) (ids : List Int64)
  | selectWhereIn (table : String) (columns : List String) (column : String) (ids : List Int64)

namespace Emission

def template (d : Dialect) : Emission → Template
  | select m s => Sql.select d m s
  | selectIds m s => Sql.selectIds d m s
  | count m joins filter? => Sql.count d m joins filter?
  | insert table columns rows => Sql.insert d table columns rows
  | update table set key ids => Sql.update d table set key ids
  | setNull table column ids => Sql.setNull d table column ids
  | delete table column ids => Sql.delete d table column ids
  | selectWhereIn table columns column ids => Sql.selectWhereIn d table columns column ids

end Emission

namespace Inline

variable (spell : Value → String) (bindings : Bindings) (d : Dialect)

def values (items : List Value) : String :=
  ", ".intercalate (items.map spell)

def patterned : Option PatternKind → Value → Value
  | some .contains, .text text => .text ("%" ++ escapeLike text ++ "%")
  | some .startsWith, .text text => .text (escapeLike text ++ "%")
  | some .endsWith, .text text => .text ("%" ++ escapeLike text)
  | _, value => value

def scalarVariable (name : String) (pattern? : Option PatternKind) : String :=
  match bindings.lookup name with
  | some value => spell (patterned pattern? value)
  | none => ""

def membership (column : String) (negated : Bool) : List Value → String
  | [] => if negated then "1 = 1" else "1 = 0"
  | items => column ++ (if negated then " NOT IN (" else " IN (") ++ values spell items ++ ")"

def listVariable (column : String) (negated : Bool) (name : String) : String :=
  match bindings.lookup name with
  | some (.list items) => membership spell column negated items
  | _ => ""

def operand (pattern? : Option PatternKind) : Operand → String
  | .literal value => spell (patterned pattern? value)
  | .variable name => scalarVariable spell bindings name pattern?
  | .raw sql => sql

def lowered (casefold : Bool) (text : String) : String :=
  if casefold then "LOWER(" ++ text ++ ")" else text

def column (leaf : WhereLeaf) : String :=
  let plain := lowered leaf.casefold (columnText d leaf.column)
  match leaf.absent? with
  | some value => "COALESCE(" ++ plain ++ ", " ++ spell value ++ ")"
  | none => plain

def membershipLeaf (leaf : WhereLeaf) (negated : Bool) : String :=
  let left := column spell d leaf
  let word := if negated then " NOT IN (" else " IN ("
  match leaf.operand with
  | .literal (.list items) => left ++ word ++ values spell items ++ ")"
  | .variable name => listVariable spell bindings left negated name
  | other => left ++ word ++ operand spell bindings none other ++ ")"

def comparison (leaf : WhereLeaf) (sign : String) (pattern? : Option PatternKind) : String :=
  column spell d leaf ++ " " ++ sign ++ " "
    ++ lowered leaf.casefold (operand spell bindings pattern? leaf.operand)

def like (leaf : WhereLeaf) (kind : PatternKind) : String :=
  comparison spell bindings d leaf "LIKE" (some kind) ++ d.likeEscape

def leaf (l : WhereLeaf) : String :=
  match l.op with
  | .isIn => membershipLeaf spell bindings d l false
  | .notIn => membershipLeaf spell bindings d l true
  | .contains => like spell bindings d l .contains
  | .startsWith => like spell bindings d l .startsWith
  | .endsWith => like spell bindings d l .endsWith
  | .eq => comparison spell bindings d l "=" none
  | .ne => comparison spell bindings d l "<>" none
  | .lt => comparison spell bindings d l "<" none
  | .lte => comparison spell bindings d l "<=" none
  | .gt => comparison spell bindings d l ">" none
  | .gte => comparison spell bindings d l ">=" none

def bracketed (word : String) : List String → String
  | [single] => single
  | parts => "(" ++ word.intercalate parts ++ ")"

mutual

def group : WhereGroup → String
  | .const true => "1 = 1"
  | .const false => "1 = 0"
  | .all parts => bracketed " AND " (groups parts)
  | .any parts => bracketed " OR " (groups parts)
  | .not part => "NOT (" ++ group part ++ ")"
  | .null c true => columnText d c ++ " IS NOT NULL"
  | .null c false => columnText d c ++ " IS NULL"
  | .leaf l => leaf spell bindings d l

def groups : List WhereGroup → List String
  | [] => []
  | g :: gs => group g :: groups gs

end

def condition : Option WhereGroup → String
  | none | some (.const true) => ""
  | some g => " WHERE " ++ group spell bindings d g

def rowCount (n : UInt64) : String :=
  spell (.int (if n.toNat ≤ 9223372036854775807 then Int64.ofNat n.toNat else Int64.maxValue))

def paging (limit? offset? : Option UInt64) (ordered : Bool) : String :=
  match d, limit?.map (rowCount spell), offset?.map (rowCount spell) with
  | _, none, none => ""
  | .mssql, limit?, offset? =>
    (if ordered then "" else " ORDER BY (SELECT NULL)") ++ " OFFSET " ++ offset?.getD "0" ++ " ROWS"
      ++ (match limit? with
        | some limit => " FETCH NEXT " ++ limit ++ " ROWS ONLY"
        | none => "")
  | _, some limit, some offset => " LIMIT " ++ limit ++ " OFFSET " ++ offset
  | _, some limit, none => " LIMIT " ++ limit
  | .generic, none, some offset => " LIMIT 18446744073709551615 OFFSET " ++ offset
  | .sqlite, none, some offset => " LIMIT -1 OFFSET " ++ offset
  | .postgres, none, some offset => " OFFSET " ++ offset

def selection (columns : List ColumnRef) (s : Selection) : String :=
  "SELECT " ++ (if s.joins.collection then "DISTINCT " else "")
    ++ ", ".intercalate (columns.map (selectItem d)) ++ fromText d s.joins
    ++ condition spell bindings d s.filter? ++ orderText d s.order
    ++ paging spell d s.limit? s.offset? (!s.order.isEmpty)

def row (items : List Value) : String :=
  "(" ++ values spell items ++ ")"

def assignment (set : String × Value) : String :=
  d.quote set.1 ++ " = " ++ spell set.2

def ids (ids : List Int64) : String :=
  values spell (ids.map .int)

end Inline

/-- The statement with every value written in its place. -/
def Emission.inline (spell : Value → String) (bindings : Bindings) (d : Dialect) :
    Emission → String
  | select m s => Inline.selection spell bindings d (entityColumns m s.joins) s
  | selectIds m s => Inline.selection spell bindings d [idColumn m] s
  | count m joins filter? =>
    "SELECT COUNT(" ++ (if joins.collection then "DISTINCT " ++ columnText d (idColumn m) else "*")
      ++ ") AS " ++ countColumn ++ fromText d joins ++ Inline.condition spell bindings d filter?
  | insert table columns rows =>
    "INSERT INTO " ++ d.quote table ++ " (" ++ quotedList d columns ++ ") VALUES "
      ++ ", ".intercalate (rows.map (Inline.row spell))
  | update table set key ids =>
    "UPDATE " ++ d.quote table ++ " SET " ++ ", ".intercalate (set.map (Inline.assignment spell d))
      ++ " WHERE " ++ d.quote key ++ " IN (" ++ Inline.ids spell ids ++ ")"
  | setNull table column ids =>
    "UPDATE " ++ d.quote table ++ " SET " ++ d.quote column ++ " = NULL WHERE " ++ d.quote column
      ++ " IN (" ++ Inline.ids spell ids ++ ")"
  | delete table column ids =>
    "DELETE FROM " ++ d.quote table ++ " WHERE " ++ d.quote column
      ++ " IN (" ++ Inline.ids spell ids ++ ")"
  | selectWhereIn table columns column ids =>
    "SELECT " ++ quotedList d columns ++ " FROM " ++ d.quote table ++ " WHERE " ++ d.quote column
      ++ " IN (" ++ Inline.ids spell ids ++ ")"

end EntityStore.Sql
