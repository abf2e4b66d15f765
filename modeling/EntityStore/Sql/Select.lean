import EntityStore.Sql.Condition

/-!
Statements that read entities: their columns, their ids, or how many there are. All three read the
same tables under the same condition. Where a relation to many rows is walked, a row of the root may
be met more than once, and the statement asks for distinct ones.
-/

namespace EntityStore.Sql

inductive Direction
  | ascending
  | descending
  deriving DecidableEq, Repr

def Direction.word : Direction → String
  | .ascending => "ASC"
  | .descending => "DESC"

structure OrderTerm where
  column : ColumnRef
  direction : Direction
  deriving DecidableEq, Repr

/-- What a select reads, and which part of it. -/
structure Selection where
  joins : JoinGraph
  filter? : Option WhereGroup := none
  order : List OrderTerm := []
  limit? : Option UInt64 := none
  offset? : Option UInt64 := none

def countColumn : String := "nb"

def levelAlias (g : JoinGraph) (level : EntityModel) : TableAlias :=
  let key := if level.isRoot then "" else JoinGraph.levelKey "" level
  (g.aliasOf? key).getD JoinGraph.rootAlias

def entityColumns (m : EntityModel) (g : JoinGraph) : List ColumnRef :=
  m.levels.flatMap fun level =>
    (level.ownColumns.filter fun c => !c.primary || level.isRoot).map fun c =>
      ⟨levelAlias g level, c.name⟩

def idColumn (m : EntityModel) : ColumnRef :=
  ⟨JoinGraph.rootAlias, m.root.primaryKey⟩

def selectItem (d : Dialect) (c : ColumnRef) : String :=
  columnText d c ++ " AS " ++ d.quote c.column

def rowCount (n : UInt64) : Value :=
  .int (Int64.ofNat (min n.toNat Int64.maxValue.toNatClampNeg))

def orderText (d : Dialect) (order : List OrderTerm) : String :=
  if order.isEmpty then ""
  else " ORDER BY "
    ++ ", ".intercalate (order.map fun t => columnText d t.column ++ " " ++ t.direction.word)

def rowCountSlot : Option UInt64 → Writer (Option Fragment)
  | none => return none
  | some n => return some (← Writer.literal (rowCount n))

/-- A select of the given columns. -/
def selectColumns (d : Dialect) (columns : List ColumnRef) (s : Selection) : Template :=
  Writer.finish d do
    let head := "SELECT " ++ (if s.joins.collection then "DISTINCT " else "")
      ++ ", ".intercalate (columns.map (selectItem d)) ++ fromText d s.joins
    let condition ← whereFragment d s.filter?
    let limit ← rowCountSlot s.limit?
    let offset ← rowCountSlot s.offset?
    return raw head ++ condition ++ raw (orderText d s.order)
      ++ d.paging limit offset (!s.order.isEmpty)

def select (d : Dialect) (m : EntityModel) (s : Selection) : Template :=
  selectColumns d (entityColumns m s.joins) s

def selectIds (d : Dialect) (m : EntityModel) (s : Selection) : Template :=
  selectColumns d [idColumn m] s

/-- Counts the entities. -/
def count (d : Dialect) (m : EntityModel) (joins : JoinGraph) (filter? : Option WhereGroup) :
    Template :=
  Writer.finish d do
    let counted := if joins.collection then "DISTINCT " ++ columnText d (idColumn m) else "*"
    let head := "SELECT COUNT(" ++ counted ++ ") AS " ++ countColumn ++ fromText d joins
    return raw head ++ (← whereFragment d filter?)

end EntityStore.Sql
