import EntityStore.Filter.Join
import EntityStore.Predicate.Basic

/-!
Filters after their paths have been resolved: trees of conditions on columns of aliased tables.
-/

namespace EntityStore

structure ColumnRef where
  tableAlias : TableAlias
  column : String
  deriving DecidableEq, Repr

/-- One comparison of a column with an operand. -/
structure WhereLeaf where
  column : ColumnRef
  op : CompareOp
  operand : Operand
  absent? : Option Value
  casefold : Bool

inductive WhereGroup
  | const (value : Bool)
  | all (parts : List WhereGroup)
  | any (parts : List WhereGroup)
  | not (part : WhereGroup)
  | leaf (leaf : WhereLeaf)
  | null (column : ColumnRef) (negated : Bool)

namespace WhereGroup

mutual

/-- The comparisons of a filter, in order. -/
def leaves : WhereGroup → List WhereLeaf
  | const _ | null .. => []
  | all parts | any parts => leavesEach parts
  | not part => leaves part
  | leaf l => [l]

def leavesEach : List WhereGroup → List WhereLeaf
  | [] => []
  | g :: gs => leaves g ++ leavesEach gs

end

end WhereGroup

end EntityStore
