import EntityStore.Value.Basic

/-!
Predicates: what a caller asks of an entity. They speak of dotted paths and know nothing of tables,
so the same predicate may be put to any model that has the paths.
-/

namespace EntityStore

inductive CompareOp
  | eq
  | ne
  | lt
  | lte
  | gt
  | gte
  | isIn
  | notIn
  | contains
  | startsWith
  | endsWith
  deriving DecidableEq, Repr

namespace CompareOp

/-- The number under which an operator is stored. -/
def tag : CompareOp → Nat
  | eq => 1
  | ne => 2
  | lt => 3
  | lte => 4
  | gt => 5
  | gte => 6
  | isIn => 7
  | notIn => 8
  | contains => 9
  | startsWith => 10
  | endsWith => 11

def isMembership : CompareOp → Bool
  | isIn | notIn => true
  | _ => false

def isPattern : CompareOp → Bool
  | contains | startsWith | endsWith => true
  | _ => false

def isOrdering : CompareOp → Bool
  | lt | lte | gt | gte => true
  | _ => false

end CompareOp

/-- The right-hand side of a comparison. Literals and variables travel as parameters; only a raw
fragment stands in a statement as it is. -/
inductive Operand
  | literal (value : Value)
  | variable (name : String)
  | raw (sql : String)

structure Comparison where
  field : String
  op : CompareOp
  operand : Operand
  casefold : Bool := false

inductive Predicate
  | always
  | never
  | all (parts : List Predicate)
  | any (parts : List Predicate)
  | not (part : Predicate)
  | compare (comparison : Comparison)
  | isNull (field : String)
  | isNotNull (field : String)

namespace Predicate

instance : Inhabited Predicate := ⟨always⟩

def both (a b : Predicate) : Predicate := all [a, b]

def either (a b : Predicate) : Predicate := any [a, b]

def conjoin : Option Predicate → Predicate → Predicate
  | none, next => next
  | some (all parts), next => all (parts ++ [next])
  | some current, next => all [current, next]

mutual

/-- The paths that a predicate mentions, in order. -/
def fields : Predicate → List String
  | always | never => []
  | all parts | any parts => fieldsEach parts
  | not part => fields part
  | compare comparison => [comparison.field]
  | isNull field | isNotNull field => [field]

def fieldsEach : List Predicate → List String
  | [] => []
  | p :: ps => fields p ++ fieldsEach ps

end

end Predicate

end EntityStore
