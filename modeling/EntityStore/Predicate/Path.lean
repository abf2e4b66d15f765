import EntityStore.Predicate.Basic
import EntityStore.Value.Field

/-!
Paths as the beginning of a predicate: `FieldPath.eq`, `FieldPath.contains` and the rest say what is
asked of the member at the end of the path.
-/

namespace EntityStore

structure FieldPath where
  text : String
  deriving DecidableEq, Repr

namespace FieldPath

variable {α : Type} [FieldValue α]

def compareWith (path : FieldPath) (op : CompareOp) (value : Value) : Predicate :=
  .compare { field := path.text, op, operand := .literal value }

def eq (path : FieldPath) (value : α) : Predicate := path.compareWith .eq (toValue value)

def eqIgnoringCase (path : FieldPath) (value : α) : Predicate :=
  .compare { field := path.text, op := .eq, operand := .literal (toValue value), casefold := true }

def ne (path : FieldPath) (value : α) : Predicate := path.compareWith .ne (toValue value)

def lt (path : FieldPath) (value : α) : Predicate := path.compareWith .lt (toValue value)

def lte (path : FieldPath) (value : α) : Predicate := path.compareWith .lte (toValue value)

def gt (path : FieldPath) (value : α) : Predicate := path.compareWith .gt (toValue value)

def gte (path : FieldPath) (value : α) : Predicate := path.compareWith .gte (toValue value)

def isIn (path : FieldPath) (values : List α) : Predicate :=
  path.compareWith .isIn (toValue values)

def notIn (path : FieldPath) (values : List α) : Predicate :=
  path.compareWith .notIn (toValue values)

def contains (path : FieldPath) (value : α) : Predicate :=
  path.compareWith .contains (toValue value)

def startsWith (path : FieldPath) (value : α) : Predicate :=
  path.compareWith .startsWith (toValue value)

def endsWith (path : FieldPath) (value : α) : Predicate :=
  path.compareWith .endsWith (toValue value)

def isNull (path : FieldPath) : Predicate := .isNull path.text

def isNotNull (path : FieldPath) : Predicate := .isNotNull path.text

def compareVariable (path : FieldPath) (op : CompareOp) (name : String) : Predicate :=
  .compare { field := path.text, op, operand := .variable name }

def eqVariable (path : FieldPath) (name : String) : Predicate := path.compareVariable .eq name

def inVariable (path : FieldPath) (name : String) : Predicate := path.compareVariable .isIn name

def compareRaw (path : FieldPath) (op : CompareOp) (sql : String) : Predicate :=
  .compare { field := path.text, op, operand := .raw sql }

end FieldPath

end EntityStore
