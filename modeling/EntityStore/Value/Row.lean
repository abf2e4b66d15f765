import EntityStore.Error.Basic
import EntityStore.Value.Field

/-!
Rows: columns in the order in which a database returns them. A name may stand more than once, and
then the first one counts.
-/

namespace EntityStore

structure Row where
  columns : List (String × Value) := []
  deriving Inhabited

namespace Row

def push (row : Row) (column : String) (value : Value) : Row :=
  ⟨row.columns ++ [(column, value)]⟩

def size (row : Row) : Nat :=
  row.columns.length

def value? (row : Row) (column : String) : Option Value :=
  row.columns.lookup column

/-- Reads one column as a field of the given type. -/
def get (α : Type) [FieldValue α] (row : Row) (column : String) : Except EngineError α :=
  match row.value? column with
  | none => .error (.undecodable column "column missing from row")
  | some value =>
    match FieldValue.ofValue? value with
    | some field => .ok field
    | none => .error (.undecodable column s!"unexpected {value.kindName} value {value.shown}")

def project (row : Row) (names : List String) : Row :=
  ⟨names.filterMap fun name => (row.value? name).map fun value => (name, value)⟩

end Row

end EntityStore
