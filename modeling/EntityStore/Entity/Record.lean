import EntityStore.Engine.Assoc
import EntityStore.Entity.Basic

/-!
Records: entities that hold their values by column. Any model has a type of records. A record stores
what it holds and nothing else, so a column that it does not hold is a missing value, and reads each
column of a row as the column's type.
-/

namespace EntityStore

structure Record where
  id : Int64 := 0
  values : List (String × Value) := []
  links : List (String × List Int64) := []

namespace Record

def readAs (α : Type) [FieldValue α] (row : Row) (column : String) : Except EngineError Value :=
  (row.get α column).map toValue

def readColumnAs (α : Type) [FieldValue α] (row : Row) (c : Column) : Except EngineError Value :=
  if c.nullable then readAs (Option α) row c.name else readAs α row c.name

def readColumn (row : Row) (c : Column) : Except EngineError Value :=
  match c.sqlType? with
  | some .smallInt => readColumnAs Int16 row c
  | some .int => readColumnAs Int32 row c
  | some .bigInt => readColumnAs Int64 row c
  | some .float => readColumnAs Double row c
  | some .bool => readColumnAs Bool row c
  | some .date => readColumnAs Date row c
  | some .dateTime => readColumnAs DateTime row c
  | some .text => readColumnAs String row c
  | none => .ok .null

def fieldColumns (m : EntityModel) : List Column :=
  m.levels.flatMap fun level => level.ownColumns.filter fun c => !c.primary

def addColumn (row : Row) (values : List (String × Value)) (c : Column) :
    Except EngineError (List (String × Value)) :=
  return Assoc.put c.name (← readColumn row c) values

def ofRow (m : EntityModel) (row : Row) : Except EngineError Record := do
  let id ← row.get Int64 m.root.primaryKey
  let values ← (fieldColumns m).foldlM (addColumn row) []
  return { id, values }

/-- The type of the records of a model. -/
def entityType (key : TypeKey) (m : EntityModel) : EntityType Record where
  key := key
  model := m
  id r := r.id
  setId r id := { r with id }
  values r := (m.root.primaryKey, .int r.id) :: r.values
  ofRow := ofRow m
  links r field := (r.links.lookup field).getD []
  setLinks r field ids := { r with links := Assoc.put field ids r.links }

end Record

end EntityStore
