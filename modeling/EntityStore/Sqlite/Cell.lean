import EntityStore.Error.Cause
import EntityStore.Value.Basic

/-!
What SQLite stores for values: it has numbers and texts, so truth values become integers, and dates
and times become texts. Reading gives back what is stored; the types of fields do the rest.
-/

namespace EntityStore.Sqlite

inductive Cell
  | null
  | integer (n : Int64)
  | real (x : Double)
  | text (s : String)

namespace Cell

def ofDouble (x : Double) : Cell :=
  if x.isNaN then null else real x

/-- What is stored for a value; a list cannot be stored. -/
def ofValue : Value → Except StorageError Cell
  | .null => .ok null
  | .bool b => .ok (integer (if b then 1 else 0))
  | .int n => .ok (integer n)
  | .float x => .ok (ofDouble x)
  | .text s => .ok (text s)
  | .date d => .ok (text d.text)
  | .dateTime t => .ok (text t.text)
  | .list items => .error (.unsupportedValue (Value.list items).kindName)

/-- The value that is read from a cell. -/
def value : Cell → Value
  | null => .null
  | integer n => .int n
  | real x => .float x
  | text s => .text s

end Cell

end EntityStore.Sqlite
