import EntityStore.Sqlite.Cell
import EntityStore.Value.Row

/-!
A table of SQLite with two columns: an integer key that the database generates and never uses twice,
and a value.
-/

namespace EntityStore.Sqlite

structure KeyedTable where
  rows : List (Int64 × Cell) := []
  lastKey : Int64 := 0

namespace KeyedTable

def name : String := "kv"

def keyColumn : String := "k"

def valueColumn : String := "v"

def tables : List String := [name, "sqlite_sequence"]

/-- Adds a row at the place of its key, unless the key is there. -/
def addRow (key : Int64) (cell : Cell) : List (Int64 × Cell) → Option (List (Int64 × Cell))
  | [] => some [(key, cell)]
  | (k, c) :: rest =>
    if key < k then some ((key, cell) :: (k, c) :: rest)
    else if key = k then none
    else (addRow key cell rest).map ((k, c) :: ·)

def insertAt (t : KeyedTable) (key : Int64) (v : Value) : Except StorageError KeyedTable := do
  match addRow key (← Cell.ofValue v) t.rows with
  | some rows => return ⟨rows, max t.lastKey key⟩
  | none => throw (.backend s!"UNIQUE constraint failed: {name}.{keyColumn}" true)

def full : StorageError := .backend "database or disk is full" false

/-- Inserts a row with a new key, which is greater than all keys so far. -/
def insert (t : KeyedTable) (v : Value) : Except StorageError (Int64 × KeyedTable) := do
  let cell ← Cell.ofValue v
  if t.lastKey = Int64.maxValue then throw full
  let key := t.lastKey + 1
  return (key, ⟨t.rows ++ [(key, cell)], key⟩)

/-- Sets the values of rows; the number of rows. -/
def set (t : KeyedTable) (keys : List Int64) (v : Value) :
    Except StorageError (Nat × KeyedTable) := do
  let cell ← Cell.ofValue v
  let touched := t.rows.filter fun (k, _) => keys.contains k
  let rows := t.rows.map fun (k, c) => (k, if keys.contains k then cell else c)
  return (touched.length, { t with rows })

def delete (t : KeyedTable) (keys : List Int64) : Nat × KeyedTable :=
  let (gone, rows) := t.rows.partition fun (k, _) => keys.contains k
  (gone.length, { t with rows })

def select (t : KeyedTable) (keys : List Int64) : List Row :=
  (t.rows.filter fun (k, _) => keys.contains k).map fun (k, c) =>
    ⟨[(keyColumn, .int k), (valueColumn, c.value)]⟩

end KeyedTable

end EntityStore.Sqlite
