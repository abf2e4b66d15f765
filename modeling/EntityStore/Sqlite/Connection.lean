import EntityStore.Engine.Provider
import EntityStore.Sqlite.KeyedTable

/-!
A connection to a table of keys and values. It holds the table as it is and, while a transaction is
open, as it was when the transaction began. A full table is a failure of the whole database: it ends
the open transaction, so that a later end of that transaction finds none.
-/

namespace EntityStore.Sqlite

structure Connection where
  table : KeyedTable := {}
  before? : Option KeyedTable := none

namespace Connection

def undone (c : Connection) : Connection :=
  { table := c.before?.getD c.table }

def refused (message : String) : StorageError := .backend message false

def begin : Answer Connection Unit := fun c =>
  match c.before? with
  | some _ => (.error (refused "cannot start a transaction within a transaction"), c)
  | none => (.ok (), { c with before? := some c.table })

def commit : Answer Connection Unit := fun c =>
  match c.before? with
  | some _ => (.ok (), { c with before? := none })
  | none => (.error (refused "cannot commit - no transaction is active"), c)

def rollback : Answer Connection Unit := fun c =>
  match c.before? with
  | some _ => (.ok (), c.undone)
  | none => (.error (refused "cannot rollback - no transaction is active"), c)

/-- Takes over what a change made of the table. -/
def change {α : Type} (run : KeyedTable → Except StorageError (α × KeyedTable)) :
    Answer Connection α := fun c =>
  match run c.table with
  | .ok (a, table) => (.ok a, { c with table })
  | .error e => (.error e, if e = KeyedTable.full then c.undone else c)

def insert (v : Value) : Answer Connection Int64 :=
  change (·.insert v)

def insertAt (key? : Option Int64) (v : Value) : Answer Connection Nat :=
  change fun t => match key? with
    | some key => (t.insertAt key v).map fun table => (1, table)
    | none => (t.insert v).map fun (_, table) => (1, table)

def set (keys : List Int64) (v : Value) : Answer Connection Nat :=
  change (·.set keys v)

def delete (keys : List Int64) : Answer Connection Nat :=
  change fun t => .ok (t.delete keys)

end Connection

end EntityStore.Sqlite
