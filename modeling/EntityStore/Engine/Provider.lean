import EntityStore.Error.Cause
import EntityStore.Sql.Template
import EntityStore.Value.Row

/-!
The boundary to a database. A provider is a name, a dialect and the answers to the seven calls that
the engine makes; each answer may change what lies outside of the engine.
-/

namespace EntityStore

abbrev Answer (σ α : Type) := σ → Except StorageError α × σ

/-- A database as the engine calls it. A statement answers with the number of rows that it touched, an
insert with the last key that was generated. -/
structure Provider (σ : Type) where
  name : String
  dialect : Sql.Dialect
  connect : Answer σ Unit
  execute : Sql.Statement → Answer σ Nat
  query : Sql.Statement → Answer σ (List Row)
  insert : Sql.Statement → Answer σ Int64
  begin : Answer σ Unit
  commit : Answer σ Unit
  rollback : Answer σ Unit

end EntityStore
