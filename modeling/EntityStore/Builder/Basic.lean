import EntityStore.Entity.Basic
import EntityStore.Filter.Resolve
import EntityStore.Storage.Statement

/-!
What the requests of all kinds share: taking a column's value from an entity, selecting the ids of
the entities that a predicate holds for, and cutting lists into statements of bounded size.
-/

namespace EntityStore

def bulkParams : Nat := 999

/-- A list cut into parts of the given size; the last may be shorter. -/
def chunksOf {α : Type} (size : Nat) : List α → List (List α)
  | [] => []
  | a :: rest => (a :: rest.take (size - 1)) :: chunksOf size (rest.drop (size - 1))
termination_by items => items.length
decreasing_by simp only [List.length_cons, List.length_drop]; omega

namespace Builder

/-- The value that an entity gives for a column of a level. -/
def storedValue (level : EntityModel) (values : List (String × Value)) (column : String) :
    Except QueryError Value :=
  match values.lookup column with
  | some value => .ok value
  | none => .error (.missingValue level.path column)

/-- Resolves the filter of a request on the tables of a model. -/
def resolveFilter (schema : Schema) (model : EntityModel) (filter? : Option Predicate) :
    Resolve (Option WhereGroup) :=
  match filter? with
  | none => return none
  | some p => return some (← Resolve.filter schema model p)

variable {σ ε : Type} (env : Setting σ) (i : StorageId)

def idsTemplate (model : EntityModel) (p : Predicate) : Except TranslateError Sql.Template := do
  let t ← Translation.of env.schema model p
  return Sql.selectIds (Storage.dialect env i) model { joins := t.joins, filter? := some t.filter }

def readIds (key : String) (s : Sql.Statement) : Attempt σ ε (List Int64) := do
  let rows ← Storage.query env i s
  Attempt.ofExcept (rows.mapM fun row => row.get Int64 key)

end Builder

end EntityStore
