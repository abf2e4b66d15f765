import EntityStore.Model.Entity
import EntityStore.Value.Row

/-!
Entity types. The engine handles entities of many types in one carrier and knows a type by what it
can do with them: read and set the id, give the values to store, read a row and hold links.
-/

namespace EntityStore

structure TypeKey where
  number : Nat
  deriving DecidableEq, Repr

def TypeKey.label (_ : TypeKey) : String := "TypeId"

/-- What the engine asks of a type of entities. The id is zero until an entity is stored; the values are
those of the columns of all levels, the key included. -/
structure EntityType (ε : Type) where
  key : TypeKey
  model : EntityModel
  id : ε → Int64
  setId : ε → Int64 → ε
  values : ε → List (String × Value)
  ofRow : Row → Except EngineError ε
  links : ε → String → List Int64
  setLinks : ε → String → List Int64 → ε

structure BoxedEntity (ε : Type) where
  type : EntityType ε
  item : ε

end EntityStore
