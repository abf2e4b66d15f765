import EntityStore.Error.Basic

/-!
What an engine operation answers: a value as far as one was reached, and every error on the way.
A value may stand beside errors, and neither a value nor an error means that nothing matched.
-/

namespace EntityStore

structure Outcome (α : Type) where
  value? : Option α := none
  errors : List EngineError := []
  deriving Repr

namespace Outcome

variable {α β : Type}

def empty : Outcome α := {}

def ok (value : α) : Outcome α :=
  ⟨some value, []⟩

def ofError (error : EngineError) : Outcome α :=
  ⟨none, [error]⟩

def ofErrors (errors : List EngineError) : Outcome α :=
  ⟨none, errors⟩

def ofExcept : Except EngineError α → Outcome α
  | .ok value => ok value
  | .error error => ofError error

def isSuccess (o : Outcome α) : Bool :=
  o.errors.isEmpty

def setValue (o : Outcome α) (value : α) : Outcome α :=
  { o with value? := some value }

def pushError (o : Outcome α) (error : EngineError) : Outcome α :=
  { o with errors := o.errors ++ [error] }

def extendErrors (o : Outcome α) (errors : List EngineError) : Outcome α :=
  { o with errors := o.errors ++ errors }

def absorb (o : Outcome α) (other : Outcome β) : Outcome α × Option β :=
  (o.extendErrors other.errors, other.value?)

def absorbExcept (o : Outcome α) (result : Except EngineError β) : Outcome α × Option β :=
  o.absorb (ofExcept result)

def map (f : α → β) (o : Outcome α) : Outcome β :=
  ⟨o.value?.map f, o.errors⟩

def withValue (o : Outcome α) (value? : Option β) : Outcome β :=
  ⟨value?, o.errors⟩

def toExcept (o : Outcome α) : Except (List EngineError) (Option α) :=
  if o.errors.isEmpty then .ok o.value? else .error o.errors

def valueD (o : Outcome α) (fallback : α) : α :=
  o.value?.getD fallback

def flatten (o : Outcome (Option α)) : Outcome α :=
  ⟨o.value?.join, o.errors⟩

@[simp]
theorem isSuccess_iff (o : Outcome α) : o.isSuccess = true ↔ o.errors = [] := by
  simp [isSuccess]

@[simp]
theorem isSuccess_ok (value : α) : (ok value).isSuccess = true := rfl

@[simp]
theorem isSuccess_pushError (o : Outcome α) (e : EngineError) :
    (o.pushError e).isSuccess = false := by
  simp [isSuccess, pushError]

@[simp]
theorem errors_map (f : α → β) (o : Outcome α) : (o.map f).errors = o.errors := rfl

@[simp]
theorem errors_flatten (o : Outcome (Option α)) : o.flatten.errors = o.errors := rfl

end Outcome

end EntityStore
