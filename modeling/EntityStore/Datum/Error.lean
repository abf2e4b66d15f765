import EntityStore.Database.PublicError
import EntityStore.Datum.Basic
import EntityStore.Outcome

/-!
Errors and outcomes as plain data. An error of one part of the engine goes by its name, which says
what went wrong, and its message; an error of the engine goes by its class and origin.
-/

namespace EntityStore

def TranslateError.name : TranslateError → String
  | unknownField .. => "UnknownField"
  | notARelation .. => "NotARelation"
  | collectionComparison .. => "CollectionComparison"
  | invalidOperand .. => "InvalidOperand"
  | noReverseRelation .. => "NoReverseRelation"
  | ambiguousReverseRelation .. => "AmbiguousReverseRelation"

def QueryError.name : QueryError → String
  | unboundVariable .. => "UnboundVariable"
  | variableType .. => "VariableType"
  | noFields => "NoFields"
  | primaryKeyField .. => "PrimaryKeyField"
  | missingValue .. => "MissingValue"
  | unsaved .. => "Unsaved"

def RegistryError.name : RegistryError → String
  | alreadyRegistered .. => "AlreadyRegistered"
  | parentNotRegistered .. => "ParentNotRegistered"
  | storageMismatch .. => "StorageMismatch"
  | notRegistered .. => "NotRegistered"
  | capacity .. => "Capacity"
  | alreadyInstalled => "AlreadyInstalled"
  | notInstalled => "NotInstalled"

def ConfigError.name : ConfigError → String
  | read .. => "Read"
  | parse .. => "Parse"
  | invalidTableName .. => "InvalidTableName"

namespace Datum

def ofNamedError (name message : String) : Datum :=
  record [("error", name), ("message", message)]

end Datum

instance : ToDatum TranslateError := ⟨fun e => .ofNamedError e.name e.message⟩
instance : ToDatum QueryError := ⟨fun e => .ofNamedError e.name e.message⟩
instance : ToDatum RegistryError := ⟨fun e => .ofNamedError e.name e.message⟩

instance : ToDatum EngineError := ⟨fun e =>
  .record [("class", e.errorClass.label), ("origin", e.origin.label), ("message", e.message),
    ("detail", e.cause.map (·.origin.label))]⟩

instance : ToDatum StorageError := ⟨fun e => datum (e : EngineError)⟩
instance : ToDatum TransactionError := ⟨fun e => datum (e : EngineError)⟩

instance : ToDatum PublicError := ⟨fun e =>
  .record [("error", e.kind.label), ("origin", e.origin.publicLabel), ("message", e.message)]⟩

instance : OfDatum ErrorClass := ⟨fun d =>
  (d.pick? [.conflict, .corruption, .invariantViolation, .notFound, .unsupported]
    ErrorClass.label).getD .internal⟩

instance : OfDatum ErrorOrigin := ⟨fun d =>
  (d.pick? [.config, .dispatch, .hook, .migration, .registry, .storage, .transaction, .translate]
    ErrorOrigin.label).getD .query⟩

instance : OfDatum EngineError := ⟨fun d => ⟨d.get "class", d.get "origin", d.get "message", none⟩⟩

/-- A failure as it is scripted for a database, named by what failed. -/
instance : OfDatum StorageError := ⟨fun d =>
  match (d.get "err" : String) with
  | "execution" => .execution (d.get "sql") (d.get "message")
  | "connect" => .connect (d.get "database") (d.get "message")
  | "unsupported" => .unsupportedValue (d.get "kind")
  | kind => .backend (d.get "message") (kind == "constraint")⟩

variable {α ε : Type}

instance [ToDatum ε] [ToDatum α] : ToDatum (Except ε α) := ⟨fun
  | .ok a => a
  | .error e => e⟩

def Datum.okOrError [ToDatum ε] [ToDatum α] (r : Except ε α) : Datum :=
  r.map fun a => record [("ok", a)]

instance [OfDatum α] : OfDatum (Except StorageError α) := ⟨fun d =>
  if (d.member? "err").isSome then .error (ofDatum d) else .ok (ofDatum d)⟩

namespace Outcome

def members [ToDatum α] (o : Outcome α) : List (String × Datum) :=
  ("errors", datum o.errors) :: (o.value?.map fun a => ("value", datum a)).toList

end Outcome

instance [ToDatum α] : ToDatum (Outcome α) := ⟨fun o => .record o.members⟩
instance [OfDatum α] : OfDatum (Outcome α) := ⟨fun d => ⟨d.get "value", d.get "errors"⟩⟩

end EntityStore
