import EntityStore.Error.Class

/-!
The causes of failure, one type for each part of the engine, with their wording and their class.
-/

namespace EntityStore

/-- A predicate, path or ordering that does not fit the model it is resolved on. -/
inductive TranslateError
  | unknownField (model field : String)
  | notARelation (model field : String)
  | collectionComparison (field : String)
  | invalidOperand (field reason : String)
  | noReverseRelation (model target : String)
  | ambiguousReverseRelation (model target members : String)
  deriving DecidableEq, Repr

namespace TranslateError

def message : TranslateError → String
  | unknownField model field => s!"unknown field '{field}' on '{model}'"
  | notARelation model field => s!"field '{field}' on '{model}' is not a relation"
  | collectionComparison field =>
    s!"multi-valued relation '{field}' cannot be compared directly"
  | invalidOperand field reason => s!"invalid operand for '{field}': {reason}"
  | noReverseRelation model target => s!"'{model}' has no relation to '{target}'"
  | ambiguousReverseRelation model target members =>
    s!"'{model}' relates to '{target}' through several members ({members}); name one"

def errorClass : TranslateError → ErrorClass
  | unknownField .. | noReverseRelation .. => .notFound
  | _ => .unsupported

end TranslateError

/-- A request or an entity that no statement can be made from. -/
inductive QueryError
  | unboundVariable (name : String)
  | variableType (name found : String)
  | noFields
  | primaryKeyField (field : String)
  | missingValue (model column : String)
  | unsaved (model : String)
  deriving DecidableEq, Repr

namespace QueryError

def message : QueryError → String
  | unboundVariable name => s!"variable '{name}' is not bound"
  | variableType name found => s!"variable '{name}' cannot take a {found} value"
  | noFields => "update requires at least one field"
  | primaryKeyField field => s!"primary key '{field}' cannot be updated"
  | missingValue model column =>
    s!"entity '{model}' did not supply a value for column '{column}'"
  | unsaved model => s!"entity '{model}' has not been stored yet"

def errorClass : QueryError → ErrorClass
  | missingValue .. => .invariantViolation
  | _ => .unsupported

end QueryError

/-- The calls that the dynamic interface hands to the handlers of a type. -/
inductive Operation
  | getAll
  | getById
  | filter
  | exist
  | create
  | update
  | delete
  deriving DecidableEq, Repr

def Operation.label : Operation → String
  | .getAll => "get_all"
  | .getById => "get_by_id"
  | .filter => "filter"
  | .exist => "exist"
  | .create => "create"
  | .update => "update"
  | .delete => "delete"

inductive DispatchError
  | methodNotFound (operation : Operation) (typeName : String)
  | typeMismatch (operation : Operation) (expected found : String)
  deriving DecidableEq, Repr

namespace DispatchError

def message : DispatchError → String
  | methodNotFound operation typeName => s!"no {operation.label} handler for '{typeName}'"
  | typeMismatch operation expected found =>
    s!"{operation.label} expected '{expected}' but received '{found}'"

def errorClass : DispatchError → ErrorClass
  | methodNotFound .. => .notFound
  | typeMismatch .. => .unsupported

end DispatchError

/-- What a database answers instead of a result. -/
inductive StorageError
  | connect (database message : String)
  | backend (message : String) (constraint : Bool)
  | execution (sql message : String)
  | unsupportedValue (kind : String)
  deriving DecidableEq, Repr

namespace StorageError

def message : StorageError → String
  | connect database message => s!"cannot connect to '{database}': {message}"
  | backend message _ => s!"sqlite error: {message}"
  | execution sql message => s!"statement failed: {message}\n{sql}"
  | unsupportedValue kind => s!"value of kind '{kind}' cannot be bound as a parameter"

def errorClass : StorageError → ErrorClass
  | backend _ true => .conflict
  | unsupportedValue _ => .unsupported
  | _ => .internal

end StorageError

/-- A transaction that cannot take the next step. -/
inductive TransactionError
  | alreadyEnded
  | begin (reason : StorageError)
  | commit (reason : StorageError)
  | rollback (reason : StorageError)
  deriving DecidableEq, Repr

namespace TransactionError

def message : TransactionError → String
  | alreadyEnded => "transaction already ended"
  | begin reason => "cannot begin transaction: " ++ reason.message
  | commit reason => "commit failed: " ++ reason.message
  | rollback reason => "rollback failed: " ++ reason.message

def errorClass : TransactionError → ErrorClass
  | alreadyEnded => .conflict
  | _ => .internal

end TransactionError

/-- A unit of migration that cannot be carried out. -/
inductive MigrationError
  | multipleProvidersNotEnabled (count : Nat)
  | duplicateName (name : String)
  | providerNotFound (migration path : String)
  | providerRefused (migration provider : String)
  deriving DecidableEq, Repr

namespace MigrationError

def message : MigrationError → String
  | multipleProvidersNotEnabled count =>
    s!"{count} storages are registered; " ++
      "enable migration.multiple_providers to migrate them together"
  | duplicateName name => s!"migration '{name}' is declared twice"
  | providerNotFound migration path =>
    s!"migration '{migration}' touches '{path}', which no storage holds"
  | providerRefused migration provider =>
    s!"migration '{migration}' was already applied on '{provider}' but not on the others"

def errorClass : MigrationError → ErrorClass
  | multipleProvidersNotEnabled _ => .unsupported
  | duplicateName _ | providerRefused .. => .conflict
  | providerNotFound .. => .notFound

end MigrationError

/-- A type that the registry does not take or does not know. -/
inductive RegistryError
  | alreadyRegistered (path : String)
  | parentNotRegistered (path parent : String)
  | storageMismatch (path parent : String)
  | notRegistered (path : String)
  | capacity (len : Nat)
  | alreadyInstalled
  | notInstalled
  deriving DecidableEq, Repr

namespace RegistryError

def message : RegistryError → String
  | alreadyRegistered path => s!"type '{path}' is already registered"
  | parentNotRegistered path parent =>
    s!"type '{path}' extends '{parent}', which is not registered"
  | storageMismatch path parent =>
    s!"type '{path}' must share the storage of its parent '{parent}'"
  | notRegistered path => s!"type '{path}' is not registered"
  | capacity len => s!"registry is full ({len} types)"
  | alreadyInstalled => "a global database is already installed"
  | notInstalled => "no global database is installed"

def errorClass : RegistryError → ErrorClass
  | alreadyRegistered _ | alreadyInstalled => .conflict
  | parentNotRegistered .. | storageMismatch .. => .invariantViolation
  | notRegistered _ | notInstalled => .notFound
  | capacity _ => .internal

end RegistryError

/-- A configuration that cannot be used. -/
inductive ConfigError
  | read (path reason : String)
  | parse (reason : String)
  | invalidTableName (name : String)
  deriving DecidableEq, Repr

namespace ConfigError

def message : ConfigError → String
  | read path reason => s!"cannot read config file '{path}': {reason}"
  | parse reason => s!"invalid config: {reason}"
  | invalidTableName name => s!"invalid migration table name '{name}'"

def errorClass : ConfigError → ErrorClass
  | read .. => .notFound
  | _ => .unsupported

end ConfigError

end EntityStore
