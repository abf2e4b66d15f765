import EntityStore.Error.Cause

/-!
The engine's error: a class, an origin, a message and, where one part of the engine raised it, that
part's own cause, so that a caller can still match on it.
-/

namespace EntityStore

/-- The cause that one part of the engine gave. -/
inductive Cause
  | translate (error : TranslateError)
  | query (error : QueryError)
  | dispatch (error : DispatchError)
  | transaction (error : TransactionError)
  | migration (error : MigrationError)
  | storage (error : StorageError)
  | registry (error : RegistryError)
  | config (error : ConfigError)
  deriving DecidableEq, Repr

namespace Cause

def origin : Cause → ErrorOrigin
  | translate _ => .translate
  | query _ => .query
  | dispatch _ => .dispatch
  | transaction _ => .transaction
  | migration _ => .migration
  | storage _ => .storage
  | registry _ => .registry
  | config _ => .config

def message : Cause → String
  | translate e => e.message
  | query e => e.message
  | dispatch e => e.message
  | transaction e => e.message
  | migration e => e.message
  | storage e => e.message
  | registry e => e.message
  | config e => e.message

def errorClass : Cause → ErrorClass
  | translate e => e.errorClass
  | query e => e.errorClass
  | dispatch e => e.errorClass
  | transaction e => e.errorClass
  | migration e => e.errorClass
  | storage e => e.errorClass
  | registry e => e.errorClass
  | config e => e.errorClass

end Cause

structure EngineError where
  errorClass : ErrorClass
  origin : ErrorOrigin
  message : String
  cause : Option Cause := none
  deriving DecidableEq, Repr

namespace EngineError

def ofCause (cause : Cause) : EngineError :=
  ⟨cause.errorClass, cause.origin, cause.message, some cause⟩

def hook (message : String) : EngineError :=
  ⟨.internal, .hook, message, none⟩

def invariant (origin : ErrorOrigin) (message : String) : EngineError :=
  ⟨.invariantViolation, origin, message, none⟩

def undecodable (column message : String) : EngineError :=
  ⟨.corruption, .storage, s!"cannot decode column '{column}': {message}", none⟩

def isNotFound (e : EngineError) : Bool :=
  e.errorClass == .notFound

def classifiedMessage (e : EngineError) : String :=
  s!"{e.origin.label}:{e.errorClass.label}: {e.message}"

end EngineError

instance : Coe TranslateError EngineError := ⟨fun e => .ofCause (.translate e)⟩
instance : Coe QueryError EngineError := ⟨fun e => .ofCause (.query e)⟩
instance : Coe DispatchError EngineError := ⟨fun e => .ofCause (.dispatch e)⟩
instance : Coe TransactionError EngineError := ⟨fun e => .ofCause (.transaction e)⟩
instance : Coe MigrationError EngineError := ⟨fun e => .ofCause (.migration e)⟩
instance : Coe StorageError EngineError := ⟨fun e => .ofCause (.storage e)⟩
instance : Coe RegistryError EngineError := ⟨fun e => .ofCause (.registry e)⟩
instance : Coe ConfigError EngineError := ⟨fun e => .ofCause (.config e)⟩

end EntityStore
