import EntityStore.Outcome
import EntityStore.Text.Quoted

/-!
The error that callers outside of the engine see: what they can do about it, where it comes from and
a message. Of several errors the first is shown and the others are counted.
-/

namespace EntityStore

/-- Whether and how a caller can mend the failure. -/
inductive PublicErrorKind
  | conflict
  | corruption
  | notFound
  | unsupported
  | internal
  deriving DecidableEq, Repr

def PublicErrorKind.label : PublicErrorKind → String
  | .conflict => "Conflict"
  | .corruption => "Corruption"
  | .notFound => "NotFound"
  | .unsupported => "Unsupported"
  | .internal => "Internal"

/-- A broken rule of the engine is an internal failure to those outside. -/
def PublicErrorKind.ofClass : ErrorClass → PublicErrorKind
  | .conflict => .conflict
  | .corruption => .corruption
  | .notFound => .notFound
  | .unsupported => .unsupported
  | .internal | .invariantViolation => .internal

/-- The name of an origin as those outside see it. -/
def ErrorOrigin.publicLabel : ErrorOrigin → String
  | .config => "Config"
  | .dispatch => "Dispatch"
  | .hook => "Hook"
  | .migration => "Migration"
  | .query => "Query"
  | .registry => "Registry"
  | .storage => "Storage"
  | .transaction => "Transaction"
  | .translate => "Translate"

structure PublicError where
  kind : PublicErrorKind
  origin : ErrorOrigin
  message : String
  deriving DecidableEq, Repr

namespace PublicError

def ofError (e : EngineError) : PublicError :=
  ⟨.ofClass e.errorClass, e.origin, e.message⟩

def ofErrors : List EngineError → PublicError
  | [] => ⟨.internal, .query, "operation failed"⟩
  | [e] => ofError e
  | e :: rest => { ofError e with message := s!"{e.message} (+{rest.length} more)" }

def json (e : PublicError) : String :=
  "\x7b\"kind\":" ++ Text.jsonQuoted e.kind.label ++ ",\"origin\":"
    ++ Text.jsonQuoted e.origin.publicLabel ++ ",\"message\":" ++ Text.jsonQuoted e.message
    ++ "\x7d"

end PublicError

end EntityStore
