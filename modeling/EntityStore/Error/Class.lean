/-!
What kind of failure an error is and which part of the engine raised it.
-/

namespace EntityStore

/-- Whether and how a caller can mend the failure. -/
inductive ErrorClass
  | conflict
  | corruption
  | internal
  | invariantViolation
  | notFound
  | unsupported
  deriving DecidableEq, Repr

inductive ErrorOrigin
  | config
  | dispatch
  | hook
  | migration
  | query
  | registry
  | storage
  | transaction
  | translate
  deriving DecidableEq, Repr

def ErrorClass.label : ErrorClass → String
  | .conflict => "conflict"
  | .corruption => "corruption"
  | .internal => "internal"
  | .invariantViolation => "invariant_violation"
  | .notFound => "not_found"
  | .unsupported => "unsupported"

def ErrorOrigin.label : ErrorOrigin → String
  | .config => "config"
  | .dispatch => "dispatch"
  | .hook => "hook"
  | .migration => "migration"
  | .query => "query"
  | .registry => "registry"
  | .storage => "storage"
  | .transaction => "transaction"
  | .translate => "translate"

end EntityStore
