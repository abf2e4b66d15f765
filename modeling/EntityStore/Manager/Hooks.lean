import EntityStore.Error.Basic

/-!
Hooks and observers: what callers attach to the creation, update and deletion of entities. A hook
may refuse an item, change it before it is written, or fail; an observer is told afterwards.
Failures are caught and become errors.
-/

namespace EntityStore

inductive Mutation
  | create
  | update
  | delete
  deriving DecidableEq, Repr

def Mutation.label : Mutation → String
  | .create => "create"
  | .update => "update"
  | .delete => "delete"

def Mutation.eventLabel : Mutation → String
  | .create => "on_created"
  | .update => "on_updated"
  | .delete => "on_deleted"

/-- When a hook is called. -/
inductive HookStage
  | can
  | before
  | after
  deriving DecidableEq, Repr

def HookStage.label : HookStage → String
  | .can => "can"
  | .before => "before"
  | .after => "after"

structure HookPoint where
  stage : HookStage
  mutation : Mutation
  deriving DecidableEq, Repr

def HookPoint.label (p : HookPoint) : String :=
  p.stage.label ++ "_" ++ p.mutation.label

inductive Panic
  | text (message : String)
  | other
  deriving DecidableEq, Repr

def Panic.message : Panic → String
  | .text message => message
  | .other => "unknown panic"

def Panic.error (label : String) (p : Panic) : EngineError :=
  .hook s!"{label} panicked: {p.message}"

def refusal (p : HookPoint) : EngineError :=
  .hook s!"{p.label} refused the item"

/-- Callbacks of one type. An item that `before` changes ahead of a deletion is deleted as it
was. -/
structure Hooks (ε : Type) where
  can : Mutation → ε → Except Panic Bool
  before : Mutation → ε → Except Panic ε
  after : Mutation → ε → Except Panic Unit

structure Observer (ε : Type) where
  tag : String
  notify : ε → Except Panic Unit

end EntityStore
