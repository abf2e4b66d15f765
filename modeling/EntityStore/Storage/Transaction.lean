import EntityStore.Engine.State

/-!
Transactions that nest. A storage has at most one physical transaction. Who begins while one is open
joins it; it is committed when the last participant has committed, and a rollback by any of them
ends it for all. A participant that finds its transaction ended changes nothing.
-/

namespace EntityStore

/-- How a participant has left its transaction. -/
inductive TransactionStatus
  | committed
  | pending (depth : Nat)
  | rolledBack
  | alreadyEnded
  deriving DecidableEq, Repr

/-- One participant of a transaction. -/
structure Transaction where
  storage : StorageId
  id : Nat
  depth : Nat
  deriving DecidableEq, Repr

namespace Coordinator

def holds (c : Coordinator) (id : Nat) : Bool :=
  match c.active? with
  | some active => active.id == id
  | none => false

def isActive (c : Coordinator) : Bool :=
  c.active?.isSome

def depth (c : Coordinator) : Nat :=
  match c.active? with
  | some active => active.depth
  | none => 0

end Coordinator

namespace Storage

variable {σ ε α : Type} (env : Setting σ) (i : StorageId)

def coordinator : Engine σ ε Coordinator := do
  return (← get).coordinator i

def setCoordinator (c : Coordinator) : Engine σ ε Unit :=
  modify fun s => { s with coordinator := setAt s.coordinator i c }

def traceTransaction (level : TraceLevel) (message : String)
    (fields : List (String × TraceField)) : Engine σ ε Unit :=
  Engine.trace level .transaction message fields

/-- Joins the open transaction, or opens one. -/
def join : Engine σ ε (Except TransactionError Transaction) := do
  let c ← coordinator i
  match c.active? with
  | some active =>
    let depth := active.depth + 1
    setCoordinator i { c with active? := some { active with depth } }
    traceTransaction .debug "join" [("id", .number active.id), ("depth", .number depth)]
    return .ok ⟨i, active.id, depth⟩
  | none =>
    match ← Engine.call (.begin i) (env.provider i).begin with
    | .error reason => return .error (.begin reason)
    | .ok () =>
      let id := c.lastId + 1
      setCoordinator i ⟨some ⟨id, 1⟩, id⟩
      traceTransaction .debug "begin" [("id", .number id)]
      return .ok ⟨i, id, 1⟩

/-- Reports how a physical transaction has ended, and hands on its status or its failure. -/
def ended (id : Nat) (word : String) (status : TransactionStatus)
    (failure : StorageError → TransactionError) (result : Except StorageError Unit) :
    Engine σ ε (Except TransactionError TransactionStatus) := do
  match result with
  | .ok () =>
    traceTransaction .debug word [("id", .number id)]
    return .ok status
  | .error reason =>
    traceTransaction .warn (word ++ " failed")
      [("id", .number id), ("error", .text reason.message)]
    return .error (failure reason)

/-- Leaves a transaction with success. The last participant commits it, and even a failed commit
ends it. -/
def commitId (id : Nat) : Engine σ ε (Except TransactionError TransactionStatus) := do
  let c ← coordinator i
  if !c.holds id then return .ok .alreadyEnded
  if 1 < c.depth then
    setCoordinator i { c with active? := some ⟨id, c.depth - 1⟩ }
    return .ok (.pending (c.depth - 1))
  setCoordinator i { c with active? := none }
  let result ← Engine.call (.commit i) (env.provider i).commit
  ended id "commit" .committed .commit result

/-- Ends a transaction for all its participants. -/
def rollbackId (id : Nat) : Engine σ ε (Except TransactionError TransactionStatus) := do
  let c ← coordinator i
  if !c.holds id then return .ok .alreadyEnded
  setCoordinator i { c with active? := none }
  let result ← Engine.call (.rollback i) (env.provider i).rollback
  ended id "rollback" .rolledBack .rollback result

def begin : Attempt σ ε Transaction := do
  Attempt.ofResult (← Attempt.lift (join env i))

end Storage

namespace Transaction

variable {σ ε : Type} (env : Setting σ)

def commit (t : Transaction) : Engine σ ε (Except TransactionError TransactionStatus) :=
  Storage.commitId env t.storage t.id

def rollback (t : Transaction) : Engine σ ε (Except TransactionError TransactionStatus) :=
  Storage.rollbackId env t.storage t.id

/-- Gives up a participant that has neither committed nor rolled back. -/
def drop (t : Transaction) : Engine σ ε Unit := do
  Storage.traceTransaction .debug "dropped without commit" [("id", .number t.id)]
  match ← t.rollback env with
  | .ok _ => return
  | .error e =>
    Storage.traceTransaction .warn "rollback on drop failed"
      [("id", .number t.id), ("error", .text e.message)]

/-- Ends the transaction around an action: with success if the action made no error. What goes wrong
in ending it is added to the action's own errors. -/
def close {α : Type} (t : Transaction) (o : Outcome α) : Engine σ ε (Outcome α) := do
  if o.isSuccess then
    match ← t.commit env with
    | .ok .alreadyEnded => return o.pushError (TransactionError.alreadyEnded : TransactionError)
    | .ok _ => return o
    | .error e => return o.pushError e
  else
    match ← t.rollback env with
    | .ok _ => return o
    | .error e => return o.pushError e

end Transaction

/-- Runs an action as one participant of a transaction. -/
def Storage.runInsideTransaction {σ ε α : Type} (env : Setting σ) (i : StorageId)
    (action : Engine σ ε (Outcome α)) : Engine σ ε (Outcome α) := do
  match ← (Storage.begin env i).run with
  | .error e => return .ofError e
  | .ok t => t.close env (← action)

end EntityStore
