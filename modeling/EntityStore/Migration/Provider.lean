import EntityStore.Migration.Statements
import EntityStore.Storage.Schema
import EntityStore.Storage.Transaction

/-!
Providers of migrations. A provider carries out the changes of units on one storage and remembers
which units have run there; `beforeUp` and `afterUp` stand around the changes of one unit. The usual
provider keeps its records in a table of the storage itself and takes part in a transaction of the
storage while a unit is open.
-/

namespace EntityStore.Migration

variable {σ ε : Type}

/-- What remembers the units that have run, and applies their changes, which are kept only if the unit is
closed with success. -/
structure Provider (σ ε : Type) where
  name : String
  prepare : Attempt σ ε Unit
  can : String → Attempt σ ε Bool
  save : String → Attempt σ ε Unit
  beforeUp : Attempt σ ε Unit
  afterUp : Bool → Attempt σ ε Unit
  apply : ModelChange → Attempt σ ε Unit

namespace StorageProvider

variable (env : Setting σ) (i : StorageId)

def traceDebug (message : String) (fields : List (String × TraceField)) : Attempt σ ε Unit :=
  Attempt.trace .debug .migration message fields

/-- Makes the table of records unless it is there. -/
def prepare (table : String) : Attempt σ ε Unit := do
  if ← Storage.tableExists env i table then return
  Storage.executeAll env i [createTracking (Storage.dialect env i) table]
  traceDebug "tracking table created"
    [("storage", .text (Storage.name env i)), ("table", .text table)]

def can (table unitName : String) : Attempt σ ε Bool := do
  let s ← Storage.bound (countRecords (Storage.dialect env i) table unitName) []
  return (← Storage.count env i s) = 0

def save (table unitName : String) : Attempt σ ε Unit :=
  Storage.executeAll env i [insertRecord (Storage.dialect env i) table unitName env.now]

def createLinkTables (m : EntityModel) : Attempt σ ε Unit :=
  (Storage.linkTables env.schema m).forM fun link => do
    if !(← Storage.tableExists env i link.table) then
      Storage.executeAll env i [Sql.createLinkTable (Storage.dialect env i) link]

/-- Makes a model's table unless it is there: of the properties that were declared, or if none were,
as the model describes it. -/
def createTable (m : ModelChange) : Attempt σ ε Unit := do
  let d := Storage.dialect env i
  if ← Storage.tableExists env i m.table then
    traceDebug "table exists, create skipped" [("table", .text m.table)]
  else if (m.definitions d).isEmpty then
    Storage.executeAll env i (Sql.createTable env.schema d m.model :: Sql.createIndexes d m.model)
    createLinkTables env i m.model
  else Storage.executeAll env i (m.createDeclared d)

/-- Changes the properties of a table, then makes the indexes of the new ones. -/
def applyProperties (m : ModelChange) : Attempt σ ε Unit := do
  let d := Storage.dialect env i
  m.pendingProperties.forM fun p => do
    Storage.executeAll env i (← Attempt.ofExcept (p.alteration d m.table))
  Storage.executeAll env i (m.propertyIndexes d)

/-- The pending action of a model as it is reported. -/
def actionText : Option Action → String
  | none => "None"
  | some .create => "Some(Create)"
  | some .update => "Some(Update)"
  | some .delete => "Some(Delete)"

/-- Carries out what is to happen to a model. -/
def apply (m : ModelChange) : Attempt σ ε Unit := do
  let d := Storage.dialect env i
  traceDebug "applying model" [("path", .text m.path), ("action", .text (actionText m.action?))]
  match m.action? with
  | some .create => createTable env i m
  | some .delete => Storage.executeAll env i [Sql.plainTemplate d (d.dropTable m.table)]
  | some .update =>
    Storage.executeAll env i
      (m.renamedFrom?.toList.map fun old => Sql.plainTemplate d (d.renameTable old m.table))
    applyProperties env i m
  | none => applyProperties env i m

def setOpenUnit (number : Nat) (transaction? : Option Nat) : Engine σ ε Unit :=
  modify fun s => { s with openUnit := setAt s.openUnit number transaction? }

def beforeUp (number : Nat) : Attempt σ ε Unit := do
  let t ← Storage.begin env i
  Attempt.lift (setOpenUnit number (some t.id))

/-- Leaves the transaction of a unit; there is nothing to leave if none was opened. -/
def afterUp (number : Nat) (success : Bool) : Attempt σ ε Unit := do
  match (← Attempt.lift get).openUnit number with
  | none => return
  | some id =>
    Attempt.lift (setOpenUnit number none)
    let result ← Attempt.lift
      (if success then Storage.commitId env i id else Storage.rollbackId env i id)
    let _ ← Attempt.ofResult result

def freshNumber : Engine σ ε Nat :=
  modifyGet fun s => (s.providerCount, { s with providerCount := s.providerCount + 1 })

/-- The usual provider of a storage, with its records in the table of the given name. -/
def create (table : String) : Engine σ ε (Provider σ ε) := do
  let number ← freshNumber
  return {
    name := Storage.name env i
    prepare := prepare env i table
    can := can env i table
    save := save env i table
    beforeUp := beforeUp env i number
    afterUp := afterUp env i number
    apply := apply env i }

end StorageProvider

end EntityStore.Migration
