import EntityStore.Database.Session
import EntityStore.Migration.Provider

/-!
Runs of migrations. Every storage of a database has one provider. A unit involves the providers of
the storages that hold the models it changes, or all of them if it changes none; it runs where every
one of them says that it has still to run, and is kept only if all of it succeeds.
-/

namespace EntityStore.Migration

variable {σ ε α : Type}

structure Slot (σ ε : Type) where
  storage : StorageId
  provider : Provider σ ε

namespace Slot

def call (s : Slot σ ε) (c : UnitCall) (a : Attempt σ ε α) : Attempt σ ε α := do
  let result ← Attempt.lift a.run
  Attempt.lift (Engine.record (.unitCall s.storage c result.isOk))
  Attempt.ofExcept result

def prepare (s : Slot σ ε) : Attempt σ ε Unit := s.call .prepare s.provider.prepare

def can (s : Slot σ ε) (unitName : String) : Attempt σ ε Bool :=
  s.call (.can unitName) (s.provider.can unitName)

def save (s : Slot σ ε) (unitName : String) : Attempt σ ε Unit :=
  s.call (.save unitName) (s.provider.save unitName)

def beforeUp (s : Slot σ ε) : Attempt σ ε Unit := s.call .beforeUp s.provider.beforeUp

def afterUp (s : Slot σ ε) (success : Bool) : Attempt σ ε Unit :=
  s.call (.afterUp success) (s.provider.afterUp success)

def apply (s : Slot σ ε) (m : ModelChange) : Attempt σ ε Unit :=
  s.call (.apply m.path) (s.provider.apply m)

end Slot

structure Migrator (σ ε : Type) where
  config : MigrationConfig
  slots : List (Slot σ ε)

namespace Migrator

/-- One usual provider for each storage in use. -/
def ofDatabase (env : Setting σ) (db : DatabaseId) : Engine σ ε (Migrator σ ε) := do
  let d ← Database.current db
  let config := d.config.migration
  let slots ← d.registry.storages.mapM fun storage =>
    return (⟨storage, ← StorageProvider.create env storage config.table⟩ : Slot σ ε)
  return { config, slots }

/-- The slots with another provider for a storage, which gets a slot if it has none. -/
def replaceSlot (storage : StorageId) (provider : Provider σ ε) : List (Slot σ ε) → List (Slot σ ε)
  | [] => [⟨storage, provider⟩]
  | s :: rest =>
    if s.storage = storage then ⟨storage, provider⟩ :: rest
    else s :: replaceSlot storage provider rest

def withProvider (m : Migrator σ ε) (storage : StorageId) (provider : Provider σ ε) :
    Migrator σ ε :=
  { m with slots := replaceSlot storage provider m.slots }

variable (env : Setting σ) (db : DatabaseId)

/-- Connects and prepares every slot. -/
def prepare (m : Migrator σ ε) : Attempt σ ε Unit := do
  let count := m.slots.length
  if 1 < count && !m.config.multipleProviders then
    Attempt.ofResult (.error (MigrationError.multipleProvidersNotEnabled count) : Except _ Unit)
  m.slots.forM fun s => do
    Storage.connect env s.storage
    s.prepare

/-- The storage of a model that a unit changes; a slot has to stand for it. -/
def storageFor (m : Migrator σ ε) (registry : Registry ε) (unitName : String) (c : ModelChange) :
    Except MigrationError StorageId :=
  match (registry.recordAt? c.path).map (·.storage) with
  | some storage =>
    if m.slots.any (·.storage = storage) then .ok storage
    else .error (.providerNotFound unitName c.path)
  | none => .error (.providerNotFound unitName c.path)

def participants (m : Migrator σ ε) (registry : Registry ε) (unitName : String) (p : Plan) :
    Except MigrationError (List (Slot σ ε)) := do
  let wanted ← p.pendingModels.mapM (m.storageFor registry unitName)
  return m.slots.filter fun s => wanted.isEmpty || wanted.contains s.storage

/-- The participant that changes a model: one that holds it, or else the first. -/
def slotFor (participants : List (Slot σ ε)) (c : ModelChange) :
    Engine σ ε (Option (Slot σ ε)) := do
  let s ← get
  let holds := fun (slot : Slot σ ε) => (s.models slot.storage).any (·.same c.model)
  return (participants.find? holds).or participants.head?

/-- Carries out the changes of one model. -/
def applyModel (participants : List (Slot σ ε)) (unitName : String) (c : ModelChange) :
    Attempt σ ε Unit := do
  match ← Attempt.lift (slotFor participants c) with
  | some slot => slot.apply c
  | none =>
    Attempt.ofResult (.error (MigrationError.providerNotFound unitName c.path) : Except _ Unit)

def applyPlan (participants : List (Slot σ ε)) (unitName : String) (p : Plan) :
    Attempt σ ε Unit := do
  p.pendingModels.forM (applyModel participants unitName)
  participants.forM (·.save unitName)

/-- Opens the unit on the participants one after the other, as far as that succeeds: those opened,
and the failure that ended it. -/
def openAll : List (Slot σ ε) → Engine σ ε (List (Slot σ ε) × Except EngineError Unit)
  | [] => return ([], .ok ())
  | slot :: rest => do
    match ← slot.beforeUp.run with
    | .error e => return ([], .error e)
    | .ok () =>
      let (opened, result) ← openAll rest
      return (slot :: opened, result)

/-- Closes the unit on every participant that was opened; the first failure counts. -/
def closeAll (success : Bool) : List (Slot σ ε) → Engine σ ε (Except EngineError Unit)
  | [] => return .ok ()
  | slot :: rest => do
    let first ← (slot.afterUp success).run
    let others ← closeAll success rest
    match first with
    | .error e => return .error e
    | .ok () => return others

/-- Runs the changes of a unit on the participants, between opening and closing it. -/
def runOn (participants : List (Slot σ ε)) (unitName : String) (p : Plan) :
    Attempt σ ε Unit := do
  let (opened, openResult) ← Attempt.lift (openAll participants)
  let result ← match openResult with
    | .ok () => Attempt.lift (applyPlan participants unitName p).run
    | .error e => pure (.error e)
  let closing ← Attempt.lift (closeAll result.isOk opened)
  Attempt.ofExcept result
  Attempt.ofExcept closing

def firstRefusal (participants : List (Slot σ ε)) (pending : List Bool) : Option (Slot σ ε) :=
  ((participants.zip pending).find? fun (_, can) => !can).map (·.1)

/-- Runs a unit; whether it had to run. -/
def runUnit (m : Migrator σ ε) (u : MigrationUnit) : Attempt σ ε Bool := do
  let registry := (← Attempt.lift (Database.current db)).registry
  let participants ← Attempt.ofResult (m.participants registry u.name u.plan)
  let pending ← participants.mapM (·.can u.name)
  if pending.all (!·) then
    Attempt.trace .info .migration "already applied, skipped" [("migration", .text u.name)]
    return false
  match firstRefusal participants pending with
  | some slot =>
    let refused := MigrationError.providerRefused u.name slot.provider.name
    Attempt.ofResult (.error refused : Except _ Bool)
  | none =>
    runOn participants u.name u.plan
    Attempt.trace .info .migration "applied"
      [("migration", .text u.name), ("providers", .number participants.length)]
    return true

/-- Runs units in order up to the first that fails: the names of those that ran, and the failure. -/
def runUnits (m : Migrator σ ε) :
    List MigrationUnit → Engine σ ε (List String × List EngineError)
  | [] => return ([], [])
  | u :: rest => do
    match ← (m.runUnit db u).run with
    | .error e =>
      Engine.trace .warn .migration "migration failed"
        [("migration", .text u.name), ("error", .text e.message)]
      return ([], [e])
    | .ok applied =>
      let (names, errors) ← m.runUnits rest
      return (if applied then u.name :: names else names, errors)

def inNameOrder (units : List MigrationUnit) : List MigrationUnit :=
  units.mergeSort fun a b => decide (a.name ≤ b.name)

def repeatedName? : List MigrationUnit → Option String
  | a :: b :: rest => if a.name = b.name then some a.name else repeatedName? (b :: rest)
  | _ => none

/-- Runs every unit that has still to run, in the order of their names. The names of those that ran
stand beside any error. -/
def run (m : Migrator σ ε) (units : List MigrationUnit) : Engine σ ε (Outcome (List String)) := do
  match ← (m.prepare env).run with
  | .error e => return ⟨some [], [e]⟩
  | .ok () =>
    let units := inNameOrder units
    match repeatedName? units with
    | some name => return ⟨some [], [MigrationError.duplicateName name]⟩
    | none =>
      let (names, errors) ← m.runUnits db units
      return ⟨some names, errors⟩

end Migrator

end EntityStore.Migration

namespace EntityStore.Session

def migrate {σ ε : Type} (env : Setting σ) (db : DatabaseId)
    (units : List Migration.MigrationUnit) : Engine σ ε (Reply (List String)) := do
  let m ← Migration.Migrator.ofDatabase env db
  return required (← m.run env db units)

end EntityStore.Session
