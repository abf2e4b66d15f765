import EntityStore.Database.Basic
import EntityStore.Database.Dynamic
import EntityStore.Proofs.Engine.Requests
import EntityStore.Proofs.Registry.Naming
import EntityStore.Proofs.Transaction.Participants

/-!
Dynamic calls are typed calls. However a database has been used, a name of a registered type and a
boxed entity of it lead to the type's own handlers and manager, whichever types the dispatcher has
kept before, and the call does then what the typed call does. A name that no registered type has and
an entity of a type that is not registered lead nowhere.

Requests themselves know nothing of databases. A manager has its type and its storage, so what it
answers and what it does is the same whatever is registered anywhere, and registries and dispatchers
are afterwards as they were before.
-/

namespace EntityStore

variable {σ ε α β : Type}

def State.withDatabases (s : State σ ε) (d : DatabaseId → Database ε) : State σ ε :=
  { s with database := d }

def Unaware (c : Engine σ ε α) : Prop :=
  ∀ s d, c.run (s.withDatabases d) = ((c.run s).1, (c.run s).2.withDatabases d)

namespace Unaware

theorem keeps {c : Engine σ ε α} (unaware : Unaware c) (s : State σ ε) :
    (c.run s).2.database = s.database := by
  have same := unaware s s.database
  exact congrArg (fun r => r.2.database) same

theorem bind {c : Engine σ ε α} {next : α → Engine σ ε β} (first : Unaware c)
    (second : ∀ a, Unaware (next a)) : Unaware (c >>= next) := by
  intro s d
  rw [Engine.run_bind, first s d, second _ _ d]
  rfl

def manner (σ ε : Type) : Manner σ ε where
  Follows := Unaware
  closed := ⟨fun _ _ _ => rfl, bind⟩

private theorem coordinates (env : Setting σ) (j : StorageId) : (manner σ ε).Coordinates env j where
  coordinator _ _ := rfl
  setCoordinator _ _ _ := rfl
  trace _ _ _ _ _ := rfl
  begin _ _ := rfl
  commit _ _ := rfl
  rollback _ _ := rfl

def course (env : Setting σ) (ε : Type) : Course env ε where
  toManner := manner σ ε
  statements _ :=
    { record := fun _ _ _ _ => rfl, query := fun _ _ _ => rfl
      execute := fun _ _ _ => rfl, insert := fun _ _ _ => rfl }
  models _ _ _ := rfl
  hooks? _ _ _ := rfl
  observers _ _ _ _ := rfl
  unit i _ inside := Manner.Coordinates.follows_unit (coordinates env) i inside

end Unaware

/-- The requests that a manager carries out. -/
inductive Request.Standard : {α β : Type} → Request σ ε α β → Prop
  | getAll : Standard Request.getAll
  | getById (id : Int64) : Standard (Request.getById id)
  | getByIds (ids : List Int64) : Standard (Request.getByIds ids)
  | referencing (target : EntityModel) (ids : List Int64) :
      Standard (Request.referencing target ids)
  | filter (p : Predicate) : Standard (Request.filter p)
  | single (p : Predicate) : Standard (Request.single p)
  | exist (p : Predicate) : Standard (Request.exist p)
  | create (item : ε) : Standard (Request.create item)
  | createMany (items : List ε) : Standard (Request.createMany items)
  | bulkCreate (items : List ε) (withId : Bool) : Standard (Request.bulkCreate items withId)
  | update (item : ε) (fields : List String) : Standard (Request.update item fields)
  | updateMany (items : List ε) (fields : List String) :
      Standard (Request.updateMany items fields)
  | delete (item : ε) : Standard (Request.delete item)
  | deleteMany (items : List ε) : Standard (Request.deleteMany items)

namespace Request.Standard

open Manner

variable {env : Setting σ} (C : Course env ε) (m : Manager ε)

private theorem follows_referencing (target : EntityModel) (ids : List Int64) :
    C.Follows (m.referencing env target ids) := by
  unfold Manager.referencing
  split
  · exact C.follows_query _
  · exact C.follows_pure _

/-- Every request that a manager carries out follows every course. -/
theorem follows {r : Request σ ε α β} (standard : Standard r) : C.Follows (r.run env m) := by
  cases standard with
  | getAll => exact C.follows_query m.query
  | getById id => exact C.follows_single _
  | getByIds ids => exact C.follows_getByIds m ids
  | referencing target ids => exact follows_referencing C m target ids
  | filter p => exact C.follows_query _
  | single p => exact C.follows_single _
  | exist p => exact C.follows_exist _
  | create item =>
      exact Follows.bind (C.follows_createItems m [item] false false) fun _ => C.follows_pure _
  | createMany items => exact C.follows_createItems m items false false
  | bulkCreate items withId => exact C.follows_createItems m items withId true
  | update item fields =>
      exact Follows.bind (C.follows_updateMany m [item] fields) fun _ => C.follows_pure _
  | updateMany items fields => exact C.follows_updateMany m items fields
  | delete item => exact Follows.bind (C.follows_deleteMany m [item]) fun _ => C.follows_pure _
  | deleteMany items => exact C.follows_deleteMany m items

end Request.Standard

/-! ### Calls by name -/

def State.dispatching (s : State σ ε) (db : DatabaseId) (d : Dispatcher ε) : State σ ε :=
  s.withDatabases (setAt s.database db { s.database db with dispatcher := d })

private theorem State.database_dispatching (s : State σ ε) (db : DatabaseId) (d : Dispatcher ε) :
    (s.dispatching db d).database db = { s.database db with dispatcher := d } :=
  setAt_self s.database db _

private theorem Unaware.dispatching {c : Engine σ ε α} (unaware : Unaware c) (s : State σ ε)
    (db : DatabaseId) (d : Dispatcher ε) :
    c.run (s.dispatching db d) = ((c.run s).1, (c.run s).2.dispatching db d) := by
  rw [State.dispatching, unaware, State.dispatching, unaware.keeps]

/-! ### Handlers -/

namespace Resolved

variable {env : Setting σ} (r : Resolved ε) (operation : Operation)

theorem unaware_withManager {call : Manager ε → Engine σ ε (Outcome α)}
    (each : ∀ m, Unaware (call m)) : Unaware (r.withManager operation call) := by
  unfold withManager
  split
  · exact each _
  · exact (Unaware.manner σ ε).follows_pure _

private theorem unaware_withEntity (boxed : BoxedEntity ε)
    {call : Manager ε → ε → Engine σ ε (Outcome α)}
    (each : ∀ m item, Unaware (call m item)) : Unaware (r.withEntity operation boxed call) := by
  refine unaware_withManager r operation fun m => ?_
  split
  · exact each m _
  · exact (Unaware.manner σ ε).follows_pure _

variable {r} (own : r.manager.type = r.type)

include own

theorem managerFor_own : r.managerFor operation = .ok r.manager := by
  rw [managerFor, if_pos (by rw [own])]

omit own in
theorem entityFor_own (item : ε) : r.entityFor operation ⟨r.type, item⟩ = .ok item :=
  if_pos rfl

theorem withManager_own (call : Manager ε → Engine σ ε (Outcome α)) :
    r.withManager operation call = call r.manager := by
  rw [withManager, managerFor_own operation own]

private theorem withEntity_own (item : ε) (call : Manager ε → ε → Engine σ ε (Outcome α)) :
    r.withEntity operation ⟨r.type, item⟩ call = call r.manager item := by
  rw [withEntity, withManager_own operation own, entityFor_own]

end Resolved

theorem Request.Standard.unaware {env : Setting σ} {m : Manager ε} {r : Request σ ε α β}
    (standard : r.Standard) : Unaware (r.run env m) :=
  standard.follows (Unaware.course env ε) m

private theorem Request.Standard.unaware_map {env : Setting σ} {m : Manager ε} {r : Request σ ε α β}
    {γ : Type} (standard : r.Standard) (f : α → γ) :
    Unaware (do return (← r.run env m).map f : Engine σ ε (Outcome γ)) :=
  standard.unaware.bind fun _ => (Unaware.manner σ ε).follows_pure _

namespace Database

variable {F : TypeFamily ε} {env : Setting σ} {db : DatabaseId} {s : State σ ε}

/-! ### Resolving -/

/-- A database whose tables tell the same, and whose dispatcher keeps what they tell. -/
structure Known (F : TypeFamily ε) (d : Database ε) : Prop where
  coherent : d.registry.Coherent F
  current : d.dispatcher.Current d.registry

private theorem Known.dispatching (known : Known F (s.database db)) {d : Dispatcher ε}
    (current : d.Current (s.database db).registry) :
    Known F ((s.dispatching db d).database db) := by
  rw [State.database_dispatching]
  exact ⟨known.coherent, current⟩

theorem resolve_run (known : Known F (s.database db)) (operation : Operation) (key : TypeKey) :
    ∃ d, d.Current (s.database db).registry ∧
      (resolve db operation key : Attempt σ ε _).run.run s =
        match (s.database db).registry.record? key with
        | some record => (.ok ⟨record.type, record.manager⟩, s.dispatching db d)
        | none =>
          (.error (DispatchError.methodNotFound operation key.label), s.dispatching db d) := by
  obtain ⟨answer, current⟩ := known.current.resolve operation key
  refine ⟨_, current, ?_⟩
  have ran : (resolve db operation key : Attempt σ ε _).run.run s =
      (Attempt.ofResult ((s.database db).dispatcher.resolve (s.database db).registry operation
        key).1 : Attempt σ ε _).run.run (s.dispatching db ((s.database db).dispatcher.resolve
          (s.database db).registry operation key).2) := rfl
  rw [ran, answer]
  cases (s.database db).registry.record? key with
  | some record => rfl
  | none => rfl

theorem resolvePath_run {path : String} {key : TypeKey} (operation : Operation)
    (found : (s.database db).registry.typeOf path = .ok key) :
    (resolvePath db operation path : Attempt σ ε _).run.run s =
      (resolve db operation key : Attempt σ ε _).run.run s := by
  have lifted : (Attempt.lift (current db) : Attempt σ ε _).run.run s =
      (.ok (s.database db), s) := rfl
  rw [resolvePath, Attempt.run_bind_ok lifted, found]
  rfl

theorem resolvePath_fails {path : String} {e : RegistryError} (operation : Operation)
    (failed : (s.database db).registry.typeOf path = .error e) :
    (resolvePath db operation path : Attempt σ ε _).run.run s = (.error e, s) := by
  have lifted : (Attempt.lift (current db) : Attempt σ ε _).run.run s =
      (.ok (s.database db), s) := rfl
  rw [resolvePath, Attempt.run_bind_ok lifted, failed]
  rfl

theorem handOver_ok {resolved : Attempt σ ε (Resolved ε)} {r : Resolved ε} {after : State σ ε}
    (ran : resolved.run.run s = (.ok r, after)) (call : Resolved ε → Engine σ ε (Outcome α)) :
    (handOver resolved call).run s = (call r).run after := by
  rw [handOver, Engine.run_bind, ran]

theorem handOver_error {resolved : Attempt σ ε (Resolved ε)} {e : EngineError} {after : State σ ε}
    (ran : resolved.run.run s = (.error e, after)) (call : Resolved ε → Engine σ ε (Outcome α)) :
    (handOver resolved call).run s = (.ofError e, after) := by
  rw [handOver, Engine.run_bind, ran]
  rfl

private theorem handOver_path {path : String} {key : TypeKey} (operation : Operation)
    (found : (s.database db).registry.typeOf path = .ok key)
    (call : Resolved ε → Engine σ ε (Outcome α)) :
    (handOver (resolvePath db operation path) call).run s =
      (handOver (resolve db operation key) call).run s := by
  rw [handOver, handOver, Engine.run_bind, Engine.run_bind, resolvePath_run operation found]

theorem typed_run {type : EntityType ε} {m : Manager ε} (request : Request σ ε α β)
    (found : (s.database db).registry.manager type = .ok m) :
    ((typed type request).run env db).run s = (request.run env m).run s := by
  have looked : (manager db type : Attempt σ ε _).run.run s = (.ok m, s) := by
    show (Attempt.ofResult ((s.database db).registry.manager type) : Attempt σ ε _).run.run s = _
    rw [found]
    rfl
  show (withManager db type (request.run env)).run s = _
  rw [withManager, Engine.run_bind, looked]

/-! ### Histories -/

/-- Programs that use a database: they register types, tear the database down, and make typed and
dynamic calls, in any order, inside of units of work and outside, with anything in between that
leaves the database alone. -/
inductive Uses (F : TypeFamily ε) (env : Setting σ) (db : DatabaseId) :
    {α : Type} → Engine σ ε α → Prop
  | register (key : TypeKey) (storage : StorageId) (alias? : Option String) :
      Uses F env db (register db (F.type key) storage alias? : Attempt σ ε Unit).run
  | teardown : Uses F env db (teardown db)
  | typed {α β : Type} (key : TypeKey) {request : Request σ ε α β} (standard : request.Standard) :
      Uses F env db ((typed (F.type key) request).run env db)
  | getAll (path : String) : Uses F env db ((dynGetAll path).run env db)
  | getById (path : String) (id : Int64) : Uses F env db ((dynGetById path id).run env db)
  | filter (path : String) (p : Predicate) : Uses F env db ((dynFilter path p).run env db)
  | exist (path : String) (p : Predicate) : Uses F env db ((dynExist path p).run env db)
  | create (key : TypeKey) (item : ε) :
      Uses F env db ((dynCreate ⟨F.type key, item⟩).run env db)
  | update (key : TypeKey) (item : ε) (fields : List String) :
      Uses F env db ((dynUpdate ⟨F.type key, item⟩ fields).run env db)
  | delete (key : TypeKey) (item : ε) :
      Uses F env db ((dynDelete ⟨F.type key, item⟩).run env db)
  | elsewhere {α : Type} {c : Engine σ ε α}
      (apart : ∀ s, (c.run s).2.database db = s.database db) : Uses F env db c
  | unit {α : Type} (i : StorageId) {action : Engine σ ε (Outcome α)}
      (inside : Uses F env db action) : Uses F env db (Storage.runInsideTransaction env i action)
  | bind {α β : Type} {c : Engine σ ε α} {next : α → Engine σ ε β} (first : Uses F env db c)
      (second : ∀ a, Uses F env db (next a)) : Uses F env db (c >>= next)

namespace Known

variable (F db)

def route (σ : Type) : Route σ ε where
  leads s after := Known F (s.database db) → Known F (after.database db)
  refl _ := id
  trans first second := second ∘ first

variable {F db}

theorem follows_apart {c : Engine σ ε α} (apart : ∀ s, (c.run s).2.database db = s.database db) :
    (route F db σ).Follows c := by
  intro s known
  rwa [apart]

private theorem follows_register (key : TypeKey) (storage : StorageId) (alias? : Option String) :
    (route F db σ).Tries (Database.register db (F.type key) storage alias?) := by
  have node : (route F db σ).manner.Follows
      (Database.registerNode db (F.type key) storage alias? : Engine σ ε _) := by
    intro s known
    rw [Database.registerNode, Engine.run_bind, Engine.run_bind]
    dsimp only
    split
    · exact known
    · rename_i node registry inserted
      have after := setAt_self s.database db { s.database db with registry }
      show Known F (setAt s.database db { s.database db with registry } db)
      rw [after]
      refine ⟨known.coherent.insert rfl inserted, fun operation other resolved kept => ?_⟩
      obtain ⟨record, found, same⟩ := known.current operation other resolved kept
      exact ⟨record, known.coherent.kept rfl inserted found, same⟩
  exact Manner.Tries.bind node.lift fun result =>
    Manner.Tries.bind (Manner.tries_ofResult _ result) fun _ => Manner.tries_pure _ _

private theorem follows_teardown :
    (route F db σ).Follows (Database.teardown db : Engine σ ε Unit) := by
  intro s known
  have after : ((Database.teardown db : Engine σ ε Unit).run s).2.database db =
      { s.database db with registry := {}, dispatcher := (s.database db).dispatcher.clear } := by
    show setAt (setAt s.database db _) db
      { (setAt s.database db _) db with registry := {} } db = _
    rw [setAt_self, setAt_self]
  rw [after]
  exact ⟨Registry.Coherent.empty F, Dispatcher.Current.clear _⟩

private theorem follows_typed (type : EntityType ε) {request : Request σ ε α β}
    (standard : request.Standard) :
    (route F db σ).Follows ((Database.typed type request).run env db) := by
  refine follows_apart fun s => ?_
  show ((withManager db type (request.run env)).run s).2.database db = _
  cases found : (s.database db).registry.manager type with
  | ok m => exact congrFun ((typed_run request found).symm ▸ standard.unaware.keeps s) db
  | error e =>
      have looked : (Database.manager db type : Attempt σ ε _).run.run s = (.error e, s) := by
        show (Attempt.ofResult ((s.database db).registry.manager type) :
          Attempt σ ε _).run.run s = _
        rw [found]
        rfl
      rw [withManager, Engine.run_bind, looked]
      rfl

theorem follows_byEntity (operation : Operation) (key : TypeKey)
    {call : Resolved ε → Engine σ ε (Outcome α)} (each : ∀ r, Unaware (call r)) :
    (route F db σ).Follows (handOver (resolve db operation key) call) := by
  intro s known
  obtain ⟨d, current, ran⟩ := resolve_run known operation key
  cases found : (s.database db).registry.record? key with
  | some record =>
      rw [found] at ran
      rw [handOver_ok ran, (each _).keeps]
      exact known.dispatching current
  | none =>
      rw [found] at ran
      rw [handOver_error ran]
      exact known.dispatching current

private theorem follows_byPath (operation : Operation) (path : String)
    {call : Resolved ε → Engine σ ε (Outcome α)} (each : ∀ r, Unaware (call r)) :
    (route F db σ).Follows (handOver (resolvePath db operation path) call) := by
  intro s known
  cases found : (s.database db).registry.typeOf path with
  | ok key =>
      rw [handOver_path operation found]
      exact follows_byEntity operation key each s known
  | error e =>
      rw [handOver_error (resolvePath_fails operation found)]
      exact known

end Known

/-- Whatever a program does with a database, the tables of the database tell the same. -/
theorem Uses.follows {c : Engine σ ε α} (uses : Uses F env db c) :
    (Known.route F db σ).Follows c := by
  have coordinates (j : StorageId) : (Known.route F db σ).manner.Coordinates env j :=
    { coordinator := fun _ => id
      setCoordinator := fun _ _ => id
      trace := fun _ _ _ _ => id
      begin := fun _ => id
      commit := fun _ => id
      rollback := fun _ => id }
  induction uses with
  | register key storage alias? => exact Known.follows_register key storage alias?
  | teardown => exact Known.follows_teardown
  | typed key standard => exact Known.follows_typed _ standard
  | getAll path =>
      exact Known.follows_byPath .getAll path fun r =>
        r.unaware_withManager _ fun m => Request.Standard.getAll.unaware_map _
  | getById path id =>
      exact Known.follows_byPath .getById path fun r =>
        r.unaware_withManager _ fun m => (Request.Standard.getById id).unaware_map _
  | filter path p =>
      exact Known.follows_byPath .filter path fun r =>
        r.unaware_withManager _ fun m => (Request.Standard.filter p).unaware_map _
  | exist path p =>
      exact Known.follows_byPath .exist path fun r =>
        r.unaware_withManager _ fun m => (Request.Standard.exist p).unaware
  | create key item =>
      exact Known.follows_byEntity .create _ fun r =>
        r.unaware_withEntity _ _ fun m item => (Request.Standard.create item).unaware_map _
  | update key item fields =>
      exact Known.follows_byEntity .update _ fun r =>
        r.unaware_withEntity _ _ fun m item => (Request.Standard.update item fields).unaware_map _
  | delete key item =>
      exact Known.follows_byEntity .delete _ fun r =>
        r.unaware_withEntity _ _ fun m item => (Request.Standard.delete item).unaware_map _
  | elsewhere apart => exact Known.follows_apart apart
  | unit i inside ih => exact Manner.Coordinates.follows_unit coordinates i ih
  | bind first second first_ih second_ih => exact Route.Follows.bind first_ih second_ih

/-! ### Dynamic calls -/

/-- A dynamic call does what a typed call does: it gives the same answer up to the form that `f`
puts it into, makes the same calls, and leaves the same state but for what the dispatcher keeps. -/
structure Mirrors (db : DatabaseId) (s : State σ ε) (dynamic : Engine σ ε (Outcome β))
    (typed : Engine σ ε (Outcome α)) (f : α → β) : Prop where
  answer : (dynamic.run s).1 = (typed.run s).1.map f
  calls : (dynamic.run s).2.calls = (typed.run s).2.calls
  state : ∃ d, (dynamic.run s).2 = (typed.run s).2.dispatching db d

/-- A dynamic call that finds no type: it makes no call, and nothing changes but the dispatcher. -/
structure Refused (db : DatabaseId) (s : State σ ε) (dynamic : Engine σ ε (Outcome β)) :
    Prop where
  answer : ∃ e, (dynamic.run s).1 = .ofError e ∧ e.errorClass = .notFound
  calls : (dynamic.run s).2.calls = s.calls
  state : ∃ d, (dynamic.run s).2 = s.dispatching db d

/-- A type and the manager that typed calls on it go to are found, and neither the check of the
manager nor that of an entity of the type fails. -/
def Resolves (db : DatabaseId) (s : State σ ε) (type : EntityType ε) (operation : Operation)
    (resolved : Attempt σ ε (Resolved ε)) : Prop :=
  ∃ m d, (s.database db).registry.manager type = .ok m ∧ m.type = type ∧
    resolved.run.run s = (.ok ⟨type, m⟩, s.dispatching db d) ∧
    (⟨type, m⟩ : Resolved ε).managerFor operation = .ok m ∧
    ∀ item, (⟨type, m⟩ : Resolved ε).entityFor operation ⟨type, item⟩ = .ok item

/-- Dynamic calls by a name are the typed calls on a type. -/
structure NamedCalls (env : Setting σ) (db : DatabaseId) (s : State σ ε) (type : EntityType ε)
    (name : String) : Prop where
  resolves (operation : Operation) : Resolves db s type operation (resolvePath db operation name)
  getAll : Mirrors db s ((dynGetAll name).run env db) ((typed type Request.getAll).run env db)
    (List.map (BoxedEntity.mk type))
  getById (id : Int64) : Mirrors db s ((dynGetById name id).run env db)
    ((typed type (Request.getById id)).run env db) (Option.map (BoxedEntity.mk type))
  filter (p : Predicate) : Mirrors db s ((dynFilter name p).run env db)
    ((typed type (Request.filter p)).run env db) (List.map (BoxedEntity.mk type))
  exist (p : Predicate) : Mirrors db s ((dynExist name p).run env db)
    ((typed type (Request.exist p)).run env db) id

/-- Dynamic calls with boxed entities of a type are the typed calls on it. -/
structure EntityCalls (env : Setting σ) (db : DatabaseId) (s : State σ ε) (type : EntityType ε) :
    Prop where
  resolves (operation : Operation) : Resolves db s type operation (resolve db operation type.key)
  create (item : ε) : Mirrors db s ((dynCreate ⟨type, item⟩).run env db)
    ((typed type (Request.create item)).run env db) (BoxedEntity.mk type)
  update (item : ε) (fields : List String) :
    Mirrors db s ((dynUpdate ⟨type, item⟩ fields).run env db)
      ((typed type (Request.update item fields)).run env db) (BoxedEntity.mk type)
  delete (item : ε) : Mirrors db s ((dynDelete ⟨type, item⟩).run env db)
    ((typed type (Request.delete item)).run env db) (BoxedEntity.mk type)

/-- Dynamic calls by a name lead nowhere. -/
structure NamelessCalls (env : Setting σ) (db : DatabaseId) (s : State σ ε) (name : String) :
    Prop where
  getAll : Refused db s ((dynGetAll name).run env db)
  getById (id : Int64) : Refused db s ((dynGetById name id).run env db)
  filter (p : Predicate) : Refused db s ((dynFilter name p).run env db)
  exist (p : Predicate) : Refused db s ((dynExist name p).run env db)

/-- Dynamic calls with boxed entities of a type lead nowhere. -/
structure TypelessCalls (env : Setting σ) (db : DatabaseId) (s : State σ ε) (type : EntityType ε) :
    Prop where
  create (item : ε) : Refused db s ((dynCreate ⟨type, item⟩).run env db)
  update (item : ε) (fields : List String) :
    Refused db s ((dynUpdate ⟨type, item⟩ fields).run env db)
  delete (item : ε) : Refused db s ((dynDelete ⟨type, item⟩).run env db)

theorem Refused.of_run {dynamic : Engine σ ε (Outcome β)} {e : EngineError} {d : Dispatcher ε}
    (ran : dynamic.run s = (.ofError e, s.dispatching db d)) (missing : e.errorClass = .notFound) :
    Refused db s dynamic where
  answer := ⟨e, by rw [ran], missing⟩
  calls := by rw [ran]; rfl
  state := ⟨d, by rw [ran]⟩

theorem Mirrors.handOver {resolved : Attempt σ ε (Resolved ε)}
    {call : Resolved ε → Engine σ ε (Outcome β)} {type : EntityType ε} {m : Manager ε}
    {d : Dispatcher ε} {γ : Type} {request : Request σ ε α γ} {f : α → β}
    (ran : resolved.run.run s = (.ok ⟨type, m⟩, s.dispatching db d))
    (found : (s.database db).registry.manager type = .ok m) (standard : request.Standard)
    (does : call ⟨type, m⟩ = do return (← request.run env m).map f) :
    Mirrors db s (Database.handOver resolved call) ((typed type request).run env db) f := by
  have same : (Database.handOver resolved call).run s =
      ((((typed type request).run env db).run s).1.map f,
        (((typed type request).run env db).run s).2.dispatching db d) := by
    rw [handOver_ok ran, does, typed_run request found, Engine.run_bind,
      standard.unaware.dispatching]
    rfl
  exact ⟨by rw [same], by rw [same]; rfl, d, by rw [same]⟩

section

variable {key : TypeKey} {record : TypeRecord ε}

theorem Known.resolved (known : Known F (s.database db))
    (found : (s.database db).registry.record? key = some record) (operation : Operation) :
    ∃ d, (resolve db operation key : Attempt σ ε _).run.run s =
      (.ok ⟨F.type key, record.manager⟩, s.dispatching db d) := by
  obtain ⟨d, -, ran⟩ := resolve_run known operation key
  rw [found] at ran
  exact ⟨d, known.coherent.type found ▸ ran⟩

theorem Known.resolves (known : Known F (s.database db))
    (found : (s.database db).registry.record? key = some record) (operation : Operation) :
    Resolves db s (F.type key) operation (resolve db operation key) := by
  have own := known.coherent.type found
  obtain ⟨d, ran⟩ := known.resolved found operation
  exact ⟨record.manager, d, Registry.manager_found F found, own, ran,
    Resolved.managerFor_own operation own, fun item => Resolved.entityFor_own operation item⟩

private theorem Known.entityCalls (known : Known F (s.database db))
    (found : (s.database db).registry.record? key = some record) :
    EntityCalls env db s (F.type key) := by
  have own := known.coherent.type found
  have manager := Registry.manager_found F found
  have resolved (operation : Operation) : ∃ d,
      (resolve db operation (F.type key).key : Attempt σ ε _).run.run s =
        (.ok ⟨F.type key, record.manager⟩, s.dispatching db d) := by
    rw [F.keyed]
    exact known.resolved found operation
  constructor
  · intro operation
    rw [F.keyed]
    exact known.resolves found operation
  · intro item
    obtain ⟨d, ran⟩ := resolved .create
    exact .handOver ran manager (.create item) (Resolved.withEntity_own .create own item _)
  · intro item fields
    obtain ⟨d, ran⟩ := resolved .update
    exact .handOver ran manager (.update item fields) (Resolved.withEntity_own .update own item _)
  · intro item
    obtain ⟨d, ran⟩ := resolved .delete
    exact .handOver ran manager (.delete item) (Resolved.withEntity_own .delete own item _)

private theorem Known.namedCalls (known : Known F (s.database db))
    (found : (s.database db).registry.record? key = some record) {name : String}
    (named : name ∈ (s.database db).registry.namesOf record) :
    NamedCalls env db s (F.type key) name := by
  have own := known.coherent.type found
  have manager := Registry.manager_found F found
  have lookup := known.coherent.typeOf found named
  have resolved (operation : Operation) : ∃ d,
      (resolvePath db operation name : Attempt σ ε _).run.run s =
        (.ok ⟨F.type key, record.manager⟩, s.dispatching db d) := by
    rw [resolvePath_run operation lookup]
    exact known.resolved found operation
  have plain (p : Predicate) : (record.manager.exist env p : Engine σ ε _) =
      do return (← record.manager.exist env p).map id := by
    have unchanged : (fun o : Outcome Bool => (pure (o.map id) : Engine σ ε _)) = pure := by
      funext o
      rw [Outcome.map, Option.map_id_fun]
      rfl
    rw [unchanged, bind_pure]
  constructor
  · intro operation
    obtain ⟨m, d, given⟩ := known.resolves found operation
    exact ⟨m, d, by rwa [resolvePath_run operation lookup]⟩
  · obtain ⟨d, ran⟩ := resolved .getAll
    exact .handOver ran manager .getAll (Resolved.withManager_own .getAll own _)
  · intro id
    obtain ⟨d, ran⟩ := resolved .getById
    exact .handOver ran manager (.getById id) (Resolved.withManager_own .getById own _)
  · intro p
    obtain ⟨d, ran⟩ := resolved .filter
    exact .handOver ran manager (.filter p) (Resolved.withManager_own .filter own _)
  · intro p
    obtain ⟨d, ran⟩ := resolved .exist
    exact .handOver ran manager (.exist p) ((Resolved.withManager_own .exist own _).trans (plain p))

private theorem Known.namelessCalls (known : Known F (s.database db)) {name : String}
    (unnamed : ∀ key record, (s.database db).registry.record? key = some record →
      name ∉ (s.database db).registry.namesOf record) :
    NamelessCalls env db s name := by
  have unknown := known.coherent.typeOf_unnamed unnamed
  have same : s = s.dispatching db (s.database db).dispatcher := by
    have databases : setAt s.database db (s.database db) = s.database := by
      funext other
      by_cases this : other = db
      · rw [this, setAt_self]
      · exact setAt_of_ne s.database _ this
    show s = s.withDatabases (setAt s.database db (s.database db))
    rw [databases]
    rfl
  have refused {γ : Type} (operation : Operation) (call : Resolved ε → Engine σ ε (Outcome γ)) :
      Refused db s (handOver (resolvePath db operation name) call) := by
    have failed := handOver_error (resolvePath_fails (σ := σ) operation unknown) call
    exact .of_run (failed.trans (by rw [← same])) rfl
  exact ⟨refused .getAll _, fun _ => refused .getById _, fun _ => refused .filter _,
    fun _ => refused .exist _⟩

private theorem Known.typelessCalls (known : Known F (s.database db))
    (absent : (s.database db).registry.record? key = none) :
    TypelessCalls env db s (F.type key) := by
  have refused (operation : Operation) (call : Resolved ε → Engine σ ε (Outcome (BoxedEntity ε))) :
      Refused db s (handOver (resolve db operation (F.type key).key) call) := by
    obtain ⟨d, -, ran⟩ := resolve_run known operation (F.type key).key
    rw [F.keyed, absent] at ran
    rw [F.keyed]
    have failed := handOver_error ran call
    exact .of_run failed rfl
  exact ⟨fun _ => refused .create _, fun _ _ => refused .update _, fun _ => refused .delete _⟩

end

/-- However a database has been used, dynamic calls by the path or the alias of a registered type
and with boxed entities of it are the typed calls; calls by any other name and with entities of
types that are not registered find nothing and call nobody. -/
theorem dynamic_calls_are_typed {c : Engine σ ε α} (uses : Uses F env db c) (s : State σ ε)
    (config : Config) (fresh : s.database db = { config }) :
    (∀ key record, ((c.run s).2.database db).registry.record? key = some record →
      EntityCalls env db (c.run s).2 (F.type key) ∧
      ∀ name ∈ ((c.run s).2.database db).registry.namesOf record,
        NamedCalls env db (c.run s).2 (F.type key) name) ∧
    (∀ name, (∀ key record, ((c.run s).2.database db).registry.record? key = some record →
        name ∉ ((c.run s).2.database db).registry.namesOf record) →
      NamelessCalls env db (c.run s).2 name) ∧
    ∀ key, ((c.run s).2.database db).registry.record? key = none →
      TypelessCalls env db (c.run s).2 (F.type key) := by
  have start : Known F (s.database db) := by
    rw [fresh]
    exact ⟨Registry.Coherent.empty F, fun _ _ _ kept => by cases kept⟩
  have known := uses.follows s start
  exact ⟨fun key record found => ⟨known.entityCalls found, fun name => known.namedCalls found⟩,
    fun name => known.namelessCalls, fun key => known.typelessCalls⟩

def keyOnly (path table : String) : EntityModel :=
  ⟨⟨path, table, "id", [Column.generatedKey "id"]⟩, []⟩

def peopleAndTags : TypeFamily Record where
  type key := Record.entityType key
    (if key.number = 0 then keyOnly "w::Person" "person" else keyOnly "w::Tag" "tag")
  keyed _ := rfl

def registerPeople : Engine Scripts Record (Except EngineError Unit) :=
  (register 0 (peopleAndTags.type ⟨0⟩) 0 (some "w::Tag") : Attempt Scripts Record Unit).run

theorem people_are_called_by_alias :
    ((({ outside := {} } : State Scripts Record).database 0) = {}) ∧
    EntityCalls Party.scripted 0 (registerPeople.run { outside := {} }).2
      (peopleAndTags.type ⟨0⟩) ∧
    NamedCalls Party.scripted 0 (registerPeople.run { outside := {} }).2
      (peopleAndTags.type ⟨0⟩) "w::Tag" ∧
    TypelessCalls Party.scripted 0 (registerPeople.run { outside := {} }).2
      (peopleAndTags.type ⟨1⟩) := by
  have uses : Uses peopleAndTags Party.scripted 0 registerPeople :=
    .register ⟨0⟩ 0 (some "w::Tag")
  obtain ⟨registered, -, unregistered⟩ := dynamic_calls_are_typed uses { outside := {} } {} rfl
  obtain ⟨byEntity, byName⟩ := registered ⟨0⟩ _ rfl
  exact ⟨rfl, byEntity, byName _ (List.mem_cons_of_mem _ List.mem_cons_self),
    unregistered ⟨1⟩ rfl⟩

/-- The path of a type that is not registered can lead somewhere: to a type whose alias it is. -/
theorem unregistered_path_leads_to_alias :
    ¬ ∀ (c : Engine Scripts Record (Except EngineError Unit)) (key : TypeKey),
      Uses peopleAndTags Party.scripted 0 c →
      ((c.run { outside := {} }).2.database 0).registry.record? key = none →
      NamelessCalls Party.scripted 0 (c.run { outside := {} }).2
        (peopleAndTags.type key).model.path := by
  intro nothing
  have tags := nothing registerPeople ⟨1⟩ (.register ⟨0⟩ 0 (some "w::Tag")) rfl
  obtain ⟨e, failed, -⟩ := tags.getAll.answer
  have succeeded : ((((dynGetAll "w::Tag").run Party.scripted 0).run
      (registerPeople.run { outside := {} }).2).1).errors = [] := rfl
  have contradiction := succeeded.symm.trans (congrArg Outcome.errors failed)
  cases contradiction

end Database

end EntityStore
