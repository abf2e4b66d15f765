import EntityStore.Proofs.Engine.Labour

/-!
Requests follow every course: each statement, each run of a builder, at once or made ready before,
and each mutation by a manager, with its hooks and observers.
-/

namespace EntityStore

variable {σ ε : Type}

namespace Manner

theorem follows_askHook (M : Manner σ ε) {m : Manager ε} {point : HookPoint} {α : Type}
    (hooks? : M.Follows (m.hooks? : Engine σ ε _))
    (asked : ∀ id, M.Follows (Engine.record (.hook point id) : Engine σ ε Unit))
    (item : ε) (fallback : α) (ask : Hooks ε → Except Panic α) :
    M.Follows (m.askHook point item fallback ask : Engine σ ε (Except EngineError α)) := by
  refine Follows.bind hooks? fun hooks? => ?_
  cases hooks? with
  | none => exact M.follows_pure _
  | some hooks =>
      refine Follows.bind (asked _) fun _ => ?_
      split
      · exact M.follows_pure _
      · exact M.follows_pure _

structure Admits (M : Manner σ ε) (m : Manager ε) : Prop where
  hooks? : M.Follows (m.hooks? : Engine σ ε (Option (Hooks ε)))
  asked (point : HookPoint) (ahead : point.stage ≠ .after) (id : Int64) :
    M.Follows (Engine.record (.hook point id) : Engine σ ε Unit)

namespace Admits

variable {M : Manner σ ε} {m : Manager ε} (A : M.Admits m)

include A

private theorem follows_admitOne (mutation : Mutation) (item : ε) :
    M.Follows (m.admitOne mutation item : Engine σ ε (Except EngineError ε)) := by
  have asks {α : Type} (point : HookPoint) (ahead : point.stage ≠ .after) (fallback : α)
      (ask : Hooks ε → Except Panic α) : M.Follows (m.askHook point item fallback ask) :=
    M.follows_askHook A.hooks? (A.asked point ahead) item fallback ask
  refine Follows.bind (asks ⟨.can, mutation⟩ (by simp) true _) fun allowed => ?_
  split
  · exact M.follows_pure _
  · exact M.follows_pure _
  · refine Follows.bind (asks ⟨.before, mutation⟩ (by simp) item _) fun changed => ?_
    split
    · exact M.follows_pure _
    · exact M.follows_pure _

theorem follows_admitAll (mutation : Mutation) (items : List ε) :
    M.Follows (m.admitAll mutation items : Engine σ ε (List ε × List EngineError)) :=
  Follows.bind (M.closed.mapM (A.follows_admitOne mutation) items) fun _ => M.follows_pure _

end Admits

end Manner

namespace Course

open Manner

variable {env : Setting σ} (C : Course env ε) (i : StorageId)

theorem labour : Labour env i fun (α : Type) (x : Attempt σ ε α) => C.Tries x :=
  C.toManner.labour (fun _ => C.follows_record rfl) (C.statements i).execute (C.statements i).query
    (C.statements i).insert (C.models i)

/-! ### Reading -/

theorem follows_preparedQuery {q : Query ε} {c : Compiled σ ε (List ε)}
    (ready : q.prepare env = .ok c) (bindings : Sql.Bindings) : C.Follows (c.execute bindings) := by
  obtain ⟨t, -, rfl⟩ := Query.of_prepare ready
  exact ((C.labour q.storage).load q.type t bindings).outcome

theorem follows_query (q : Query ε) : C.Follows (q.run env) := by
  unfold Query.run
  split
  · rename_i c ready
    exact C.follows_preparedQuery ready []
  · exact C.follows_pure _

theorem follows_single (q : Query ε) : C.Follows (q.single env) :=
  Follows.bind (C.follows_query _) fun _ => C.follows_pure _

private theorem follows_rows (q : Query ε) : C.Follows (q.rows env) :=
  Tries.outcome <| Tries.bind (C.tries_ofResult _) fun t =>
    Tries.bind (C.tries_ofResult _) fun _ =>
      Tries.bind (C.tries_bound t []) fun s =>
        Tries.bind ((C.statements q.storage).tries_query s) fun _ => C.tries_pure _

theorem follows_countWith (t : Sql.Template) (bindings : Sql.Bindings) :
    C.Follows (Exist.countWith env i t bindings : Engine σ ε (Outcome Nat)) :=
  Tries.outcome <| Tries.bind (C.tries_bound t bindings) fun s => (C.statements i).tries_count s

private theorem follows_preparedExist {e : Exist ε} {c : Compiled σ ε Bool}
    (ready : e.prepare env = .ok c) (bindings : Sql.Bindings) : C.Follows (c.execute bindings) := by
  unfold Exist.prepare at ready
  split at ready
  · cases ready
    exact Follows.bind (C.follows_countWith e.storage _ bindings) fun _ => C.follows_pure _
  · cases ready

theorem follows_count (e : Exist ε) : C.Follows (e.count env) := by
  unfold Exist.count
  split
  · exact C.follows_countWith e.storage _ []
  · exact C.follows_pure _

theorem follows_exist (e : Exist ε) : C.Follows (e.run env) :=
  Follows.bind (C.follows_count e) fun _ => C.follows_pure _

/-! ### Writing -/

theorem follows_create (c : Create ε) : C.Follows (c.run env) :=
  C.unit c.storage ((C.labour c.storage).insertWithLinks rfl).outcome

theorem follows_preparedUpdate {u : Update ε} {c : Compiled σ ε Nat}
    (ready : u.prepare env = .ok c) (bindings : Sql.Bindings) : C.Follows (c.execute bindings) := by
  obtain ⟨plan, selection?, -, rfl⟩ := Update.of_prepare ready
  exact C.unit u.storage ((C.labour u.storage).update rfl plan selection? bindings).outcome

theorem follows_update (u : Update ε) : C.Follows (u.run env) := by
  unfold Update.run
  split
  · rename_i c ready
    exact C.follows_preparedUpdate ready []
  · exact C.follows_pure _

theorem follows_preparedDelete {x : Delete ε} {c : Compiled σ ε Nat}
    (ready : x.prepare env = .ok c) (bindings : Sql.Bindings) : C.Follows (c.execute bindings) := by
  obtain ⟨selection, -, rfl⟩ := Delete.of_prepare ready
  exact C.unit x.storage ((C.labour x.storage).delete rfl selection bindings).outcome

theorem follows_delete (x : Delete ε) : C.Follows (x.run env) := by
  unfold Delete.run
  split
  · rename_i c ready
    exact C.follows_preparedDelete ready []
  · exact C.follows_pure _

/-! ### Hooks and observers -/

variable (m : Manager ε) (mutation : Mutation)

theorem admits : C.Admits m where
  hooks? := C.hooks? m
  asked _ _ _ := C.follows_record rfl

private theorem follows_tellOne (item : ε) :
    C.Follows (m.tellOne mutation item : Engine σ ε (List EngineError)) := by
  have observer (o : Observer ε) :
      C.Follows (m.tellObserver mutation item o : Engine σ ε (List EngineError)) := by
    refine Follows.bind (C.follows_record rfl) fun _ => ?_
    split
    · exact C.follows_pure _
    · exact C.follows_pure _
  have told (hookErrors : List EngineError) : C.Follows (do
      let observers ← m.observers mutation
      let told ← observers.mapM (m.tellObserver mutation item)
      return hookErrors ++ told.flatten : Engine σ ε (List EngineError)) :=
    Follows.bind (C.observers m mutation) fun found =>
      Follows.bind (C.closed.mapM observer found) fun _ => C.follows_pure _
  have asks : C.Follows
      (m.askHook ⟨.after, mutation⟩ item () (·.after mutation item) : Engine σ ε _) :=
    C.follows_askHook (C.hooks? m) (fun _ => C.follows_record rfl) item () _
  refine Follows.bind asks fun answer => ?_
  split
  · exact Follows.bind (C.follows_pure _) told
  · exact Follows.bind (C.follows_pure _) told

theorem follows_conclude (errors : List EngineError) (items? : Option (List ε)) :
    C.Follows (m.conclude mutation errors items? : Engine σ ε (Outcome (List ε))) := by
  cases items? with
  | none => exact C.follows_pure _
  | some items =>
      refine Follows.bind ?_ fun _ => C.follows_pure _
      exact Follows.bind (C.closed.mapM (C.follows_tellOne m mutation) items) fun _ =>
        C.follows_pure _

/-! ### Managers -/

theorem follows_createItems (items : List ε) (withId bulk : Bool) :
    C.Follows (m.createItems env items withId bulk) :=
  Follows.bind ((C.admits m).follows_admitAll .create items) fun _ =>
    Follows.bind (C.follows_create _) fun _ => C.follows_conclude m .create _ _

theorem follows_getByIds (ids : List Int64) : C.Follows (m.getByIds env ids) :=
  Follows.bind (C.follows_query _) fun _ => C.follows_pure _

theorem follows_updateMany (items : List ε) (fields : List String) :
    C.Follows (m.updateMany env items fields) := by
  refine Follows.bind ((C.admits m).follows_admitAll .update items) fun admitted => ?_
  refine Follows.bind (C.follows_update _) fun updated => ?_
  dsimp only
  split
  · exact C.follows_pure _
  · exact Follows.bind (C.follows_getByIds m _) fun _ => C.follows_conclude m .update _ _

theorem follows_deleteMany (items : List ε) : C.Follows (m.deleteMany env items) :=
  Follows.bind ((C.admits m).follows_admitAll .delete items) fun _ =>
    Follows.bind (C.follows_delete _) fun _ => C.follows_conclude m .delete _ _

end Course

/-- The statements and the runs of builders, on any storage. -/
inductive Requested (env : Setting σ) : {α : Type} → Engine σ ε α → Prop
  | execute (i : StorageId) (q : Sql.Statement) : Requested env (Storage.execute env i q).run
  | query (i : StorageId) (q : Sql.Statement) : Requested env (Storage.query env i q).run
  | insert (i : StorageId) (q : Sql.Statement) : Requested env (Storage.insert env i q).run
  | create (c : Create ε) : Requested env (c.run env)
  | update (u : Update ε) : Requested env (u.run env)
  | delete (x : Delete ε) : Requested env (x.run env)
  | find (q : Query ε) : Requested env (q.run env)
  | single (q : Query ε) : Requested env (q.single env)
  | rows (q : Query ε) : Requested env (q.rows env)
  | exist (e : Exist ε) : Requested env (e.run env)
  | count (e : Exist ε) : Requested env (e.count env)
  | preparedUpdate (u : Update ε) (c : Compiled σ ε Nat) (ready : u.prepare env = .ok c)
      (bindings : Sql.Bindings) : Requested env (c.execute bindings)
  | preparedDelete (x : Delete ε) (c : Compiled σ ε Nat) (ready : x.prepare env = .ok c)
      (bindings : Sql.Bindings) : Requested env (c.execute bindings)
  | preparedQuery (q : Query ε) (c : Compiled σ ε (List ε)) (ready : q.prepare env = .ok c)
      (bindings : Sql.Bindings) : Requested env (c.execute bindings)
  | preparedExist (e : Exist ε) (c : Compiled σ ε Bool) (ready : e.prepare env = .ok c)
      (bindings : Sql.Bindings) : Requested env (c.execute bindings)
  | createItems (m : Manager ε) (items : List ε) (withId bulk : Bool) :
      Requested env (m.createItems env items withId bulk)
  | updateMany (m : Manager ε) (items : List ε) (fields : List String) :
      Requested env (m.updateMany env items fields)
  | deleteMany (m : Manager ε) (items : List ε) : Requested env (m.deleteMany env items)

theorem Requested.follows {env : Setting σ} {α : Type} {c : Engine σ ε α}
    (requested : Requested env c) (C : Course env ε) : C.Follows c := by
  cases requested with
  | execute i q => exact (C.statements i).tries_execute q
  | query i q => exact (C.statements i).tries_query q
  | insert i q => exact (C.statements i).tries_insert q
  | create c => exact C.follows_create c
  | update u => exact C.follows_update u
  | delete x => exact C.follows_delete x
  | find q => exact C.follows_query q
  | single q => exact C.follows_single q
  | rows q => exact C.follows_rows q
  | exist e => exact C.follows_exist e
  | count e => exact C.follows_count e
  | preparedUpdate u c ready bindings => exact C.follows_preparedUpdate ready bindings
  | preparedDelete x c ready bindings => exact C.follows_preparedDelete ready bindings
  | preparedQuery q c ready bindings => exact C.follows_preparedQuery ready bindings
  | preparedExist e c ready bindings => exact C.follows_preparedExist ready bindings
  | createItems m items withId bulk => exact C.follows_createItems m items withId bulk
  | updateMany m items fields => exact C.follows_updateMany m items fields
  | deleteMany m items => exact C.follows_deleteMany m items

end EntityStore
