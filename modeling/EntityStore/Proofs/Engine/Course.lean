import EntityStore.Manager.Admission
import EntityStore.Proofs.Engine.Run
import EntityStore.Storage.Schema
import EntityStore.Storage.Transaction

/-!
What all requests do alike. All that a request does comes from events it records, statements it
runs, units of work it opens and a few parts of the state that it reads. A property of computations
that these have, that returning has and that sequencing keeps therefore holds of every request, and
no proof of such a property has to look into the requests again. One kind of such a property is a
relation that joins the states before and after.
-/

namespace EntityStore

variable {σ ε α β : Type}

/-- A property that returning has and that sequencing keeps. -/
structure Closed {m : Type → Type} [Monad m] (holds : (α : Type) → m α → Prop) : Prop where
  pure {α : Type} (a : α) : holds α (pure a)
  bind {α β : Type} {c : m α} {next : α → m β} :
    holds α c → (∀ a, holds β (next a)) → holds β (c >>= next)

namespace Closed

variable {m : Type → Type} [Monad m] {holds : (α : Type) → m α → Prop}
  (closed : Closed holds)

include closed

theorem mapM [LawfulMonad m] {f : α → m β} (each : ∀ a, holds β (f a)) (items : List α) :
    holds (List β) (items.mapM f) := by
  induction items with
  | nil => exact closed.pure []
  | cons a rest ih =>
      rw [List.mapM_cons]
      exact closed.bind (each a) fun b => closed.bind ih fun others => closed.pure (b :: others)

theorem forM_mem {f : α → m PUnit} {items : List α} (each : ∀ a ∈ items, holds PUnit (f a)) :
    holds PUnit (items.forM f) := by
  induction items with
  | nil => exact closed.pure PUnit.unit
  | cons a rest ih =>
      obtain ⟨first, others⟩ := List.forall_mem_cons.1 each
      exact closed.bind first fun _ => ih others

theorem forM {f : α → m PUnit} (each : ∀ a, holds PUnit (f a)) (items : List α) :
    holds PUnit (items.forM f) :=
  closed.forM_mem fun a _ => each a

theorem foldlM {f : β → α → m β} (each : ∀ b a, holds β (f b a)) (items : List α) (b : β) :
    holds β (items.foldlM f b) := by
  induction items generalizing b with
  | nil => exact closed.pure b
  | cons a rest ih =>
      rw [List.foldlM_cons]
      exact closed.bind (each b a) ih

end Closed

structure Manner (σ ε : Type) where
  Follows {α : Type} : Engine σ ε α → Prop
  closed : Closed fun (α : Type) (c : Engine σ ε α) => Follows c

namespace Manner

variable (M : Manner σ ε)

/-- The attempt has the property, whether it succeeds or fails. -/
def Tries (x : Attempt σ ε α) : Prop :=
  M.Follows x.run

variable {M}

theorem Follows.bind {c : Engine σ ε α} {next : α → Engine σ ε β} (first : M.Follows c)
    (second : ∀ a, M.Follows (next a)) : M.Follows (c >>= next) :=
  M.closed.bind first second

theorem Tries.bind {x : Attempt σ ε α} {next : α → Attempt σ ε β} (first : M.Tries x)
    (second : ∀ a, M.Tries (next a)) : M.Tries (x >>= next) := by
  have each (result : Except EngineError α) : M.Follows (ExceptT.bindCont next result) := by
    cases result with
    | ok a => exact second a
    | error e => exact M.closed.pure _
  exact M.closed.bind first each

theorem Follows.lift {c : Engine σ ε α} (follows : M.Follows c) : M.Tries (Attempt.lift c) :=
  follows.bind fun _ => M.closed.pure _

variable (M)

theorem follows_pure (a : α) : M.Follows (pure a : Engine σ ε α) :=
  M.closed.pure a

theorem tries_pure (a : α) : M.Tries (pure a : Attempt σ ε α) :=
  M.follows_pure (Except.ok a)

theorem closed_attempt : Closed fun (α : Type) (x : Attempt σ ε α) => M.Tries x where
  pure := M.tries_pure
  bind := Tries.bind

theorem tries_ofExcept (r : Except EngineError α) :
    M.Tries (Attempt.ofExcept r : Attempt σ ε α) :=
  M.follows_pure r

theorem tries_ofResult [Coe β EngineError] (r : Except β α) :
    M.Tries (Attempt.ofResult r : Attempt σ ε α) := by
  cases r with
  | ok value => exact M.follows_pure _
  | error e => exact M.follows_pure _

theorem tries_bound (t : Sql.Template) (bindings : Sql.Bindings) :
    M.Tries (Storage.bound t bindings : Attempt σ ε Sql.Statement) :=
  M.tries_ofResult _

variable {M}

theorem Tries.outcome {x : Attempt σ ε α} (tries : M.Tries x) : M.Follows x.outcome :=
  Follows.bind tries fun _ => M.follows_pure _

theorem Follows.answered {c : Engine σ ε (Except StorageError α)} (follows : M.Follows c) :
    M.Tries (Storage.answered c : Attempt σ ε α) :=
  Tries.bind follows.lift fun r => M.tries_ofResult r

end Manner

structure Route (σ ε : Type) where
  leads : State σ ε → State σ ε → Prop
  refl (s : State σ ε) : leads s s
  trans {s middle after : State σ ε} : leads s middle → leads middle after → leads s after

namespace Route

variable (R : Route σ ε)

/-- From every state the computation goes where the route leads. -/
def Follows (c : Engine σ ε α) : Prop :=
  ∀ s, R.leads s (c.run s).2

variable {R}

theorem Follows.bind {c : Engine σ ε α} {next : α → Engine σ ε β} (first : R.Follows c)
    (second : ∀ a, R.Follows (next a)) : R.Follows (c >>= next) := by
  intro s
  exact R.trans (first s) (second _ _)

variable (R)

theorem follows_pure (a : α) : R.Follows (pure a : Engine σ ε α) :=
  R.refl

def manner : Manner σ ε where
  Follows := R.Follows
  closed := ⟨R.follows_pure, Follows.bind⟩

/-- The attempt goes along the route, whether it succeeds or fails. -/
abbrev Tries (x : Attempt σ ε α) : Prop :=
  R.manner.Tries x

variable {R} in
theorem leads_of_ran {x : Attempt σ ε α} (tries : R.Tries x) {s after : State σ ε}
    {result : Except EngineError α} (ran : x.run.run s = (result, after)) : R.leads s after := by
  have went := tries s
  rwa [ran] at went

end Route

structure Manner.Queries (M : Manner σ ε) (env : Setting σ) (i : StorageId) : Prop where
  record (e : Event) (inner : e.isCall = false) :
    M.Follows (Engine.record e : Engine σ ε Unit)
  query (q : Sql.Statement) :
    M.Follows (Engine.call (.query i q) ((env.provider i).query q) : Engine σ ε _)

namespace Manner.Queries

variable {M : Manner σ ε} {env : Setting σ} {i : StorageId} (Q : M.Queries env i)

include Q

theorem tries_traceStatement (q : Sql.Statement) :
    M.Tries (Storage.traceStatement env i q : Attempt σ ε Unit) := by
  unfold Storage.traceStatement
  split
  · exact Follows.lift (Q.record _ rfl)
  · exact M.tries_pure ()

theorem tries_query (q : Sql.Statement) :
    M.Tries (Storage.query env i q : Attempt σ ε (List Row)) :=
  Tries.bind (Q.tries_traceStatement q) fun _ => Follows.answered (Q.query q)

theorem tries_count (q : Sql.Statement) :
    M.Tries (Storage.count env i q : Attempt σ ε Nat) := by
  refine Tries.bind (Q.tries_query q) fun rows => ?_
  cases rows with
  | nil => exact M.tries_pure 0
  | cons row rest => exact Tries.bind (M.tries_ofExcept _) fun _ => M.tries_pure _

theorem tries_tableExists (table : String) :
    M.Tries (Storage.tableExists env i table : Attempt σ ε Bool) :=
  Tries.bind (M.tries_bound _ []) fun q => Tries.bind (Q.tries_count q) fun _ => M.tries_pure _

end Manner.Queries

structure Manner.Statements (M : Manner σ ε) (env : Setting σ) (i : StorageId) : Prop
    extends M.Queries env i where
  execute (q : Sql.Statement) :
    M.Follows (Engine.call (.execute i q) ((env.provider i).execute q) : Engine σ ε _)
  insert (q : Sql.Statement) :
    M.Follows (Engine.call (.insert i q) ((env.provider i).insert q) : Engine σ ε _)

namespace Manner.Statements

variable {M : Manner σ ε} {env : Setting σ} {i : StorageId} (S : M.Statements env i)

include S

theorem tries_execute (q : Sql.Statement) :
    M.Tries (Storage.execute env i q : Attempt σ ε Nat) :=
  Tries.bind (S.tries_traceStatement q) fun _ => Follows.answered (S.execute q)

theorem tries_insert (q : Sql.Statement) :
    M.Tries (Storage.insert env i q : Attempt σ ε Int64) :=
  Tries.bind (S.tries_traceStatement q) fun _ => Follows.answered (S.insert q)

theorem tries_executeTemplate (t : Sql.Template) :
    M.Tries (Storage.executeTemplate env i t : Attempt σ ε Nat) :=
  Tries.bind (M.tries_bound t []) fun q => S.tries_execute q

end Manner.Statements

structure Conduct (env : Setting σ) (ε : Type) extends Manner σ ε where
  statements (i : StorageId) : toManner.Statements env i

namespace Conduct

variable {env : Setting σ} (C : Conduct env ε)

theorem follows_record {e : Event} (inner : e.isCall = false) :
    C.Follows (Engine.record e : Engine σ ε Unit) :=
  (C.statements 0).record e inner

end Conduct

/-- A manner in which the parts run that beginning and ending a transaction of storage `j` is made
of. -/
structure Manner.Coordinates (M : Manner σ ε) (env : Setting σ) (j : StorageId) : Prop where
  coordinator : M.Follows (Storage.coordinator j)
  setCoordinator (c : Coordinator) : M.Follows (Storage.setCoordinator j c)
  trace (level : TraceLevel) (message : String) (fields : List (String × TraceField)) :
    M.Follows (Storage.traceTransaction level message fields)
  begin : M.Follows (Engine.call (.begin j) (env.provider j).begin)
  commit : M.Follows (Engine.call (.commit j) (env.provider j).commit)
  rollback : M.Follows (Engine.call (.rollback j) (env.provider j).rollback)

namespace Manner.Coordinates

variable {M : Manner σ ε} {env : Setting σ} {j : StorageId} (C : M.Coordinates env j)

include C

theorem tries_begin : M.Tries (Storage.begin env j : Attempt σ ε Transaction) := by
  have join : M.Follows (Storage.join env j : Engine σ ε _) := by
    refine Follows.bind C.coordinator fun c => ?_
    split
    · refine Follows.bind (C.setCoordinator _) fun _ => ?_
      exact Follows.bind (C.trace _ _ _) fun _ => M.follows_pure _
    · refine Follows.bind C.begin fun answer => ?_
      split
      · exact M.follows_pure _
      · refine Follows.bind (C.setCoordinator _) fun _ => ?_
        exact Follows.bind (C.trace _ _ _) fun _ => M.follows_pure _
  exact Tries.bind join.lift fun _ => M.tries_ofResult _

theorem follows_ended (id : Nat) (word : String) (status : TransactionStatus)
    (failure : StorageError → TransactionError) (result : Except StorageError Unit) :
    M.Follows (Storage.ended id word status failure result : Engine σ ε _) := by
  cases result with
  | ok _ => exact Follows.bind (C.trace _ _ _) fun _ => M.follows_pure _
  | error reason => exact Follows.bind (C.trace _ _ _) fun _ => M.follows_pure _

theorem follows_commitId (id : Nat) : M.Follows (Storage.commitId env j id : Engine σ ε _) := by
  refine Follows.bind C.coordinator fun c => ?_
  split
  · exact M.follows_pure _
  · split
    · exact Follows.bind (C.setCoordinator _) fun _ => M.follows_pure _
    · refine Follows.bind (C.setCoordinator _) fun _ => ?_
      exact Follows.bind C.commit fun answer => C.follows_ended id _ _ _ answer

theorem follows_rollbackId (id : Nat) :
    M.Follows (Storage.rollbackId env j id : Engine σ ε _) := by
  refine Follows.bind C.coordinator fun c => ?_
  split
  · exact M.follows_pure _
  · refine Follows.bind (C.setCoordinator _) fun _ => ?_
    exact Follows.bind C.rollback fun answer => C.follows_ended id _ _ _ answer

theorem follows_drop (t : Transaction) (here : t.storage = j) :
    M.Follows (t.drop env : Engine σ ε Unit) := by
  subst here
  refine Follows.bind (C.trace _ _ _) fun _ => ?_
  refine Follows.bind (C.follows_rollbackId t.id) fun result => ?_
  cases result with
  | ok status => exact M.follows_pure _
  | error e => exact C.trace _ _ _

omit C

variable (everywhere : ∀ j, M.Coordinates env j)

include everywhere

private theorem follows_close (t : Transaction) (o : Outcome α) :
    M.Follows (t.close env o : Engine σ ε _) := by
  unfold Transaction.close
  split
  · refine Follows.bind ((everywhere t.storage).follows_commitId t.id) fun result => ?_
    split
    · exact M.follows_pure _
    · exact M.follows_pure _
    · exact M.follows_pure _
  · refine Follows.bind ((everywhere t.storage).follows_rollbackId t.id) fun result => ?_
    split
    · exact M.follows_pure _
    · exact M.follows_pure _

theorem follows_unit (i : StorageId) {action : Engine σ ε (Outcome α)}
    (inside : M.Follows action) : M.Follows (Storage.runInsideTransaction env i action) := by
  refine Follows.bind (everywhere i).tries_begin fun begun => ?_
  split
  · exact M.follows_pure _
  · exact Follows.bind inside fun o => follows_close everywhere _ o

end Manner.Coordinates

structure Course (env : Setting σ) (ε : Type) extends Conduct env ε where
  models (i : StorageId) : Follows (Storage.models i : Engine σ ε (List EntityModel))
  hooks? (m : Manager ε) : Follows (m.hooks? : Engine σ ε (Option (Hooks ε)))
  observers (m : Manager ε) (mutation : Mutation) :
    Follows (m.observers mutation : Engine σ ε (List (Observer ε)))
  unit {α : Type} (i : StorageId) {action : Engine σ ε (Outcome α)} (inside : Follows action) :
    Follows (Storage.runInsideTransaction env i action)

end EntityStore
