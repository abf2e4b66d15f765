import EntityStore.Manager.Basic
import EntityStore.Proofs.Engine.Course

/-!
The work of builders on one storage. Loading, creating, updating and deleting entities is made of
statements and of checks: values are looked up, templates bound and answers read. A property of
attempts that these have, that returning has and that sequencing keeps therefore holds of the work
of every builder.
-/

namespace EntityStore

variable {σ ε α β : Type}

/-- A property of attempts that returning and checking have, that sequencing keeps, and that
statements on storage `i` have. -/
structure Labour (env : Setting σ) (i : StorageId) (holds : (α : Type) → Attempt σ ε α → Prop) :
    Prop where
  closed : Closed holds
  check {α : Type} (r : Except EngineError α) : holds α (Attempt.ofExcept r)
  execute (q : Sql.Statement) : holds Nat (Storage.execute env i q)
  query (q : Sql.Statement) : holds (List Row) (Storage.query env i q)
  insert (q : Sql.Statement) : holds Int64 (Storage.insert env i q)
  models : holds (List EntityModel) (Attempt.lift (Storage.models i))

open Manner in
/-- A manner has it of work if it has it of reports and of calls. -/
theorem Manner.labour (M : Manner σ ε) {env : Setting σ} {i : StorageId}
    (report : ∀ t, M.Follows (Engine.record (.trace t) : Engine σ ε Unit))
    (execute : ∀ q, M.Follows (Engine.call (.execute i q) ((env.provider i).execute q) :
      Engine σ ε _))
    (query : ∀ q, M.Follows (Engine.call (.query i q) ((env.provider i).query q) : Engine σ ε _))
    (insert : ∀ q, M.Follows (Engine.call (.insert i q) ((env.provider i).insert q) :
      Engine σ ε _))
    (models : M.Follows (Storage.models i : Engine σ ε (List EntityModel))) :
    Labour env i fun (α : Type) (x : Attempt σ ε α) => M.Tries x := by
  have reports (q : Sql.Statement) :
      M.Tries (Storage.traceStatement env i q : Attempt σ ε Unit) := by
    unfold Storage.traceStatement
    split
    · exact Follows.lift (report _)
    · exact M.tries_pure ()
  exact
    { closed := M.closed_attempt
      check := M.tries_ofExcept
      execute := fun q => Tries.bind (reports q) fun _ => Follows.answered (execute q)
      query := fun q => Tries.bind (reports q) fun _ => Follows.answered (query q)
      insert := fun q => Tries.bind (reports q) fun _ => Follows.answered (insert q)
      models := Follows.lift models }

namespace Labour

variable {env : Setting σ} {i : StorageId} {holds : (α : Type) → Attempt σ ε α → Prop}
  (L : Labour env i holds)

include L

theorem result [Coe β EngineError] (r : Except β α) : holds α (Attempt.ofResult r) := by
  cases r with
  | ok value => exact L.check (.ok value)
  | error e => exact L.check (.error e)

theorem bound (t : Sql.Template) (bindings : Sql.Bindings) :
    holds Sql.Statement (Storage.bound t bindings) :=
  L.result _

theorem executeTemplate (t : Sql.Template) : holds Nat (Storage.executeTemplate env i t) :=
  L.closed.bind (L.bound t []) L.execute

private theorem executeAll (templates : List Sql.Template) :
    holds Unit (Storage.executeAll env i templates) :=
  L.closed.forM (fun t => L.closed.bind (L.executeTemplate t) fun _ => L.closed.pure _) templates

theorem readIds (key : String) (q : Sql.Statement) :
    holds (List Int64) (Builder.readIds env i key q) :=
  L.closed.bind (L.query q) fun _ => L.check _

/-! ### Reading -/

private theorem loadTable (type : EntityType ε) (ids : List Int64) (items : List ε)
    (link : LinkTable) :
    holds (List ε) (Links.loadTable env i type ids items link) :=
  L.closed.bind (L.closed.bind (L.bound _ []) L.query) fun _ =>
    L.closed.bind (L.check _) fun _ => L.closed.pure _

private theorem loadLinks (type : EntityType ε) (items : List ε) :
    holds (List ε) (Links.load env i type items) := by
  unfold Links.load
  split
  · exact L.closed.pure items
  · exact L.closed.foldlM (L.loadTable type _) _ items

theorem load (type : EntityType ε) (t : Sql.Template) (bindings : Sql.Bindings) :
    holds (List ε) (Query.load env i type t bindings) :=
  L.closed.bind (L.bound t bindings) fun q =>
    L.closed.bind (L.query q) fun _ => L.closed.bind (L.check _) (L.loadLinks type)

/-! ### Links -/

private theorem insertLinks (link : LinkTable) (id : Int64) (targets : List Int64) :
    holds Unit (Links.insertLinks env i link id targets) :=
  L.closed.bind (L.executeTemplate _) fun _ => L.closed.pure ()

private theorem clearLinks (link : LinkTable) (id : Int64) : holds Unit (Links.clear env i link id) :=
  L.closed.bind (L.executeTemplate _) fun _ => L.closed.pure ()

private theorem writeTable (type : EntityType ε) (item : ε) (id : Int64) (replace : Bool)
    (link : LinkTable) : holds Unit (Links.writeTable env i type item id replace link) := by
  have inserts := L.closed.forM (L.insertLinks link id) <|
    chunksOf (bulkParams / 2) (Links.withoutRepeats (Links.ascending (type.links item link.field)))
  unfold Links.writeTable
  split
  · exact L.closed.bind (L.clearLinks link id) fun _ => inserts
  · exact L.closed.bind (L.closed.pure PUnit.unit) fun _ => inserts

theorem writeLinks (type : EntityType ε) (item : ε) (id : Int64) (replace : Bool)
    (only? : Option (List String)) : holds Unit (Links.write env i type item id replace only?) :=
  L.closed.forM (L.writeTable type item id replace) _

/-! ### Creation -/

theorem insertRows (withId : Bool) (level : EntityModel) (rows : List (List Value)) :
    holds (Option Int64) (Create.insertRows env i withId level rows) := by
  refine L.closed.bind (L.bound _ []) fun q => ?_
  split
  · exact L.closed.bind (L.insert q) fun _ => L.closed.pure _
  · exact L.closed.bind (L.execute q) fun _ => L.closed.pure none

private theorem insertLevel (withId : Bool) (values : List (String × Value)) (id : Int64)
    (level : EntityModel) : holds Int64 (Create.insertLevel env i withId values id level) :=
  L.closed.bind (L.result _) fun row =>
    L.closed.bind (L.insertRows withId level [row]) fun _ => L.closed.pure _

section

variable {c : Create ε} (here : c.storage = i)

include here

private theorem insertOne (item : ε) : holds ε (c.insertOne env item) := by
  subst here
  exact L.closed.bind (L.closed.foldlM (L.insertLevel c.withId _) _ _) fun _ => L.closed.pure _

private theorem insertChunk (level : EntityModel) (chunk : List (List (String × Value) × ε)) :
    holds (List (List (String × Value) × ε)) (c.insertChunk env level chunk) := by
  subst here
  refine L.closed.bind (L.result _) fun rows => ?_
  refine L.closed.bind (L.insertRows c.withId level rows) fun last? => ?_
  cases last? with
  | none => exact L.closed.pure chunk
  | some last => exact L.closed.pure _

private theorem insertBulk : holds (List ε) (c.insertBulk env) := by
  have level (items : List (List (String × Value) × ε)) (level : EntityModel) :
      holds (List (List (String × Value) × ε)) (c.insertBulkLevel env items level) :=
    L.closed.bind (L.closed.mapM (L.insertChunk here level) _) fun _ => L.closed.pure _
  unfold Create.insertBulk
  split
  · exact L.closed.pure []
  · exact L.closed.bind (L.closed.foldlM level _ _) fun _ => L.closed.pure _

private theorem insertAll : holds (List ε) (c.insertAll env) := by
  unfold Create.insertAll
  split
  · exact L.insertBulk here
  · exact L.closed.mapM (L.insertOne here) c.items

theorem insertWithLinks : holds (List ε) (c.insertWithLinks env) := by
  refine L.closed.bind (L.insertAll here) fun items => ?_
  subst here
  refine L.closed.bind ?_ fun _ => L.closed.pure items
  exact L.closed.forM (fun item => L.writeLinks c.type item _ false none) items

end

/-! ### Updates -/

theorem applyPlan (plan : UpdatePlan) (type : EntityType ε) (item : ε) (ids : List Int64) :
    holds Nat (plan.apply env i type item ids) := by
  have level (affected? : Option Nat) (level : EntityModel × List Column) :
      holds (Option Nat) (UpdatePlan.applyLevel env i (type.values item) ids affected? level) :=
    L.closed.bind (L.result _) fun _ =>
      L.closed.bind (L.executeTemplate _) fun _ => L.closed.pure _
  refine L.closed.bind (L.closed.foldlM level _ _) fun affected? => ?_
  split
  · refine L.closed.bind (L.closed.forM (fun id => ?_) ids) fun _ => L.closed.pure _
    exact L.writeLinks type item id true _
  · exact L.closed.bind (L.closed.pure PUnit.unit) fun _ => L.closed.pure _

section

variable {u : Update ε} (here : u.storage = i)

include here

private theorem applyEach (plan : UpdatePlan) (total : Nat) (item : ε) :
    holds Nat (u.applyEach env plan total item) := by
  subst here
  have writes := L.closed.bind (L.applyPlan plan u.type item [u.type.id item])
    fun n => L.closed.pure (total + n)
  unfold Update.applyEach
  dsimp only
  split
  · exact L.closed.bind (L.result _) fun _ => writes
  · exact writes

private theorem applySelected (plan : UpdatePlan) (t : Sql.Template) (bindings : Sql.Bindings) :
    holds Nat (u.applySelected env plan t bindings) := by
  subst here
  unfold Update.applySelected
  split
  · exact L.closed.pure 0
  · refine L.closed.bind (L.bound t bindings) fun q => ?_
    refine L.closed.bind (L.readIds _ q) fun ids => ?_
    split
    · exact L.closed.pure 0
    · exact L.applyPlan plan u.type _ ids

theorem update (plan : UpdatePlan) (selection? : Option Sql.Template) (bindings : Sql.Bindings) :
    holds Nat (u.apply env plan selection? bindings) := by
  cases selection? with
  | some t => exact L.applySelected here plan t bindings
  | none => exact L.closed.foldlM (L.applyEach here plan) u.items 0

end

/-! ### Deletion -/

private theorem deleteLevels (m : EntityModel) (ids : List Int64) :
    holds Nat (Removal.deleteLevels env i m ids) :=
  L.closed.foldlM (fun _ _ => L.executeTemplate _) _ 0

private theorem referencing (ids : List Int64) (r : Removal.Reference) :
    holds (EntityModel × List Int64) (Removal.referencing env i ids r) :=
  L.closed.bind (L.bound _ []) fun q => L.closed.bind (L.readIds _ q) fun _ => L.closed.pure _

/-- Removal has the property at every depth of cascades, as it has one level below. -/
theorem remove (models : List EntityModel) (depth : Nat) (m : EntityModel) (ids : List Int64)
    (visited : List RowKey) :
    holds (Nat × List RowKey) (Removal.remove env i models depth m ids visited) := by
  induction depth generalizing m ids visited with
  | zero => exact L.closed.pure (0, visited)
  | succ depth ih =>
      unfold Removal.remove
      dsimp only
      split
      · exact L.closed.pure _
      · refine L.closed.bind (L.executeAll _) fun _ => ?_
        refine L.closed.bind (L.closed.mapM (L.referencing _) _) fun cascades => ?_
        have cascade (visited : List RowKey) (found : EntityModel × List Int64) :
            holds (List RowKey) (do
              return (← Removal.remove env i models depth found.1 found.2 visited).2) :=
          L.closed.bind (ih found.1 found.2 visited) fun _ => L.closed.pure _
        refine L.closed.bind (L.closed.foldlM cascade cascades _) fun visited => ?_
        refine L.closed.bind (L.executeAll _) fun _ => ?_
        refine L.closed.bind (L.executeAll _) fun _ => ?_
        exact L.closed.bind (L.deleteLevels m _) fun _ => L.closed.pure _

theorem delete {x : Delete ε} (here : x.storage = i) (selection : DeleteSelection)
    (bindings : Sql.Bindings) : holds Nat (x.apply env selection bindings) := by
  subst here
  have selected : holds (List Int64) (x.selectedIds env bindings selection) := by
    cases selection with
    | ids ids => exact L.closed.pure ids
    | template t => exact L.closed.bind (L.bound t bindings) fun q => L.readIds _ q
  refine L.closed.bind selected fun ids => ?_
  refine L.closed.bind L.models fun models => ?_
  exact L.closed.bind (L.remove models _ _ ids []) fun _ => L.closed.pure _

end Labour

/-! ### Ready requests -/

theorem Query.of_prepare {env : Setting σ} {q : Query ε} {c : Compiled σ ε (List ε)}
    (ready : q.prepare env = .ok c) : ∃ t, q.compile env = .ok t ∧ c = q.compiled env t := by
  unfold Query.prepare at ready
  split at ready
  · cases ready
    exact ⟨_, ‹_›, rfl⟩
  · cases ready

theorem Update.of_prepare {env : Setting σ} {u : Update ε} {c : Compiled σ ε Nat}
    (ready : u.prepare env = .ok c) :
    ∃ plan selection?, u.compile env = .ok (plan, selection?) ∧
      c = u.compiled env plan selection? := by
  unfold Update.prepare at ready
  cases compiled : u.compile env with
  | error e =>
      rw [compiled] at ready
      cases ready
  | ok found =>
      rw [compiled] at ready
      cases ready
      exact ⟨found.1, found.2, rfl, rfl⟩

theorem Delete.of_prepare {env : Setting σ} {x : Delete ε} {c : Compiled σ ε Nat}
    (ready : x.prepare env = .ok c) :
    ∃ selection, x.compile env = .ok selection ∧ c = x.compiled env selection := by
  unfold Delete.prepare at ready
  split at ready
  · cases ready
    exact ⟨_, ‹_›, rfl⟩
  · cases ready

/-! ### Requests that do not compile -/

theorem Query.run_of_compile_error {env : Setting σ} {q : Query ε} {e : TranslateError}
    (compiled : q.compile env = .error e) : q.run env = pure (.ofError e) := by
  rw [Query.run, Query.prepare, compiled]

theorem Exist.count_of_compile_error {env : Setting σ} {x : Exist ε} {e : TranslateError}
    (compiled : x.compile env = .error e) : x.count env = pure (.ofError e) := by
  rw [Exist.count, compiled]

theorem Update.run_of_compile_error {env : Setting σ} {u : Update ε} {e : EngineError}
    (compiled : u.compile env = .error e) : u.run env = pure (.ofError e) := by
  rw [Update.run, Update.prepare, compiled]
  rfl

theorem Delete.run_of_compile_error {env : Setting σ} {x : Delete ε} {e : TranslateError}
    (compiled : x.compile env = .error e) : x.run env = pure (.ofError e) := by
  rw [Delete.run, Delete.prepare, compiled]

end EntityStore
