import EntityStore.Database.Session
import EntityStore.Migration.Run
import EntityStore.Proofs.Engine.Run
import EntityStore.Proofs.Manager.Hearing

/-!
The replies of a session whose value has to be there. What the engine answers without an error has a
value, so such a reply is an error exactly if the engine has recorded one, with one exception: an update
of an entity whose row is gone writes nothing, reads nothing back and records nothing, and the session
makes up an error for it.
-/

namespace EntityStore

variable {σ ε α β : Type} {env : Setting σ} {i : StorageId}

/-! ### Outcomes with a value or an error -/

def Outcome.Whole (o : Outcome α) : Prop :=
  o.errors = [] → ∃ a, o.value? = some a

namespace Outcome

theorem whole_ofError (e : EngineError) : (ofError e : Outcome α).Whole := by
  intro clean
  cases clean

private theorem whole_ofExcept (r : Except EngineError α) : (ofExcept r).Whole := by
  cases r with
  | ok a => exact fun _ => ⟨a, rfl⟩
  | error e => exact whole_ofError e

private theorem Whole.map {o : Outcome α} (whole : o.Whole) (f : α → β) : (o.map f).Whole := by
  intro clean
  obtain ⟨a, there⟩ := whole clean
  exact ⟨f a, congrArg (Option.map f) there⟩

private theorem eq_ok {o : Outcome α} {a : α} (clean : o.errors = []) (there : o.value? = some a) :
    o = .ok a := by
  obtain ⟨value?, errors⟩ := o
  cases clean
  cases there
  rfl

end Outcome

def Delivers (c : Engine σ ε (Outcome α)) : Prop :=
  ∀ s, (c.run s).1.Whole

namespace Delivers

theorem error (e : EngineError) : Delivers (pure (.ofError e) : Engine σ ε (Outcome α)) :=
  fun _ => Outcome.whole_ofError e

theorem map {c : Engine σ ε (Outcome α)} (delivers : Delivers c) (f : α → β) :
    Delivers (do return (← c).map f : Engine σ ε (Outcome β)) :=
  fun s => (delivers s).map f

theorem after {β : Type} (c : Engine σ ε β) {next : β → Engine σ ε (Outcome α)}
    (each : ∀ b, Delivers (next b)) : Delivers (c >>= next) :=
  fun s => each (c.run s).1 (c.run s).2

theorem outcome (x : Attempt σ ε α) : Delivers x.outcome :=
  fun s => Outcome.whole_ofExcept (x.run.run s).1

end Delivers

private theorem Outcome.Whole.extended {o : Outcome α} (whole : o.Whole) (added : List EngineError) :
    (o.extendErrors added).Whole :=
  fun clean => whole (List.append_eq_nil_iff.1 clean).1

namespace Delivers

private theorem unit {action : Engine σ ε (Outcome α)} (delivers : Delivers action) :
    Delivers (Storage.runInsideTransaction env i action) := by
  intro s
  rw [Storage.run_unit]
  rcases (Storage.begin env i : Attempt σ ε _).run.run s with ⟨e | t, opened⟩
  · exact Outcome.whole_ofError e
  · obtain ⟨added, closed⟩ := t.close_adds env (action.run opened).1 (action.run opened).2
    dsimp only
    rw [closed]
    exact (delivers opened).extended added

theorem mutating {work : Attempt σ ε α} {c : Engine σ ε (Outcome α)}
    (mutating : Mutating env i work c) : Delivers c := by
  rw [mutating.unit]
  exact unit (outcome work)

variable (env) in
theorem update (u : Update ε) : Delivers (u.run env) := by
  cases compiled : u.compile env with
  | ok found => exact mutating (Mutating.update u rfl compiled)
  | error e =>
      rw [Update.run_of_compile_error compiled]
      exact error e

variable (env) in
private theorem delete (x : Delete ε) : Delivers (x.run env) := by
  cases compiled : x.compile env with
  | ok selection => exact mutating (Mutating.delete x rfl compiled)
  | error e =>
      rw [Delete.run_of_compile_error compiled]
      exact error e

variable (env) in
theorem query (q : Query ε) : Delivers (q.run env) := by
  unfold Query.run
  split
  · rename_i c ready
    obtain ⟨t, -, rfl⟩ := Query.of_prepare ready
    exact outcome _
  · exact error _

private theorem exist (e : Exist ε) : Delivers (e.run env) := by
  refine map ?_ _
  unfold Exist.count
  split
  · exact outcome _
  · exact error _

end Delivers

/-! ### Managers -/

namespace Manager

variable {m : Manager ε} {mutation : Mutation} {s : State σ ε}
  {builder op : List ε → Engine σ ε (Outcome (List ε))}

variable (env) in
theorem delivers_getByIds (m : Manager ε) (ids : List Int64) : Delivers (m.getByIds env ids) :=
  (Delivers.query env _).map _

private theorem delivers_referencing (m : Manager ε) (target : EntityModel) (ids : List Int64) :
    Delivers (m.referencing env target ids) := by
  unfold referencing
  split
  · exact Delivers.query env _
  · exact Delivers.error _

theorem run_rewrite (m : Manager ε) (fields : List String) (accepted : List ε) (s : State σ ε) :
    let written := ((m.updating fields accepted).run env).run s
    let stored := (m.getByIds env (accepted.map m.type.id)).run written.2
    (m.rewrite env fields accepted).run s =
      match written.1.value? with
      | none => (.ofErrors written.1.errors, written.2)
      | some _ => (⟨stored.1.value?, written.1.errors ++ stored.1.errors⟩, stored.2) := by
  dsimp only
  rw [rewrite, Engine.run_bind]
  generalize ((m.updating fields accepted).run env).run s = written
  cases written.1.value? with
  | none => rfl
  | some n =>
      dsimp only
      rw [Engine.run_bind, Engine.run_pure]

private theorem delivers_rewrite (m : Manager ε) (fields : List String) (accepted : List ε) :
    Delivers (m.rewrite env fields accepted) := by
  intro s
  have writes := Delivers.update env (m.updating fields accepted) s
  have stores := m.delivers_getByIds env (accepted.map m.type.id)
    (((m.updating fields accepted).run env).run s).2
  rw [run_rewrite]
  generalize ((m.updating fields accepted).run env).run s = written at writes stores ⊢
  generalize (m.getByIds env (accepted.map m.type.id)).run written.2 = stored at stores ⊢
  cases value : written.1.value? with
  | none =>
      intro clean
      obtain ⟨n, there⟩ := writes clean
      rw [value] at there
      cases there
  | some n => exact fun clean => stores (List.append_eq_nil_iff.1 clean).2

private theorem delivers_remove (m : Manager ε) (accepted : List ε) :
    Delivers (m.remove env accepted) := by
  intro s clean
  obtain ⟨n, deleted⟩ := Delivers.delete env (m.deletion accepted) s clean
  exact ⟨accepted, congrArg (Option.map fun _ => accepted) deleted⟩

private theorem remove_given {accepted given : List ε}
    (there : ((m.remove env accepted).run s).1.value? = some given) : given = accepted := by
  have answered : ((m.remove env accepted).run s).1.value? =
      (((m.deletion accepted).run env).run s).1.value?.map fun _ => accepted := rfl
  rw [answered] at there
  obtain ⟨n, -, same⟩ := Option.map_eq_some_iff.1 there
  exact same.symm

theorem Serves.delivers (serves : Serves env m mutation builder op) (accepted : List ε) :
    Delivers (builder accepted) := by
  cases serves with
  | createMany => exact .mutating (Mutating.create (m.creation false false accepted) rfl)
  | bulkCreate withId => exact .mutating (Mutating.create (m.creation withId true accepted) rfl)
  | updateMany fields => exact m.delivers_rewrite fields accepted
  | deleteMany => exact m.delivers_remove accepted

private theorem Serves.delivers_op (serves : Serves env m mutation builder op) (items : List ε) :
    Delivers (op items) := by
  intro s
  rw [serves.run]
  split
  · rename_i nothing
    intro clean
    obtain ⟨given, there⟩ := serves.delivers _ _ (List.append_eq_nil_iff.1 clean).2
    rw [nothing] at there
    cases there
  · exact fun _ => ⟨_, rfl⟩

theorem Serves.run_one (serves : Serves env m mutation builder op) {item x : ε}
    (judged : verdict (s.hooks? m.number) mutation item = .ok x) :
    let done := (builder [x]).run (s.heard (m.asked (s.hooks? m.number) mutation item))
    let calls (given : List ε) := given.flatMap
      (m.calls (s.hooks? m.number) (s.observers m.number mutation) mutation)
    (op [item]).run s =
      match done.1.value? with
      | none => (⟨none, done.1.errors⟩, done.2)
      | some given => (⟨some given, done.1.errors ++ (calls given).filterMap Callback.failure?⟩,
          done.2.heard ((calls given).map Callback.event)) := by
  have ran := serves.run [item] s
  simp only [List.map_cons, List.map_nil, judged, admitted, rejected, List.flatMap_cons,
    List.flatMap_nil, List.append_nil, List.nil_append] at ran
  exact ran

/-- A mutation of one item that records no error: the hooks have let the item through, and the builder
has answered what is answered. -/
theorem Serves.one_clean (serves : Serves env m mutation builder op) {item : ε}
    (clean : ((op [item]).run s).1.errors = []) :
    ∃ x, verdict (s.hooks? m.number) mutation item = .ok x ∧
      ((builder [x]).run (s.heard (m.asked (s.hooks? m.number) mutation item))).1.errors = [] ∧
      ((op [item]).run s).1.value? =
        ((builder [x]).run (s.heard (m.asked (s.hooks? m.number) mutation item))).1.value? := by
  cases judged : verdict (s.hooks? m.number) mutation item with
  | error e =>
      have ran := serves.run [item] s
      simp only [List.map_cons, List.map_nil, judged, rejected] at ran
      rw [ran] at clean
      split at clean <;> cases clean
  | ok x =>
      refine ⟨x, rfl, ?_⟩
      rw [serves.run_one judged] at clean ⊢
      split
      · rename_i nothing
        rw [nothing] at clean
        exact ⟨clean, nothing.symm⟩
      · rename_i given there
        rw [there] at clean
        exact ⟨(List.append_eq_nil_iff.1 clean).1, there.symm⟩

private theorem Serves.nothing_back (serves : Serves env m mutation builder op) {item x : ε}
    (judged : verdict (s.hooks? m.number) mutation item = .ok x)
    (back : ((builder [x]).run (s.heard (m.asked (s.hooks? m.number) mutation item))).1 = .ok []) :
    ((op [item]).run s).1 = .ok [] := by
  rw [serves.run_one judged]
  dsimp only
  rw [back]
  rfl

theorem value_first {o : Outcome (List ε)} {list : List ε} (there : o.value? = some list) :
    (o.map List.head?).flatten.value? = list.head? := by
  rw [Outcome.flatten, Outcome.map, there]
  rfl

private theorem run_create (item : ε) : ((m.create env item).run s).1 =
    (((m.createMany env [item]).run s).1.map List.head?).flatten :=
  rfl

private theorem run_update (item : ε) (fields : List String) : ((m.update env item fields).run s).1 =
    (((m.updateMany env [item] fields).run s).1.map List.head?).flatten :=
  rfl

private theorem run_delete (item : ε) : ((m.delete env item).run s).1 =
    (((m.deleteMany env [item]).run s).1.map List.head?).flatten :=
  rfl

/-- Of one item that is to be created one comes back. -/
theorem creation_one {x : ε} {given : List ε}
    (there : (((m.creation false false [x]).run env).run s).1.value? = some given) :
    ∃ created, given = [created] := by
  rw [Create.run, Storage.run_unit] at there
  cases begun : (Storage.begin env (m.creation false false [x]).storage : Attempt σ ε _).run.run s with
  | mk result opened =>
    rw [begun] at there
    cases result with
    | error e => cases there
    | ok t =>
        dsimp only at there
        obtain ⟨added, closed⟩ := t.close_adds env
          (((m.creation false false [x]).insertWithLinks env).outcome.run opened).1
          (((m.creation false false [x]).insertWithLinks env).outcome.run opened).2
        rw [closed] at there
        obtain ⟨after, ran⟩ := Attempt.of_outcome_value there
        obtain ⟨inserted, mid, inserts, ends⟩ := Attempt.of_run_bind ran
        obtain ⟨_, last, -, same⟩ := Attempt.of_run_bind ends
        cases same
        change (([x].mapM ((m.creation false false [x]).insertOne env)).run.run opened =
          (.ok given, mid)) at inserts
        rw [List.mapM_cons] at inserts
        obtain ⟨created, next, -, others⟩ := Attempt.of_run_bind inserts
        cases others
        exact ⟨created, rfl⟩

private theorem delivers_create (m : Manager ε) (item : ε) : Delivers (m.create env item) := by
  intro s clean
  have serves : Serves env m .create (fun accepted => (m.creation false false accepted).run env)
    (m.createMany env) := .createMany
  rw [run_create, Outcome.errors_flatten, Outcome.errors_map] at clean
  obtain ⟨x, -, done, same⟩ := serves.one_clean clean
  obtain ⟨given, there⟩ := serves.delivers [x] _ done
  obtain ⟨created, rfl⟩ := creation_one there
  rw [run_create, value_first (same.trans there)]
  exact ⟨created, rfl⟩

private theorem delivers_delete (m : Manager ε) (item : ε) : Delivers (m.delete env item) := by
  intro s clean
  have serves : Serves env m .delete (m.remove env) (m.deleteMany env) := .deleteMany
  rw [run_delete, Outcome.errors_flatten, Outcome.errors_map] at clean
  obtain ⟨x, -, done, same⟩ := serves.one_clean clean
  obtain ⟨given, there⟩ := serves.delivers [x] _ done
  have back : given = [x] := remove_given there
  rw [run_delete, value_first (same.trans there), back]
  exact ⟨x, rfl⟩

/-- An entity is read back by its id exactly if one of that id was found. -/
theorem inOrder_one (type : EntityType ε) (id : Int64) (found : List ε) :
    inOrder [id] (byId type found) = [] ↔ ∀ e ∈ found, type.id e ≠ id := by
  have taken (list : List (Int64 × ε)) : inOrder [id] list = [] ↔ list.lookup id = none := by
    unfold inOrder
    cases list.lookup id <;> simp [inOrder]
  have kept (list : List (Int64 × ε)) :
      (found.foldl (fun list e => Assoc.put (type.id e) e list) list).lookup id = none ↔
        list.lookup id = none ∧ ∀ e ∈ found, type.id e ≠ id := by
    induction found generalizing list with
    | nil => simp
    | cons e rest ih =>
        rw [List.foldl_cons, ih, Assoc.lookup_put, List.forall_mem_cons]
        by_cases same : type.id e = id
        · simp [same]
        · simp [same, beq_eq_false_iff_ne.2 (Ne.symm same)]
  rw [taken, byId, kept]
  simp

/-- The item has been written, and no entity with its id is there to be read back. -/
def Lost (env : Setting σ) (m : Manager ε) (item : ε) (fields : List String) (s : State σ ε) : Prop :=
  ∃ x, verdict (s.hooks? m.number) .update item = .ok x ∧
    let written := ((m.updating fields [x]).run env).run
      (s.heard (m.asked (s.hooks? m.number) .update item))
    written.1.errors = [] ∧
      ∃ found, (((m.query.filter (m.idFilter [m.type.id x])).run env).run written.2).1 = .ok found ∧
        ∀ e ∈ found, m.type.id e ≠ m.type.id x

theorem run_getByIds (ids : List Int64) (s : State σ ε) : ((m.getByIds env ids).run s).1 =
    (((m.query.filter (m.idFilter ids)).run env).run s).1.map fun found =>
      inOrder ids (byId m.type found) := by
  unfold getByIds
  generalize (m.query.filter (m.idFilter ids)).run env = found
  rfl

private theorem run_rewrite_one {fields : List String} {x : ε}
    (clean : (((m.updating fields [x]).run env).run s).1.errors = []) :
    ((m.rewrite env fields [x]).run s).1 =
      ((((m.query.filter (m.idFilter [m.type.id x])).run env).run
        (((m.updating fields [x]).run env).run s).2).1.map fun found =>
          inOrder [m.type.id x] (byId m.type found)) := by
  obtain ⟨n, there⟩ := Delivers.update env (m.updating fields [x]) s clean
  rw [run_rewrite, there, clean]
  dsimp only
  rw [List.map_singleton, run_getByIds, List.nil_append]

private theorem rewrite_clean {fields : List String} {x : ε}
    (clean : ((m.rewrite env fields [x]).run s).1.errors = []) :
    (((m.updating fields [x]).run env).run s).1.errors = [] := by
  rw [run_rewrite] at clean
  split at clean
  · exact clean
  · exact (List.append_eq_nil_iff.1 clean).1

/-- An update gives neither an item nor an error exactly if the item's row is gone. -/
theorem update_missing_iff (m : Manager ε) (item : ε) (fields : List String) (s : State σ ε) :
    ((m.update env item fields).run s).1.errors = [] ∧
        ((m.update env item fields).run s).1.value? = none ↔
      m.Lost env item fields s := by
  have serves : Serves env m .update (m.rewrite env fields)
    (fun items => m.updateMany env items fields) := .updateMany fields
  rw [run_update, Outcome.errors_flatten, Outcome.errors_map]
  constructor
  · rintro ⟨clean, nothing⟩
    obtain ⟨x, judged, done, same⟩ := serves.one_clean clean
    obtain ⟨given, there⟩ := serves.delivers [x] _ done
    have written := rewrite_clean done
    have empty : given = [] := by
      rw [value_first (same.trans there)] at nothing
      exact List.head?_eq_none_iff.1 nothing
    rw [run_rewrite_one written, Outcome.errors_map] at done
    rw [run_rewrite_one written, empty] at there
    obtain ⟨found, read⟩ := Delivers.query env
      (m.query.filter (m.idFilter [m.type.id x])) _ done
    have gone : inOrder [m.type.id x] (byId m.type found) = [] := by
      rw [Outcome.map, read] at there
      exact Option.some.inj there
    exact ⟨x, judged, written, found, Outcome.eq_ok done read, (inOrder_one _ _ _).1 gone⟩
  · rintro ⟨x, judged, written, found, read, gone⟩
    have back : ((m.rewrite env fields [x]).run
        (s.heard (m.asked (s.hooks? m.number) .update item))).1 = .ok [] := by
      rw [run_rewrite_one written, read, ← (inOrder_one m.type _ found).2 gone]
      rfl
    have ended : ((m.updateMany env [item] fields).run s).1 = .ok [] := serves.nothing_back judged back
    rw [ended]
    exact ⟨rfl, rfl⟩

end Manager

/-! ### Databases -/

namespace Database

variable {db : DatabaseId} {s : State σ ε}

theorem run_withManager (type : EntityType ε) (call : Manager ε → Engine σ ε (Outcome α))
    (s : State σ ε) :
    (withManager db type call).run s =
      match (s.database db).registry.manager type with
      | .ok m => (call m).run s
      | .error e => (.ofError e, s) := by
  have looked : (manager db type : Attempt σ ε _).run.run s =
      (Attempt.ofResult ((s.database db).registry.manager type) : Attempt σ ε _).run.run s := rfl
  rw [withManager, Engine.run_bind, looked]
  cases (s.database db).registry.manager type <;> rfl

private theorem delivers_withManager (type : EntityType ε) {call : Manager ε → Engine σ ε (Outcome α)}
    (each : ∀ m, Delivers (call m)) : Delivers (withManager db type call) := by
  intro s
  rw [run_withManager]
  cases (s.database db).registry.manager type with
  | ok m => exact each m s
  | error e => exact Outcome.whole_ofError _

private theorem delivers_handOver (resolved : Attempt σ ε (Resolved ε))
    {call : Resolved ε → Engine σ ε (Outcome α)} (each : ∀ r, Delivers (call r)) :
    Delivers (handOver resolved call) := by
  refine Delivers.after resolved.run fun result => ?_
  cases result with
  | ok r => exact each r
  | error e => exact Delivers.error _

theorem delivers_resolved (r : Resolved ε) (operation : Operation)
    {call : Manager ε → Engine σ ε (Outcome α)} (each : ∀ m, Delivers (call m)) :
    Delivers (r.withManager operation call) := by
  unfold Resolved.withManager
  split
  · exact each _
  · exact Delivers.error _

private theorem delivers_entity (r : Resolved ε) (operation : Operation) (boxed : BoxedEntity ε)
    {call : Manager ε → ε → Engine σ ε (Outcome α)} (each : ∀ m item, Delivers (call m item)) :
    Delivers (r.withEntity operation boxed call) := by
  refine delivers_resolved r operation fun m => ?_
  split
  · exact each m _
  · exact Delivers.error _

/-- The calls whose value a session requires, with the states in which they give neither a value nor an
error. -/
inductive Required (env : Setting σ) (db : DatabaseId) : {α β : Type} → DatabaseCall σ ε α β →
    (State σ ε → Prop) → Prop
  | getAll (type : EntityType ε) : Required env db (typed type .getAll) fun _ => False
  | getByIds (type : EntityType ε) (ids : List Int64) :
      Required env db (typed type (.getByIds ids)) fun _ => False
  | filter (type : EntityType ε) (p : Predicate) :
      Required env db (typed type (.filter p)) fun _ => False
  | referencing (type : EntityType ε) (target : EntityModel) (ids : List Int64) :
      Required env db (typed type (.referencing target ids)) fun _ => False
  | exist (type : EntityType ε) (p : Predicate) :
      Required env db (typed type (.exist p)) fun _ => False
  | create (type : EntityType ε) (item : ε) :
      Required env db (typed type (.create item)) fun _ => False
  | bulkCreate (type : EntityType ε) (items : List ε) (withId : Bool) :
      Required env db (typed type (.bulkCreate items withId)) fun _ => False
  | update (type : EntityType ε) (item : ε) (fields : List String) :
      Required env db (typed type (.update item fields)) fun s =>
        ∃ m, (s.database db).registry.manager type = .ok m ∧ m.Lost env item fields s
  | delete (type : EntityType ε) (item : ε) :
      Required env db (typed type (.delete item)) fun _ => False
  | dynGetAll (path : String) : Required env db (dynGetAll path) fun _ => False
  | dynFilter (path : String) (p : Predicate) : Required env db (dynFilter path p) fun _ => False
  | dynCreate (boxed : BoxedEntity ε) : Required env db (dynCreate boxed) fun _ => False

theorem missing_of_delivers {c : Engine σ ε (Outcome α)} (delivers : Delivers c) (s : State σ ε) :
    ((c.run s).1.errors = [] ∧ (c.run s).1.value? = none) ↔ False := by
  refine ⟨fun ⟨clean, nothing⟩ => ?_, False.elim⟩
  obtain ⟨a, there⟩ := delivers s clean
  rw [nothing] at there
  cases there

private theorem Required.missing_iff {c : DatabaseCall σ ε α β} {lost : State σ ε → Prop}
    (required : Required env db c lost) (s : State σ ε) :
    (((c.run env db).run s).1.errors = [] ∧ ((c.run env db).run s).1.value? = none) ↔ lost s := by
  cases required with
  | getAll type =>
      exact missing_of_delivers (delivers_withManager type fun m => Delivers.query _ m.query) s
  | getByIds type ids =>
      exact missing_of_delivers (delivers_withManager type fun m => m.delivers_getByIds _ ids) s
  | filter type p => exact missing_of_delivers (delivers_withManager type fun m => Delivers.query _ _) s
  | referencing type target ids =>
      exact missing_of_delivers (delivers_withManager type fun m => m.delivers_referencing target ids) s
  | exist type p => exact missing_of_delivers (delivers_withManager type fun m => Delivers.exist _) s
  | create type item =>
      exact missing_of_delivers (delivers_withManager type fun m => m.delivers_create item) s
  | bulkCreate type items withId =>
      exact missing_of_delivers (delivers_withManager type fun m =>
        (Manager.Serves.bulkCreate withId).delivers_op items) s
  | update type item fields =>
      show (((withManager db type fun m => m.update env item fields).run s).1.errors = [] ∧
        ((withManager db type fun m => m.update env item fields).run s).1.value? = none) ↔ _
      rw [run_withManager]
      cases looked : (s.database db).registry.manager type with
      | ok m =>
          refine (m.update_missing_iff item fields s).trans ⟨fun lost => ⟨m, looked, lost⟩, ?_⟩
          rintro ⟨_, found, lost⟩
          cases looked.symm.trans found
          exact lost
      | error e =>
          refine ⟨fun clean => ?_, fun ⟨_, found, _⟩ => ?_⟩
          · cases clean.1
          · cases looked.symm.trans found
  | delete type item =>
      exact missing_of_delivers (delivers_withManager type fun m => m.delivers_delete item) s
  | dynGetAll path =>
      exact missing_of_delivers (delivers_handOver _ fun r =>
        delivers_resolved r .getAll fun m => (Delivers.query _ m.query).map _) s
  | dynFilter path p =>
      exact missing_of_delivers (delivers_handOver _ fun r =>
        delivers_resolved r .filter fun m => (Delivers.query env _).map _) s
  | dynCreate boxed =>
      exact missing_of_delivers (delivers_handOver _ fun r =>
        delivers_entity r .create boxed fun m item => (m.delivers_create item).map _) s

end Database

namespace Session

variable {db : DatabaseId}

private theorem delivers_migration (m : Migration.Migrator σ ε)
    (units : List Migration.MigrationUnit) :
    Delivers (m.run env db units) := by
  refine Delivers.after (m.prepare env).run fun prepared => ?_
  cases prepared with
  | error e => exact fun _ _ => ⟨[], rfl⟩
  | ok _ =>
      dsimp only
      split
      · exact fun _ _ => ⟨[], rfl⟩
      · exact Delivers.after _ fun _ _ _ => ⟨_, rfl⟩

/-- The replies that are the value of an outcome, which has to be there, each with the computation that
gives the outcome and the states in which it gives neither a value nor an error. -/
inductive Requires (env : Setting σ) (db : DatabaseId) : {α : Type} → Engine σ ε (Reply α) →
    Engine σ ε (Outcome α) → (State σ ε → Prop) → Prop
  | ask {α β : Type} {c : DatabaseCall σ ε α β} {lost : State σ ε → Prop}
      (required : Database.Required env db c lost) : Requires env db (ask env db c) (c.run env db) lost
  | migrate (units : List Migration.MigrationUnit) :
      Requires env db (migrate env db units)
        (do (← Migration.Migrator.ofDatabase env db).run env db units) fun _ => False

theorem Requires.missing_iff {reply : Engine σ ε (Reply α)} {c : Engine σ ε (Outcome α)}
    {lost : State σ ε → Prop} (requires : Requires env db reply c lost) (s : State σ ε) :
    ((c.run s).1.errors = [] ∧ (c.run s).1.value? = none) ↔ lost s := by
  cases requires with
  | ask required => exact required.missing_iff s
  | migrate units =>
      exact Database.missing_of_delivers (Delivers.after _ fun m => delivers_migration m units) s

theorem Requires.run_reply {reply : Engine σ ε (Reply α)} {c : Engine σ ε (Outcome α)}
    {lost : State σ ε → Prop} (requires : Requires env db reply c lost) (s : State σ ε) :
    reply.run s = (required (c.run s).1, (c.run s).2) := by
  cases requires <;> rfl

/-- **A session passes on the errors of the engine**, and makes up one of its own exactly where an item
that has been updated is not there to be read back: elsewhere the reply is a value if the engine has
recorded no error, and else shows the errors that it has recorded. -/
theorem reply_passes_on_errors {reply : Engine σ ε (Reply α)} {c : Engine σ ε (Outcome α)}
    {lost : State σ ε → Prop} (requires : Requires env db reply c lost) (s : State σ ε) :
    let o := (c.run s).1
    (¬ lost s →
      (∃ a, o.errors = [] ∧ o.value? = some a ∧ (reply.run s).1 = .ok a) ∨
        o.errors ≠ [] ∧ (reply.run s).1 = .error (.ofErrors o.errors)) ∧
    (lost s → o.errors = [] ∧ o.value? = none ∧
      (reply.run s).1 = .error ⟨.internal, .query, "operation failed"⟩) := by
  have missing := requires.missing_iff s
  rw [requires.run_reply]
  generalize (c.run s).1 = o at missing ⊢
  obtain ⟨value?, errors⟩ := o
  cases errors with
  | cons e rest =>
      refine ⟨fun _ => .inr ⟨List.cons_ne_nil e rest, rfl⟩, fun lost => ?_⟩
      cases (missing.2 lost).1
  | nil =>
      cases value? with
      | some a =>
          refine ⟨fun _ => .inl ⟨a, rfl, rfl, rfl⟩, fun lost => ?_⟩
          cases (missing.2 lost).2
      | none => exact ⟨fun held => absurd (missing.1 ⟨rfl, rfl⟩) held, fun _ => ⟨rfl, rfl, rfl⟩⟩

/-! ### A note that is updated -/

def notes : EntityType Record := twoNotes.type

def note : Record where
  id := 7
  values := [("body", .text "second")]

def shelf (written : Nat) (rows : List Row) : State Scripts Record :=
  ((Database.registerNode 0 notes 0 none).run
    { outside := ⟨fun _ => { execute := [.ok written], query := [.ok rows] }⟩ }).2

/-- A note whose row is there comes back. -/
theorem stored_note_comes_back :
    let row : Row := ⟨[("id", .int 7), ("body", .text "second")]⟩
    let update := Database.typed notes (.update note ["body"])
    let lost (s : State Scripts Record) :=
      ∃ m, (s.database 0).registry.manager notes = .ok m ∧ m.Lost Party.scripted note ["body"] s
    Requires Party.scripted 0 (ask Party.scripted 0 update) (update.run Party.scripted 0) lost ∧
      ¬ lost (shelf 1 [row]) ∧
      ∃ a, ((ask Party.scripted 0 update).run (shelf 1 [row])).1 = .ok a := by
  intro row update lost
  have requires : Requires Party.scripted 0 (ask Party.scripted 0 update)
      (update.run Party.scripted 0) lost := .ask (.update notes note ["body"])
  have clean : ((update.run Party.scripted 0).run (shelf 1 [row])).1.isSuccess = true := by
    decide +kernel
  have answered : ((update.run Party.scripted 0).run (shelf 1 [row])).1.value?.isSome = true := by
    decide +kernel
  have there : ¬ lost (shelf 1 [row]) := by
    intro gone
    rw [((requires.missing_iff _).2 gone).2] at answered
    cases answered
  refine ⟨requires, there, ?_⟩
  rcases (reply_passes_on_errors requires (shelf 1 [row])).1 there with ⟨a, -, -, replied⟩ | ⟨failed, -⟩
  · exact ⟨a, replied⟩
  · exact absurd ((Outcome.isSuccess_iff _).1 clean) failed

/-- A note whose row is gone is updated without an error, and the session makes one up. -/
theorem gone_note_is_an_error :
    let update := Database.typed notes (.update note ["body"])
    let o := ((update.run Party.scripted 0).run (shelf 0 [])).1
    o.errors = [] ∧ o.value? = none ∧
      ((ask Party.scripted 0 update).run (shelf 0 [])).1 =
        .error ⟨.internal, .query, "operation failed"⟩ := by
  intro update o
  have clean : o.errors = [] := (Outcome.isSuccess_iff o).1 (by decide +kernel)
  have missing : o.value? = none := Option.isNone_iff_eq_none.1 (by decide +kernel)
  have requires : Requires Party.scripted 0 (ask Party.scripted 0 update)
      (update.run Party.scripted 0) _ := .ask (.update notes note ["body"])
  have replied : ((ask Party.scripted 0 update).run (shelf 0 [])).1 = required o := by
    rw [requires.run_reply]
  refine ⟨clean, missing, ?_⟩
  rw [replied, required, Outcome.toExcept, clean, missing]
  rfl

end Session

end EntityStore
