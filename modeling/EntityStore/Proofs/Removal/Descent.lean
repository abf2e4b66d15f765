import EntityStore.Proofs.Removal.Closure

/-!
The descent of a removal along cascades, on a database that does what it is asked. Each call makes
progress: by induction on the depth it is given, for the rows that it finds are removed to a smaller
depth, and on the rows found, for each of them is removed after those before it.
-/

namespace EntityStore

namespace Removal

open Tables

variable {σ ε α β : Type} {env : Setting σ} {i : StorageId} {view : σ → Tables}
  {models : List EntityModel} {D : Tables}

private theorem runs_mapM {f : α → Attempt σ ε β} {P : α → β → Prop} {xs : List α}
    (each : ∀ x ∈ xs, ∃ y, Runs view (f x) D [] y ∧ P x y) :
    ∃ ys, Runs view (xs.mapM f) D [] ys ∧ (∀ x ∈ xs, ∃ y ∈ ys, P x y)
      ∧ ∀ y ∈ ys, ∃ x ∈ xs, P x y := by
  induction xs with
  | nil =>
      refine ⟨[], runs_pure [], ?_, ?_⟩
      · intro x member
        cases member
      · intro y member
        cases member
  | cons x rest ih =>
      obtain ⟨y, ran, holds⟩ := each x List.mem_cons_self
      obtain ⟨ys, ranRest, left, right⟩ :=
        ih fun other member => each other (List.mem_cons_of_mem x member)
      refine ⟨y :: ys, ?_, ?_, ?_⟩
      · rw [List.mapM_cons]
        exact Runs.after ran (Runs.returning (fun ys => y :: ys) ranRest)
      · intro other member
        rcases List.mem_cons.1 member with rfl | later
        · exact ⟨y, List.mem_cons_self, holds⟩
        · obtain ⟨z, among, related⟩ := left other later
          exact ⟨z, List.mem_cons_of_mem y among, related⟩
      · intro z member
        rcases List.mem_cons.1 member with rfl | later
        · exact ⟨x, List.mem_cons_self, holds⟩
        · obtain ⟨other, among, related⟩ := right z later
          exact ⟨other, List.mem_cons_of_mem x among, related⟩

/-! ### The statements of one call -/

section

variable (obeys : Obeys (env.provider i) view (Named env.schema models))

include obeys

theorem runs_justified {gone : RowKey → Prop} {commands : List Command}
    (justified : ∀ c ∈ commands, Justified env.schema models gone c) :
    Runs view (Storage.executeAll env i (commands.map (·.template (Storage.dialect env i))) :
      Attempt σ ε Unit) D commands () :=
  runs_executeAll obeys commands fun c member => (justified c member).named

theorem runs_clearLinks (registered : Registered env.schema models) {m : EntityModel}
    (known : m ∈ models) (ids : List Int64) :
    Runs view (Storage.executeAll env i
      ((linkTables env.schema models).flatMap (clearLinks (Storage.dialect env i) m ids)) :
        Attempt σ ε Unit) D (linkDeletions env.schema models m ids) () := by
  have justified : ∀ c ∈ linkDeletions env.schema models m ids,
      Justified env.schema models (fun _ => True) c :=
    linkDeletions_justified registered known fun _ _ => trivial
  rw [linkDeletions_templates]
  exact runs_justified obeys justified

private theorem runs_levels (ids : List Int64) {levels : List EntityModel}
    (known : ∀ level ∈ levels, level ∈ models) (n : Nat) :
    ∃ n', Runs view (levels.foldlM (deleteLevel env i ids) n : Attempt σ ε Nat) D
      (levels.map (rowDeletion ids)) n' := by
  induction levels generalizing D n with
  | nil => exact ⟨n, runs_pure n⟩
  | cons level rest ih =>
      have named : Named env.schema models level.table level.primaryKey :=
        .key level (known level List.mem_cons_self)
      have first : Runs view (deleteLevel env i ids n level : Attempt σ ε Nat) D
          [rowDeletion ids level] _ := runs_command obeys (rowDeletion ids level) named
      obtain ⟨n', later⟩ := ih (fun other member => known other (List.mem_cons_of_mem level member)) _
      exact ⟨n', Runs.bind first later⟩

/-- The levels of a chain are emptied of the ids, and the rows of the root are counted. -/
theorem runs_deleteLevels (registered : Registered env.schema models) {m : EntityModel}
    (known : m ∈ models) (ids : List Int64) {below : List EntityModel}
    (chain : m.chain = below ++ [m.root]) :
    Runs view (deleteLevels env i m ids : Attempt σ ε Nat) D (m.chain.map (rowDeletion ids))
      ((D.run (below.map (rowDeletion ids))).touched (rowDeletion ids m.root)) := by
  have belowKnown : ∀ level ∈ below, level ∈ models := fun level member =>
    registered.ancestors m known level (chain ▸ List.mem_append_left _ member)
  have named : Named env.schema models m.root.table m.root.primaryKey :=
    .key m.root (registered.ancestors m known _ m.root_mem_chain)
  obtain ⟨n, first⟩ := runs_levels (ε := ε) (D := D) obeys ids belowKnown 0
  have last : Runs view (deleteLevel env i ids n m.root : Attempt σ ε Nat)
      (D.run (below.map (rowDeletion ids))) [rowDeletion ids m.root] _ :=
    runs_command obeys (rowDeletion ids m.root) named
  unfold deleteLevels
  rw [chain, List.foldlM_append, List.map_append]
  exact Runs.bind first (Runs.returning (fun n => n) last)

end

/-! ### The rows that are found -/

/-- What is found through a relation to some ids: rows that point to one of them, and all of these
whose keys do not go anyway. -/
structure Finds (D : Tables) (gone : RowKey → Prop) (ids : List Int64) (r : Reference)
    (found : EntityModel × List Int64) : Prop where
  level : found.1 = r.level
  points : ∀ id ∈ found.2, ∃ row ∈ D r.level.table, row r.level.primaryKey = .int id
    ∧ ∃ pointed ∈ ids, row r.column = .int pointed
  complete : ∀ row ∈ D r.level.table, ∀ id, row r.level.primaryKey = .int id →
    ∀ pointed ∈ ids, row r.column = .int pointed → gone (r.level.root.table, id) ∨ id ∈ found.2

private theorem exists_ids {key : String} {rows : List Cells}
    (keyed : ∀ row ∈ rows, ∃ id : Int64, row key = .int id) :
    ∃ ids : List Int64, rows.map (· key) = ids.map .int := by
  induction rows with
  | nil => exact ⟨[], rfl⟩
  | cons row rest ih =>
      obtain ⟨id, own⟩ := keyed row List.mem_cons_self
      obtain ⟨ids, later⟩ := ih fun other member => keyed other (List.mem_cons_of_mem row member)
      refine ⟨id :: ids, ?_⟩
      rw [List.map_cons, List.map_cons, own, later]

private theorem runs_referencing (registered : Registered env.schema models)
    (unambiguous : ∀ m ∈ models, m.Unambiguous) (typed : Typed env.schema models D)
    (obeys : Obeys (env.provider i) view (Named env.schema models))
    {made : List Command} {gone : RowKey → Prop}
    (justified : ∀ c ∈ made, Justified env.schema models gone c) (ids : List Int64) {r : Reference}
    {c : Column} {target : ModelRef} (declares : Declares models r.level c target .cascade)
    (name : c.name = r.column) :
    ∃ found, Runs view (referencing env i ids r : Attempt σ ε _) (D.run made) [] found
      ∧ Finds D gone ids r found := by
  have keyed : ∀ row ∈ (D.run made).selected r.level.table r.column ids,
      ∃ id, row r.level.primaryKey = .int id := by
    intro row member
    obtain ⟨id, own, -⟩ := ids_of_run registered unambiguous justified typed declares.registered
      (List.mem_filter.1 member).1
    exact ⟨id, own⟩
  obtain ⟨found, same⟩ := exists_ids keyed
  have hasKey : Named env.schema models r.level.table r.level.primaryKey :=
    .key r.level declares.registered
  have hasColumn : Named env.schema models r.level.table r.column :=
    name ▸ .relation r.level c target .cascade declares
  have asked := runs_query (ε := ε) (i := i) obeys ids hasKey hasColumn same
  refine ⟨(r.level, found), ?_, rfl, ?_, ?_⟩
  · have whole := Runs.returning (fun found => (r.level, found)) asked
    rwa [bind_assoc] at whole
  · intro id member
    have value : Value.int id ∈ ((D.run made).selected r.level.table r.column ids).map
        (· r.level.primaryKey) := same ▸ List.mem_map_of_mem member
    obtain ⟨row, selected, own⟩ := List.mem_map.1 value
    rw [← name] at selected ⊢
    obtain ⟨before, stored, key, pointed, among, points⟩ :=
      found_points registered unambiguous justified declares selected
    exact ⟨before, stored, key.trans own, pointed, among, points⟩
  · intro row stored id own pointed among points
    rw [← name] at points
    rcases found_or_gone registered unambiguous justified declares stored own among points with
      goes | ⟨after, selected, key⟩
    · exact Or.inl goes
    · rw [name] at selected
      have value : Value.int id ∈ found.map Value.int :=
        same ▸ List.mem_map.2 ⟨after, selected, key⟩
      obtain ⟨other, member, equal⟩ := List.mem_map.1 value
      cases equal
      exact Or.inr member

/-! ### One call after another -/

/-- What a call is asked to remove: rows that are there, and that have to go. -/
structure Asked (schema : Schema) (models : List EntityModel) (D : Tables) (origin : EntityModel)
    (given : List Int64) (m : EntityModel) (ids : List Int64) : Prop where
  known : m ∈ models
  occurs : ∀ id ∈ ids, Occurs D m id
  doomed : ∀ id ∈ ids, Doomed schema models D origin given (m.root.table, id)

theorem Asked.unhandled {schema : Schema} {origin m : EntityModel}
    {given ids new : List Int64} (asked : Asked schema models D origin given m ids)
    {visited keys : List RowKey} (notes : Notes m.root.table ids visited new keys) :
    Asked schema models D origin given m new where
  known := asked.known
  occurs id among := asked.occurs id (notes.unhandled id among).1
  doomed id among := asked.doomed id (notes.unhandled id among).1

/-- A call to this depth makes progress, wherever the removal stands, if the depth is enough for
all keys that have not been handled. -/
def Descends (ε : Type) (env : Setting σ) (i : StorageId) (view : σ → Tables)
    (models : List EntityModel) (D : Tables) (origin : EntityModel) (given : List Int64)
    (depth : Nat) : Prop :=
  ∀ m ids visited made, Asked env.schema models D origin given m ids →
    Handled env.schema models D origin given visited made →
    models.length * UInt64.size < depth + visited.length →
    ∃ n added more,
      Runs view (remove env i models depth m ids visited : Attempt σ ε _) (D.run made) more
        (n, added ++ visited)
      ∧ Progress env.schema models D origin given visited added more
      ∧ (∀ id ∈ ids, (m.root.table, id) ∈ added ++ visited)
      ∧ n = (D m.root.table).countP fun r =>
        holds (fresh m.root.table ids visited).1 (r m.root.primaryKey)

section

variable {origin : EntityModel} {given : List Int64} {depth : Nat}

theorem follow (descends : Descends ε env i view models D origin given depth)
    {cascades : List (EntityModel × List Int64)}
    (asked : ∀ x ∈ cascades, Asked env.schema models D origin given x.1 x.2)
    {visited : List RowKey} {made : List Command}
    (handled : Handled env.schema models D origin given visited made)
    (deep : models.length * UInt64.size < depth + visited.length) :
    ∃ added more,
      Runs view (cascades.foldlM (fun visited (level, found) => do
          return (← remove env i models depth level found visited).2) visited :
        Attempt σ ε (List RowKey)) (D.run made) more (added ++ visited)
      ∧ Progress env.schema models D origin given visited added more
      ∧ ∀ x ∈ cascades, ∀ id ∈ x.2, (x.1.root.table, id) ∈ added ++ visited := by
  induction cascades generalizing visited made with
  | nil =>
      refine ⟨[], [], runs_pure visited, Progress.none handled.distinct, ?_⟩
      intro x member
      cases member
  | cons x rest ih =>
      obtain ⟨n, added, more, ran, progress, covered, -⟩ :=
        descends x.1 x.2 visited made (asked x List.mem_cons_self) handled deep
      have wider : models.length * UInt64.size < depth + (added ++ visited).length := by
        rw [List.length_append]
        omega
      obtain ⟨later, others, ranRest, progressRest, coveredRest⟩ :=
        ih (fun y member => asked y (List.mem_cons_of_mem x member)) (handled.progress progress)
          wider
      refine ⟨later ++ added, more ++ others, ?_, progress.append progressRest, ?_⟩
      · rw [List.foldlM_cons, List.append_assoc]
        rw [Tables.run_append] at ranRest
        exact Runs.bind (Runs.returning (fun result => result.2) ran) ranRest
      · intro y member id among
        rw [List.append_assoc]
        rcases List.mem_cons.1 member with rfl | after
        · exact List.mem_append_right later (covered id among)
        · exact coveredRest y after id among

private theorem runs_nothing {m : EntityModel} {ids : List Int64} {visited noted : List RowKey}
    (handled : fresh m.root.table ids visited = ([], noted)) :
    Runs view (remove env i models (depth + 1) m ids visited : Attempt σ ε _) D [] (0, noted) := by
  unfold remove
  rw [handled]
  exact runs_pure (0, noted)

theorem runs_remove (registered : Registered env.schema models)
    (obeys : Obeys (env.provider i) view (Named env.schema models)) {m : EntityModel}
    (known : m ∈ models) {ids new : List Int64} {visited noted after : List RowKey}
    (unhandled : fresh m.root.table ids visited = (new, noted)) (some : new.isEmpty = false)
    {cascades : List (EntityModel × List Int64)}
    (gathered : Runs view (((references env.schema models m).filter (·.onDelete = .cascade)).mapM
        (referencing env i new) : Attempt σ ε _)
      (D.run (linkDeletions env.schema models m new)) [] cascades)
    {more : List Command}
    (followed : Runs view (cascades.foldlM (fun visited (level, found) => do
          return (← remove env i models depth level found visited).2) noted :
        Attempt σ ε (List RowKey)) (D.run (linkDeletions env.schema models m new)) more after)
    {below : List EntityModel} (chain : m.chain = below ++ [m.root]) :
    Runs view (remove env i models (depth + 1) m ids visited : Attempt σ ε _) D
      (commandsFor env.schema models m new more m.chain)
      ((D.run (commandsFor env.schema models m new more below)).touched (rowDeletion new m.root),
        after) := by
  have empties : ∀ c ∈ emptyings env.schema models m new,
      Justified env.schema models (fun _ => True) c :=
    emptyings_justified registered known fun _ _ => trivial
  have lower : ∀ c ∈ deletionsBelow models m new, Justified env.schema models (fun _ => True) c :=
    deletionsBelow_justified registered known fun _ _ => trivial
  have links := runs_clearLinks (ε := ε) (i := i) (D := D) obeys registered known new
  unfold remove
  rw [unhandled]
  simp only [commandsFor, some, Bool.false_eq_true, if_false, emptyings_templates,
    deletionsBelow_templates, Tables.run_append]
  refine Runs.bind links (Runs.after gathered (Runs.bind followed ?_))
  refine Runs.bind (runs_justified obeys empties) (Runs.bind (runs_justified obeys lower) ?_)
  exact Runs.returning (fun n => (n, after))
    (runs_deleteLevels obeys registered known new chain)

/-! ### A call makes progress -/

/-- What is found through a cascading relation is there and has to go. -/
theorem Finds.asked {r : Reference} {c : Column} {target : ModelRef}
    (declares : Declares models r.level c target .cascade) (name : c.name = r.column)
    {schema : Schema} {m : EntityModel} {gone : RowKey → Prop} {new : List Int64}
    (roots : (schema.model target).root = m.root)
    (doomed : ∀ id ∈ new, Doomed schema models D origin given (m.root.table, id))
    {x : EntityModel × List Int64} (finds : Finds D gone new r x) :
    Asked schema models D origin given x.1 x.2 := by
  rw [finds.level]
  refine ⟨declares.registered, ?_, ?_⟩
  · intro id member
    obtain ⟨row, stored, own, -⟩ := finds.points id member
    exact ⟨row, stored, own⟩
  · intro id member
    obtain ⟨row, stored, own, pointed, among, points⟩ := finds.points id member
    rw [← name] at points
    exact .cascades r.level c target declares row stored id pointed own points
      (roots ▸ doomed pointed among)

variable (registered : Registered env.schema models) (unambiguous : ∀ m ∈ models, m.Unambiguous)
  (typed : Typed env.schema models D)

include registered unambiguous typed

/-- Ids are closed off once all that is found to point to them has been handled. -/
theorem closed_of_found {m : EntityModel} (known : m ∈ models) {new : List Int64}
    {noted handled : List RowKey} (noting : ∀ key ∈ noted, key ∈ handled)
    {cascades : List (EntityModel × List Int64)}
    (found : ∀ r ∈ (references env.schema models m).filter (·.onDelete = .cascade),
      ∃ x ∈ cascades, Finds D (· ∈ noted) new r x)
    (covered : ∀ x ∈ cascades, ∀ id ∈ x.2, (x.1.root.table, id) ∈ handled) {id : Int64}
    (among : id ∈ new) (occurs : Occurs D m id) :
    Closed env.schema models D handled (m.root.table, id) := by
  intro level c target declares roots row stored points own key
  have targetOccurs : Occurs D (env.schema.model target) id := by
    rcases typed.relations level c target _ declares row stored with missing | ⟨other, value, occurs⟩
    · rw [missing] at points
      cases points
    · rw [value] at points
      cases points
      exact occurs
  have line := line_of_occurs registered typed known occurs
    (registered.declares_target declares) roots targetOccurs
  have reference := registered.references_complete unambiguous known declares line
  obtain ⟨x, member, finds⟩ :=
    found _ (List.mem_filter.2 ⟨reference, decide_eq_true rfl⟩)
  rcases finds.complete row stored own key id among points with goes | more
  · exact noting _ goes
  · have handledHere := covered x member own more
    rw [finds.level] at handledHere
    exact handledHere

omit typed in
private theorem count_of_root {m : EntityModel} (known : m ∈ models) {new : List Int64}
    {below : List EntityModel} (chain : m.chain = below ++ [m.root]) (absent : m.root ∉ below)
    {made more : List Command} {before later : RowKey → Prop}
    (madeBefore : ∀ c ∈ made, Justified env.schema models before c)
    (madeLater : ∀ c ∈ more, Justified env.schema models later c)
    (unhandled : ∀ id ∈ new, ¬ before (m.root.table, id) ∧ ¬ later (m.root.table, id)) :
    ((D.run made).run (commandsFor env.schema models m new more below)).touched
        (rowDeletion new m.root) =
      (D m.root.table).countP fun r => holds new (r m.root.primaryKey) := by
  have rootKnown := registered.ancestors m known _ m.root_mem_chain
  have rootOfRoot : m.root.root = m.root := EntityModel.root_of_mem_chain m.root_mem_chain
  have justified : ∀ c ∈ made ++ commandsFor env.schema models m new more below,
      Justified env.schema models (fun _ => True) c := by
    intro c member
    rcases List.mem_append.1 member with first | second
    · exact (madeBefore c first).mono fun _ _ => trivial
    · refine commandsFor_justified registered known (fun _ _ => trivial) ?_ ?_ c second
      · intro level among
        exact chain ▸ List.mem_append_left _ among
      · intro c among
        exact (madeLater c among).mono fun _ _ => trivial
  rw [← Tables.run_append, rowDeletion, touched_delete]
  refine count_of_run registered unambiguous justified rootKnown ?_
  intro others member id among unhandledId
  rcases List.mem_append.1 member with first | second
  · obtain ⟨-, all⟩ := deletes_level registered madeBefore rootKnown first
    have goes := all id among
    rw [rootOfRoot] at goes
    exact (unhandled id unhandledId).1 goes
  · have cascaded := spares_root registered known chain absent second
    obtain ⟨-, all⟩ := deletes_level registered madeLater rootKnown cascaded
    have goes := all id among
    rw [rootOfRoot] at goes
    exact (unhandled id unhandledId).2 goes

/-- What a call adds is what it has not handled and what its cascades add. -/
theorem progress_of_call {m : EntityModel} {ids new : List Int64}
    (asked : Asked env.schema models D origin given m ids) {visited keys added : List RowKey}
    {more : List Command} (notes : Notes m.root.table ids visited new keys)
    (cascades : Progress env.schema models D origin given (keys ++ visited) added more)
    (closed : ∀ key ∈ keys, Closed env.schema models D (added ++ (keys ++ visited)) key) :
    Progress env.schema models D origin given visited (added ++ keys)
      (commandsFor env.schema models m new more m.chain) where
  distinct := by
    rw [List.append_assoc]
    exact cascades.distinct
  doomed key member := by
    rcases List.mem_append.1 member with later | here
    · exact cascades.doomed key later
    · obtain ⟨id, among, rfl⟩ := (notes.mem_keys key).1 here
      exact (asked.unhandled notes).doomed id among
  justified c member := by
    have own : ∀ id ∈ new, (m.root.table, id) ∈ added ++ keys := fun id among =>
      List.mem_append_right added ((notes.mem_keys _).2 ⟨id, among, rfl⟩)
    refine commandsFor_justified registered asked.known own (fun _ onChain => onChain) ?_ c member
    intro c among
    exact (cascades.justified c among).mono fun key known => List.mem_append_left keys known
  settled key member := by
    rcases List.mem_append.1 member with later | here
    · refine (cascades.settled key later).mono fun c among => ?_
      exact mem_commandsFor.2 (Or.inr (Or.inl among))
    · obtain ⟨id, among, rfl⟩ := (notes.mem_keys key).1 here
      exact commandsFor_settle registered typed asked.known
        ((asked.unhandled notes).occurs id among) unambiguous among more
  closed key member := by
    rw [List.append_assoc]
    rcases List.mem_append.1 member with later | here
    · exact cascades.closed key later
    · exact closed key here

omit unambiguous typed in
theorem Handled.noting {m : EntityModel} {ids new : List Int64}
    (asked : Asked env.schema models D origin given m ids) {visited keys : List RowKey}
    {made : List Command} (handled : Handled env.schema models D origin given visited made)
    (notes : Notes m.root.table ids visited new keys) :
    Handled env.schema models D origin given (keys ++ visited)
      (made ++ linkDeletions env.schema models m new) where
  distinct := notes.distinct handled.distinct
  doomed key member := by
    rcases List.mem_append.1 member with here | before
    · obtain ⟨id, among, rfl⟩ := (notes.mem_keys key).1 here
      exact (asked.unhandled notes).doomed id among
    · exact handled.doomed key before
  justified c member := by
    rcases List.mem_append.1 member with before | links
    · exact (handled.justified c before).mono fun key known => List.mem_append_right keys known
    · refine linkDeletions_justified registered asked.known ?_ c links
      intro id among
      exact List.mem_append_left visited ((notes.mem_keys _).2 ⟨id, among, rfl⟩)

variable (obeys : Obeys (env.provider i) view (Named env.schema models))

include obeys

/-- All that points to some ids through a cascading relation is found. -/
theorem gather {m : EntityModel} {new : List Int64}
    (asked : Asked env.schema models D origin given m new) {noted : List RowKey}
    {made : List Command} (handled : Handled env.schema models D origin given noted made) :
    ∃ cascades,
      Runs view (((references env.schema models m).filter (·.onDelete = .cascade)).mapM
        (referencing env i new) : Attempt σ ε _) (D.run made) [] cascades
      ∧ (∀ r ∈ (references env.schema models m).filter (·.onDelete = .cascade),
        ∃ x ∈ cascades, Finds D (· ∈ noted) new r x)
      ∧ ∀ x ∈ cascades, Asked env.schema models D origin given x.1 x.2 := by
  have declared : ∀ r ∈ (references env.schema models m).filter (·.onDelete = .cascade),
      ∃ c target, Declares models r.level c target .cascade ∧ c.name = r.column
        ∧ (env.schema.model target).root = m.root := by
    intro r member
    obtain ⟨found, cascading⟩ := List.mem_filter.1 member
    obtain ⟨c, target, declares, name, roots⟩ := registered.of_mem_references asked.known found
    rw [of_decide_eq_true cascading] at declares
    exact ⟨c, target, declares, name, roots⟩
  have each : ∀ r ∈ (references env.schema models m).filter (·.onDelete = .cascade),
      ∃ found, Runs view (referencing env i new r : Attempt σ ε _) (D.run made) [] found
        ∧ Finds D (· ∈ noted) new r found := by
    intro r member
    obtain ⟨c, target, declares, name, -⟩ := declared r member
    exact runs_referencing registered unambiguous typed obeys handled.justified new declares
      name
  obtain ⟨cascades, ran, left, right⟩ := runs_mapM each
  refine ⟨cascades, ran, left, ?_⟩
  intro x member
  obtain ⟨r, among, finds⟩ := right x member
  obtain ⟨c, target, declares, name, roots⟩ := declared r among
  exact finds.asked declares name roots asked.doomed

omit registered unambiguous typed obeys in
theorem descends_zero (known : origin ∈ models) :
    Descends ε env i view models D origin given 0 := by
  intro m ids visited made asked handled deep
  have bounded := handled.bounded known
  omega

theorem descends_succ (descends : Descends ε env i view models D origin given depth) :
    Descends ε env i view models D origin given (depth + 1) := by
  intro m ids visited made asked handled deep
  obtain ⟨new, keys, notes⟩ := exists_notes m.root.table ids visited
  have askedNew := asked.unhandled notes
  rw [notes.fresh_eq]
  cases some : new.isEmpty with
  | true =>
      have none : new = [] := List.isEmpty_iff.1 some
      subst none
      have noKeys : keys = [] := List.length_eq_zero_iff.1 notes.length_eq
      subst noKeys
      refine ⟨0, [], [], runs_nothing notes.fresh_eq, Progress.none handled.distinct,
        notes.covers, ?_⟩
      exact (List.countP_eq_zero.2 fun r _ => by cases r m.root.primaryKey <;> simp [holds]).symm
  | false =>
      obtain ⟨below, chain, absent⟩ := m.chain_eq_append_root
      have noting := handled.noting registered asked notes
      obtain ⟨cascades, gathered, found, cascadesAsked⟩ :=
        gather (ε := ε) (i := i) registered unambiguous typed obeys askedNew noting
      obtain ⟨added, more, followed, progress, covered⟩ :=
        follow descends cascadesAsked noting (notes.deeper some deep)
      rw [Tables.run_append] at gathered followed
      have ran := runs_remove registered obeys asked.known notes.fresh_eq some gathered
        followed chain
      rw [← List.append_assoc] at ran
      have closed : ∀ key ∈ keys, Closed env.schema models D (added ++ (keys ++ visited)) key := by
        intro key member
        obtain ⟨id, among, rfl⟩ := (notes.mem_keys key).1 member
        exact closed_of_found registered unambiguous typed asked.known
          (fun key known => List.mem_append_right added known) found covered among
          (askedNew.occurs id among)
      refine ⟨_, added ++ keys, _, ran,
        progress_of_call registered unambiguous typed asked notes progress closed, ?_, ?_⟩
      · intro id among
        rw [List.append_assoc]
        exact List.mem_append_right added (notes.covers id among)
      · refine count_of_root registered unambiguous asked.known chain absent handled.justified
          progress.justified ?_
        intro id among
        refine ⟨(notes.unhandled id among).2, fun later => ?_⟩
        have here : (m.root.table, id) ∈ keys ++ visited :=
          List.mem_append_left visited ((notes.mem_keys _).2 ⟨id, among, rfl⟩)
        exact (List.nodup_append.1 progress.distinct).2.2 _ later _ here rfl

end

end Removal

end EntityStore
