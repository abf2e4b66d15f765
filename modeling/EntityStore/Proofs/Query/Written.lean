import EntityStore.Builder.Query
import EntityStore.Builder.Update
import EntityStore.Proofs.Engine.Run
import EntityStore.Proofs.Filter.Keys
import EntityStore.Proofs.Query.Counting
import EntityStore.Proofs.Sql.Alignment
import EntityStore.Proofs.Sql.Reading

/-!
What is written under a name is read under it. Of several columns of one name that a select reads the
first counts, and the levels come from the root on, while a name means a column of the nearest level. So
what is read under the name of a column is that column just as long as no level above keeps another of
the name; and of the keys, of which only the root's is read, one that has the name of the root's.

An update sets a column in the table of the level that its name means, in the rows whose key is one of
the ids; every level's row is joined to the root's by their keys, so whatever select reads the row
afterwards has the value. And rows that are cut to some columns keep those that were asked for.
-/

namespace EntityStore

open JoinGraph

namespace EntityModel

/-- The levels of a model are told apart from its root, and each table has one key, which is a column
of it and the only one that is marked as a key. -/
structure WellFormed (m : EntityModel) : Prop where
  paths : ∀ level ∈ m.chain, level.path = m.root.path → level = m.root
  declared : ∀ level ∈ m.chain, ∃ c ∈ level.ownColumns, c.name = level.primaryKey
  marked : ∀ level ∈ m.chain, ∀ c ∈ level.ownColumns, c.primary = true ↔ c.name = level.primaryKey
  keys : ∀ level ∈ m.chain, ∀ other ∈ m.chain, other.table = level.table →
    other.primaryKey = level.primaryKey

instance (m : EntityModel) : Decidable m.WellFormed :=
  decidable_of_iff
    ((∀ level ∈ m.chain, level.path = m.root.path → level = m.root) ∧
      (∀ level ∈ m.chain, ∃ c ∈ level.ownColumns, c.name = level.primaryKey) ∧
      (∀ level ∈ m.chain, ∀ c ∈ level.ownColumns,
        c.primary = true ↔ c.name = level.primaryKey) ∧
      ∀ level ∈ m.chain, ∀ other ∈ m.chain, other.table = level.table →
        other.primaryKey = level.primaryKey)
    ⟨fun ⟨paths, declared, marked, keys⟩ => ⟨paths, declared, marked, keys⟩,
      fun formed => ⟨formed.paths, formed.declared, formed.marked, formed.keys⟩⟩

/-- Whether a select reads the column of the level: of the keys it reads the root's only. -/
def Reads (level : EntityModel) (c : Column) : Prop :=
  c.primary = true → level.isRoot = true

instance (level : EntityModel) (c : Column) : Decidable (level.Reads c) :=
  inferInstanceAs (Decidable (c.primary = true → level.isRoot = true))

/-- The column is not hidden from selects: a key has the name of the root's, and of any other column
no level above has a second one that is read under its name. -/
structure Unhidden (m level : EntityModel) (c : Column) : Prop where
  key : c.primary = true → level.primaryKey = m.root.primaryKey
  apart : c.primary = false → ∀ upper ∈ level.chain.tail, ∀ other ∈ upper.ownColumns,
    upper.Reads other → other.name ≠ c.name

instance (m level : EntityModel) (c : Column) : Decidable (m.Unhidden level c) :=
  decidable_of_iff
    ((c.primary = true → level.primaryKey = m.root.primaryKey) ∧
      (c.primary = false → ∀ upper ∈ level.chain.tail, ∀ other ∈ upper.ownColumns,
        upper.Reads other → other.name ≠ c.name))
    ⟨fun ⟨key, apart⟩ => ⟨key, apart⟩, fun unhidden => ⟨unhidden.key, unhidden.apart⟩⟩

end EntityModel

namespace Sql

def shownColumn (m : EntityModel) (g : JoinGraph) (level : EntityModel) (c : Column) : ColumnRef :=
  if c.primary then idColumn m else ⟨levelAlias g level, c.name⟩

variable {m level : EntityModel} {c : Column} {g : JoinGraph}

private theorem mem_readColumns {upper : EntityModel} {other : Column} :
    other ∈ upper.ownColumns.filter (fun c => !c.primary || upper.isRoot) ↔
      other ∈ upper.ownColumns ∧ upper.Reads other := by
  rw [List.mem_filter, EntityModel.Reads]
  cases other.primary <;> simp

/-- The first column that a select reads under the name of an unhidden column stands for it. -/
theorem find_shownColumn (formed : m.WellFormed) (member : level ∈ m.chain)
    (declared : c ∈ level.ownColumns) (unhidden : m.Unhidden level c)
    (grown : (ofModel m).Extends g) :
    (entityColumns m g).find? (fun ref => c.name == ref.column) = some (shownColumn m g level c) := by
  unfold shownColumn
  cases key : c.primary with
  | true =>
      have named : c.name = m.root.primaryKey :=
        ((formed.marked level member c declared).1 key).trans (unhidden.key key)
      rw [named, if_pos rfl]
      exact Semantics.find_id grown (formed.declared m.root (EntityModel.root_mem_chain m))
  | false =>
      obtain ⟨below, levels⟩ := EntityModel.levels_split member
      have above : (level.chain.tail.reverse.flatMap fun upper =>
          (upper.ownColumns.filter fun c => !c.primary || upper.isRoot).map fun c =>
            (⟨levelAlias g upper, c.name⟩ : ColumnRef)).find?
              (fun ref => c.name == ref.column) = none := by
        refine List.find?_eq_none.2 fun ref inside => ?_
        obtain ⟨upper, higher, inside⟩ := List.mem_flatMap.1 inside
        obtain ⟨other, read, rfl⟩ := List.mem_map.1 inside
        rw [beq_iff_eq]
        obtain ⟨kept, shown⟩ := mem_readColumns.1 read
        exact (unhidden.apart key upper (List.mem_reverse.1 higher) other kept shown).symm
      have here : c ∈ level.ownColumns.filter fun c => !c.primary || level.isRoot :=
        mem_readColumns.2 ⟨declared, fun primary => by rw [key] at primary; cases primary⟩
      rw [entityColumns, levels, List.flatMap_append, List.find?_append, above, Option.none_or,
        List.flatMap_cons, List.find?_append, Semantics.find_named, if_pos ⟨c, here, rfl⟩]
      rfl

/-- What a name comes to in a filter that has a column for it: that column, where a select reads it,
if its table has it. -/
theorem column_answer {schema : Schema} {name : String} (plain : '.' ∉ name.toList)
    (paths : ∀ level ∈ m.chain, level.path = m.root.path → level = m.root)
    (finds : m.findColumn? name = some (level, c)) (grown : (ofModel m).Extends g) :
    (Resolve.column schema m name).answer g =
      (if c.isPhysical then .ok (⟨levelAlias g level, c.name⟩, c)
        else .error (.collectionComparison name), g) := by
  have member : level ∈ m.chain := (EntityModel.findColumn_cases finds).1
  have here : (Resolve.levelAlias "" m level).answer g = (.ok (levelAlias g level), g) := by
    rw [Resolve.answer_levelAlias m level (aliasOf_extends grown (sound_ofModel m).aliasOf_start)]
    by_cases root : level = m.root
    · have same : level.same m.root = true := beq_iff_eq.2 (congrArg EntityModel.path root)
      rw [if_pos same, root, levelAlias_root grown]
      rfl
    · have apart : ¬level.same m.root = true := fun same =>
        root (paths level member (beq_iff_eq.1 same))
      obtain ⟨a, -, known, placed⟩ := aliasOf_level grown (EntityModel.mem_levels.2 member) root
      rw [if_neg apart, if_pos rfl, placed]
      show (Except.ok (g.ensure _ _ _ _).1, (g.ensure _ _ _ _).2) = _
      rw [ensure_found _ _ _ known]
  rw [Resolve.column, Resolve.segments_plain plain, Resolve.walk, finds]
  dsimp only
  rw [Resolve.answer_bind, here]
  dsimp only
  rw [if_pos (by rfl)]
  split <;> rfl

private theorem column_of_name {schema : Schema} {name : String} (plain : '.' ∉ name.toList)
    (formed : m.WellFormed) (finds : m.findColumn? name = some (level, c))
    (physical : c.isPhysical = true) (grown : (ofModel m).Extends g) :
    (Resolve.column schema m name).answer g = (.ok (⟨levelAlias g level, c.name⟩, c), g) := by
  rw [column_answer plain formed.paths finds grown, if_pos physical]

end Sql

/-! ### Columns that an update writes -/

open Sql

namespace Semantics

variable (sem : Semantics)

def addresses (ids : List Int64) (v : Value) : Bool :=
  ids.any fun id => sem.meets v (.int id)

def assigned (set : List (String × Value)) (row : Cells) : Cells :=
  fun column => (set.lookup column).getD (row column)

def written (tables : Tables) (table : String) (set : List (String × Value)) (key : String)
    (ids : List Int64) : Tables :=
  fun other =>
    if other = table then
      (tables table).map fun row => if sem.addresses ids (row key) then assigned set row else row
    else tables other

variable {sem} {tables : Tables} {m level : EntityModel} {g : JoinGraph} {comb : Combination}

private theorem addresses_of_meets {ids : List Int64} {v w : Value}
    (addressed : sem.addresses ids v = true)
    (same : v = w ∨ sem.meets v w = true) : sem.addresses ids w = true := by
  rcases same with rfl | meets
  · exact addressed
  · obtain ⟨id, given, found⟩ := List.any_eq_true.1 addressed
    obtain ⟨⟨-, present⟩, equal⟩ := meets_eq.1 meets
    obtain ⟨⟨-, known⟩, matched⟩ := meets_eq.1 found
    exact List.any_eq_true.2 ⟨id, given, meets_eq.2
      ⟨⟨present, known⟩, sem.trans _ _ _ (sem.symm _ _ equal) matched⟩⟩

/-- A combination has a row of every level, whose key is the id. -/
theorem level_row (formed : m.WellFormed) (sound : g.Sound) (grown : (ofModel m).Extends g)
    (member : level ∈ m.chain) (inside : comb ∈ sem.combinations tables g) :
    ∃ row ∈ tables level.table, comb (levelAlias g level) = some row ∧
      (comb.value (idColumn m) = row level.primaryKey ∨
        sem.meets (comb.value (idColumn m)) (row level.primaryKey) = true) := by
  rcases levelAlias_cases grown (EntityModel.mem_levels.2 member) with
    ⟨rfl, placed⟩ | ⟨node, joins, levelNode, table, placed⟩
  · obtain ⟨row, stored, here, value⟩ := root_row sound grown inside
    exact ⟨row, stored, placed ▸ here, Or.inl value⟩
  · obtain ⟨other, reached, otherTable, joined⟩ := levelNode.joined
    obtain ⟨row, stored, here, meets⟩ :=
      (composed_of_mem sound inside).inner node joins levelNode.inner _ joined
    have key : other.primaryKey = level.primaryKey :=
      formed.keys level member other reached (otherTable.symm.trans table)
    rw [table] at stored
    rw [placed] at here
    exact ⟨row, stored, here, Or.inr (key ▸ meets)⟩

/-- What stands for a key in a select is equal to the key. -/
theorem same_shownColumn {c : Column} (formed : m.WellFormed) (sound : g.Sound)
    (grown : (ofModel m).Extends g) (member : level ∈ m.chain) (declared : c ∈ level.ownColumns)
    (inside : comb ∈ sem.combinations tables g) :
    sem.same (comb.value (shownColumn m g level c)) (comb.value ⟨levelAlias g level, c.name⟩) =
      true := by
  unfold shownColumn
  split
  · next key =>
      obtain ⟨row, -, here, equal⟩ := level_row formed sound grown member inside
      rw [Combination.value_of_row here, (formed.marked level member c declared).1 key]
      rcases equal with equal | meets
      · rw [equal]
        exact sem.refl _
      · exact (meets_eq.1 meets).2
  · exact sem.refl _

/-- After a column was written in the rows of some ids, every combination of such an id has the
value. -/
theorem value_written {column : String} {v : Value} {ids : List Int64} (formed : m.WellFormed)
    (sound : g.Sound) (grown : (ofModel m).Extends g) (member : level ∈ m.chain)
    (apart : column ≠ level.primaryKey)
    (inside : comb ∈ sem.combinations
      (sem.written tables level.table [(column, v)] level.primaryKey ids) g)
    (addressed : sem.addresses ids (comb.value (idColumn m)) = true) :
    comb.value ⟨levelAlias g level, column⟩ = v := by
  obtain ⟨row, stored, here, equal⟩ := level_row formed sound grown member inside
  have known := addresses_of_meets addressed equal
  rw [written, if_pos rfl] at stored
  obtain ⟨before, -, rfl⟩ := List.mem_map.1 stored
  -- The key is not what is written, so the row is still found by the key that it had.
  have key : (assigned [(column, v)] before) level.primaryKey = before level.primaryKey := by
    simp [assigned, List.lookup_cons, beq_eq_false_iff_ne.2 (Ne.symm apart)]
  rw [Combination.value_of_row here]
  split at known
  · next given =>
      rw [if_pos given]
      simp [assigned]
  · next missed => exact absurd known missed

end Semantics

/-! ### Updates and queries that run -/

section

variable {σ ε : Type} {env : Setting σ} {i : StorageId} {type : EntityType ε} {s after : State σ ε}
  {name : String} {level : EntityModel} {c : Column}

/-- An update of one column is planned as that column of its level. -/
theorem plan_single {plan : UpdatePlan} (finds : type.model.findColumn? name = some (level, c))
    (physical : c.isPhysical = true) (planned : UpdatePlan.resolve type.model [name] = .ok plan) :
    c.primary = false ∧ plan = { levels := [(level, [c])] } := by
  have single : UpdatePlan.addField type.model {} name = .ok plan := by
    rw [UpdatePlan.resolve, if_neg (by simp), List.foldlM_cons] at planned
    obtain ⟨first, added, planned⟩ := Sql.of_bind_ok planned
    cases planned
    exact added
  unfold UpdatePlan.addField at single
  rw [finds] at single
  dsimp only at single
  split at single
  · cases single
  · next free =>
      rw [if_neg (by simp [Column.isMany, physical])] at single
      cases single
      exact ⟨Bool.eq_false_iff.2 free, rfl⟩

/-- An update of one column executes one statement. -/
theorem apply_single {item : ε} {ids : List Int64} {count : Nat} {v : Value}
    (stored : (type.values item).lookup c.name = some v)
    (ran : (UpdatePlan.apply env i { levels := [(level, [c])] } type item ids).run.run s =
      (.ok count, after)) :
    ∃ statement touched,
      (Sql.update (Storage.dialect env i) level.table [(c.name, v)] level.primaryKey ids).bind [] =
        .ok statement ∧
      (env.provider i).execute statement s.outside = (.ok touched, after.outside) := by
  have set : UpdatePlan.assignments level (type.values item) [c] = .ok [(c.name, v)] := by
    rw [UpdatePlan.assignments, List.mapM_cons, Builder.storedValue, stored]
    rfl
  obtain ⟨affected?, last, levels, rest⟩ := Attempt.of_run_bind ran
  cases rest
  rw [List.foldlM_cons] at levels
  obtain ⟨first, mid, level', rest⟩ := Attempt.of_run_bind levels
  cases rest
  obtain ⟨given, start, assigned, level'⟩ := Attempt.of_run_bind level'
  rw [set] at assigned
  cases assigned
  obtain ⟨n, last', executed, rest⟩ := Attempt.of_run_bind level'
  cases rest
  obtain ⟨statement, mid', boundRun, executeRun⟩ := Attempt.of_run_bind executed
  obtain ⟨bound, same⟩ := Storage.of_bound_run boundRun
  rw [same] at executeRun
  exact ⟨statement, n, bound, Storage.of_execute_run executeRun⟩

/-- A query that compiles has resolved its clauses on the tables that they led to. -/
theorem compile_resolved {q : Query ε} {t : Template} (compiled : q.compile env = .ok t) :
    ∃ filter? order joins, Resolve.runOn q.type.model (q.resolve env) =
        (.ok (filter?, order), joins) ∧
      t = select (Storage.dialect env q.storage) q.type.model
        { joins, filter?, order, limit? := q.limit?, offset? := q.offset? } ∧
      Semantics.Joined env.schema q.type.model joins := by
  unfold Query.compile at compiled
  split at compiled
  · next filter? order joins ran =>
      cases compiled
      refine ⟨filter?, order, joins, ran, rfl, ?_⟩
      obtain ⟨given?, reached, filtered, rest⟩ := Resolve.of_bind (g := ofModel q.type.model) ran
      obtain ⟨terms, after, ordered, last⟩ := Resolve.of_bind rest
      cases last
      obtain ⟨here, -⟩ := Resolve.filter_given [] q.filter? filtered
      rw [here] at ordered
      rw [(Resolve.order_given _ q.order ordered).1]
      exact Semantics.joined_reach env.schema q.type.model _
  · cases compiled

/-- The rows of a query are those that the database answers, cut to the columns that were named. -/
theorem rows_answered {q : Query ε} {rows : List Row}
    (ran : ((q.rows env).run s).1.value? = some rows) :
    ∃ t names statement read w, q.compile env = .ok t ∧
      q.fields.mapM (Query.projected q.type.model) = .ok names ∧ t.bind [] = .ok statement ∧
      (env.provider q.storage).query statement s.outside = (.ok read, w) ∧
      rows = if names.isEmpty then read else read.map (·.project names) := by
  obtain ⟨after, whole⟩ := Attempt.of_outcome_value ran
  obtain ⟨t, first, compileRun, afterCompile⟩ := Attempt.of_run_bind whole
  obtain ⟨compiled, rfl⟩ := Attempt.of_ofResult_run compileRun
  obtain ⟨names, second, namesRun, afterNames⟩ := Attempt.of_run_bind afterCompile
  obtain ⟨named, rfl⟩ := Attempt.of_ofResult_run namesRun
  obtain ⟨statement, third, boundRun, afterBound⟩ := Attempt.of_run_bind afterNames
  obtain ⟨bound, rfl⟩ := Storage.of_bound_run boundRun
  obtain ⟨read, last, queryRun, rest⟩ := Attempt.of_run_bind afterBound
  cases rest
  exact ⟨t, names, statement, read, after.outside, compiled, named, bound,
    Storage.of_query_run queryRun, rfl⟩

/-- The database answers the statement of a query with rows of its tables. -/
def ReadsTables (env : Setting σ) (view : σ → Tables) (sem : Semantics) (q : Query ε) (w : σ) :
    Prop :=
  ∀ filter? order joins,
    Resolve.runOn q.type.model (q.resolve env) = (.ok (filter?, order), joins) →
    ∀ statement read w',
      (select (Storage.dialect env q.storage) q.type.model
        { joins, filter?, order, limit? := q.limit?, offset? := q.offset? }).bind [] =
          .ok statement →
      (env.provider q.storage).query statement w = (.ok read, w') →
      ∀ row ∈ read, ∃ comb ∈ sem.combinations (view w) joins,
        Semantics.rowOf (entityColumns q.type.model joins) comb = row

/-- The database executes an update by setting the columns in its tables. -/
def SetsColumns (env : Setting σ) (i : StorageId) (view : σ → Tables) (sem : Semantics)
    (table : String) (set : List (String × Value)) (key : String) (ids : List Int64) (w : σ) :
    Prop :=
  ∀ statement touched w',
    (Sql.update (Storage.dialect env i) table set key ids).bind [] = .ok statement →
    (env.provider i).execute statement w = (.ok touched, w') →
    view w' = sem.written (view w) table set key ids

private theorem rows_read {q : Query ε} {rows : List Row} {view : σ → Tables} {sem : Semantics}
    (reads : ReadsTables env view sem q s.outside)
    (ran : ((q.rows env).run s).1.value? = some rows) :
    ∃ joins names, Semantics.Joined env.schema q.type.model joins ∧
      q.fields.mapM (Query.projected q.type.model) = .ok names ∧
      ∀ row ∈ rows, ∃ comb ∈ sem.combinations (view s.outside) joins,
        row = if names.isEmpty then Semantics.rowOf (entityColumns q.type.model joins) comb
          else (Semantics.rowOf (entityColumns q.type.model joins) comb).project names := by
  obtain ⟨t, names, statement, read, w, compiled, named, bound, answers, rfl⟩ := rows_answered ran
  obtain ⟨filter?, order, joins, resolved, rfl, joined⟩ := compile_resolved compiled
  have origin := reads filter? order joins resolved statement read w bound answers
  refine ⟨joins, names, joined, named, fun row inside => ?_⟩
  split at inside
  · next all =>
      obtain ⟨comb, known, rfl⟩ := origin row inside
      exact ⟨comb, known, by rw [if_pos all]⟩
  · next some =>
      obtain ⟨whole, present, rfl⟩ := List.mem_map.1 inside
      obtain ⟨comb, known, rfl⟩ := origin whole present
      exact ⟨comb, known, by rw [if_neg some]⟩

end

/-! ### Rows that are cut to some columns -/

private theorem Row.value_project (row : Row) {names : List String} {name : String}
    (named : name ∈ names) :
    (row.project names).value? name = row.value? name := by
  unfold Row.project Row.value?
  induction names with
  | nil => cases named
  | cons first rest ih =>
      rw [List.filterMap_cons]
      by_cases same : first = name
      · subst same
        cases present : row.columns.lookup first with
        | some value => simp
        | none =>
            simp only [Option.map_none]
            rw [List.lookup_eq_none_iff]
            intro found inside
            obtain ⟨other, -, given⟩ := List.mem_filterMap.1 inside
            obtain ⟨value, known, rfl⟩ := Option.map_eq_some_iff.1 given
            rw [bne_iff_ne]
            rintro rfl
            rw [present] at known
            cases known
      · have later := ih ((List.mem_cons.1 named).resolve_left (Ne.symm same))
        cases present : row.columns.lookup first with
        | none => simpa [Row.value?, present] using later
        | some value =>
            simpa [Row.value?, present, List.lookup_cons,
              beq_eq_false_iff_ne.2 (Ne.symm same)] using later

private theorem mem_of_mapM {α β γ : Type} {f : α → Except γ β} {items : List α} {results : List β}
    {a : α}
    {b : β} (read : items.mapM f = .ok results) (inside : a ∈ items) (gives : f a = .ok b) :
    b ∈ results := by
  obtain ⟨found, member, same⟩ := exists_of_mapM read inside
  cases same.symm.trans gives
  exact member

/-! ### One column under one name -/

/-- What is read under the name of a column is the column that the name means, or for a key the root's
that is equal to it. That column filters look at, updates write and projections keep. -/
structure ReadAsFound (schema : Schema) (m : EntityModel) (name : String) (level : EntityModel)
    (c : Column) : Prop where
  first : ∀ g, (ofModel m).Extends g →
    (entityColumns m g).find? (fun ref => c.name == ref.column) = some (shownColumn m g level c)
  equal : ∀ (sem : Semantics) (tables : Tables) (g : JoinGraph), g.Sound → (ofModel m).Extends g →
    ∀ comb ∈ sem.combinations tables g,
      sem.same (comb.value (shownColumn m g level c)) (comb.value ⟨levelAlias g level, c.name⟩) =
        true
  filtered : '.' ∉ name.toList → ∀ g, (ofModel m).Extends g →
    (Resolve.column schema m name).answer g = (.ok (⟨levelAlias g level, c.name⟩, c), g)
  written : ∀ {σ ε : Type} (env : Setting σ) (i : StorageId) (type : EntityType ε)
    (view : σ → Tables) (sem : Semantics) (s after : State σ ε) (plan : UpdatePlan) (item : ε)
    (ids : List Int64) (count : Nat) (v : Value) (q : Query ε) (rows : List Row),
    type.model = m → UpdatePlan.resolve m [name] = .ok plan →
    (type.values item).lookup c.name = some v →
    SetsColumns env i view sem level.table [(c.name, v)] level.primaryKey ids s.outside →
    (plan.apply env i type item ids).run.run s = (.ok count, after) →
    q.type = type → q.fields = [] → ReadsTables env view sem q after.outside →
    ((q.rows env).run after).1.value? = some rows →
    ∀ row ∈ rows, sem.addresses ids (m.idOf row) = true → row.value? c.name = some v
  kept : ∀ {σ ε : Type} (env : Setting σ) (view : σ → Tables) (sem : Semantics) (s : State σ ε)
    (q : Query ε) (rows : List Row), q.type.model = m → (q.fields ≠ [] → name ∈ q.fields) →
    ReadsTables env view sem q s.outside → ((q.rows env).run s).1.value? = some rows →
    ∀ row ∈ rows, ∃ g comb, (ofModel m).Extends g ∧ comb ∈ sem.combinations (view s.outside) g ∧
      row.value? c.name = some (comb.value (shownColumn m g level c))

/-- As long as the column is not hidden, what is read under its name is what is found, filtered,
written and kept under it. -/
theorem read_under_its_name (schema : Schema) {m level : EntityModel} {c : Column} {name : String}
    (formed : m.WellFormed) (finds : m.findColumn? name = some (level, c))
    (physical : c.isPhysical = true) (unhidden : m.Unhidden level c) :
    ReadAsFound schema m name level c := by
  obtain ⟨member, inside, -⟩ := EntityModel.findColumn_cases finds
  have declared : c ∈ level.ownColumns := List.mem_filter.2 ⟨inside, physical⟩
  have value {g : JoinGraph} (grown : (ofModel m).Extends g) (comb : Combination) :
      (Semantics.rowOf (entityColumns m g) comb).value? c.name =
        some (comb.value (shownColumn m g level c)) := by
    rw [Semantics.value_rowOf, find_shownColumn formed member declared unhidden grown]
    rfl
  constructor
  case first => exact fun g grown => find_shownColumn formed member declared unhidden grown
  case equal =>
    exact fun sem tables g sound grown comb known =>
      Semantics.same_shownColumn formed sound grown member declared known
  case filtered => exact fun plain g grown => column_of_name plain formed finds physical grown
  case written =>
    intro σ ε env i type view sem s after plan item ids count v q rows model planned stored sets ran
      typed all reads answered row present addressed
    subst model
    obtain ⟨free, rfl⟩ := plan_single finds physical planned
    obtain ⟨statement, touched, bound, executed⟩ := apply_single stored ran
    have reached := sets statement touched after.outside bound executed
    obtain ⟨g, names, joined, named, origin⟩ := rows_read reads answered
    rw [all] at named
    cases named
    obtain ⟨comb, known, same⟩ := origin row present
    have whole : row = Semantics.rowOf (entityColumns q.type.model g) comb := same
    subst whole
    rw [typed] at joined addressed ⊢
    rw [Semantics.idOf_rowOf joined.grown
      (formed.declared _ (EntityModel.root_mem_chain _))] at addressed
    rw [value joined.grown, shownColumn, if_neg (by rw [free]; exact Bool.false_ne_true)]
    rw [reached] at known
    have apart : c.name ≠ level.primaryKey := fun key => by
      rw [(formed.marked level member c declared).2 key] at free
      cases free
    exact congrArg some
      (Semantics.value_written formed joined.sound joined.grown member apart known addressed)
  case kept =>
    intro σ ε env view sem s q rows model asked reads answered row present
    subst model
    obtain ⟨g, names, joined, named, origin⟩ := rows_read reads answered
    obtain ⟨comb, known, same⟩ := origin row present
    refine ⟨g, comb, joined.grown, known, ?_⟩
    rw [same, ← value joined.grown]
    split
    · rfl
    · next some =>
        have fields : q.fields ≠ [] := fun none => by
          rw [none] at named
          cases named
          exact some rfl
        have projected : Query.projected q.type.model name = .ok c.name := by
          rw [Query.projected, finds]
          exact if_pos physical
        exact Row.value_project _ (mem_of_mapM named (asked fields) projected)

/-! ### Managers -/

def employee : EntityModel where
  own :=
    { path := "Employee"
      table := "employee"
      primaryKey := "id"
      columns := [Column.generatedKey "id", Column.text "name" .maxVarChar] }

def manager (key text : String) : EntityModel where
  own :=
    { path := "Manager"
      table := "manager"
      primaryKey := key
      columns := [Column.inheritedKey key, Column.text text .maxVarChar] }
  above := [employee.own]

def employees : Schema := ⟨fun _ => employee⟩

def managerType : EntityType Int64 where
  key := ⟨0⟩
  model := manager "id" "title"
  id n := n
  setId _ n := n
  values n := [("id", .int n), ("title", .text "Chief")]
  ofRow row := row.get Int64 "id"
  links _ _ := []
  setLinks n _ _ := n

def firm : Tables
  | "employee" => [Cells.of [("id", .int 1), ("name", .text "Ann")],
      Cells.of [("id", .int 2), ("name", .text "Bob")]]
  | "manager" => [Cells.of [("id", .int 1), ("title", .text "Head")]]
  | _ => []

def office : Setting Tables where
  schema := employees
  provider _ :=
    { name := "main"
      dialect := .sqlite
      connect w := (.ok (), w)
      execute _ w := (.ok 1, Semantics.plain.written w "manager" [("title", .text "Chief")] "id" [1])
      query _ w := (.ok ((Semantics.plain.combinations w (ofModel managerType.model)).map
        (Semantics.rowOf (entityColumns managerType.model (ofModel managerType.model)))), w)
      insert _ w := (.ok 0, w)
      begin w := (.ok (), w)
      commit w := (.ok (), w)
      rollback w := (.ok (), w) }
  log _ := {}
  now := SqlType.firstDay.atMidnight

def managersQuery : Query Int64 :=
  { type := managerType, storage := 0 }

/-- A title that is written is the title that is read. -/
theorem title_read_as_written :
    ReadAsFound employees managerType.model "title" managerType.model
        (Column.text "title" .maxVarChar) ∧
      ∃ (after : State Tables Int64) (rows : List Row),
        (UpdatePlan.apply office 0 { levels := [(managerType.model, [Column.text "title" .maxVarChar])] }
          managerType 1 [1]).run.run { outside := firm } = (.ok 1, after) ∧
        ((managersQuery.rows office).run after).1.value? = some rows ∧ rows.length = 1 ∧
        ∀ row ∈ rows, Semantics.plain.addresses [1] (managerType.model.idOf row) = true →
          row.value? "title" = some (.text "Chief") := by
  have reads : ReadAsFound employees managerType.model "title" managerType.model
      (Column.text "title" .maxVarChar) :=
    read_under_its_name employees (by decide) rfl rfl (by decide)
  have tables : ReadsTables office (fun w => w) Semantics.plain managersQuery
      (Semantics.plain.written firm "manager" [("title", .text "Chief")] "id" [1]) := by
    intro filter? order joins resolved statement read w' bound answered row inside
    cases resolved
    cases answered
    exact List.mem_map.1 inside
  have sets : SetsColumns office 0 (fun w => w) Semantics.plain "manager"
      [("title", .text "Chief")] "id" [1] firm := by
    intro statement touched w' bound executed
    cases executed
    rfl
  exact ⟨reads, _, _, rfl, rfl, rfl, reads.written office 0 managerType (fun w => w) Semantics.plain
    { outside := firm } _ _ 1 [1] 1 (.text "Chief") managersQuery _ rfl rfl rfl sets rfl rfl rfl
    tables rfl⟩

/-- Where a level above has a column of the name, that one is read; and a key with another name than
the root's is not read at all. -/
theorem hidden_columns_misread :
    ((manager "id" "name").findColumn? "name" =
        some (manager "id" "name", Column.text "name" .maxVarChar) ∧
      ¬ReadAsFound employees (manager "id" "name") "name" (manager "id" "name")
        (Column.text "name" .maxVarChar)) ∧
    (manager "mgr_id" "title").findColumn? "mgr_id" =
        some (manager "mgr_id" "title", Column.inheritedKey "mgr_id") ∧
      ¬ReadAsFound employees (manager "mgr_id" "title") "mgr_id" (manager "mgr_id" "title")
        (Column.inheritedKey "mgr_id") := by
  refine ⟨⟨rfl, fun reads => ?_⟩, rfl, fun reads => ?_⟩
  · have first := reads.first _ (Extends.refl _)
    revert first
    decide
  · have first := reads.first _ (Extends.refl _)
    revert first
    decide

end EntityStore
