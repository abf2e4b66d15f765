import EntityStore.Proofs.Storing.Plan
import EntityStore.Proofs.Storing.Relations

/-!
What updates make of tables. An entity is written to the rows of some ids: the listed columns of a
level are set in its table, and the listed relations have their links replaced. Of several entities
that are written to one id, the last remains.
-/

namespace EntityStore

variable {σ ε : Type}

/-- Levels that their paths tell apart, tables that are each for one level or one relation, keys
that no update writes, and names that bring no marks. -/
structure Updatable (schema : Schema) (m : EntityModel) : Prop where
  paths : (m.chain.map (·.path)).Nodup
  tables : (m.chain.map (·.table) ++ (Links.tablesOf schema m none).map (·.table)).Nodup
  keys : ∀ level ∈ m.chain, ∀ c ∈ level.ownColumns, c.name = level.primaryKey → c.primary = true
  unmarked : ∀ level ∈ m.chain, level.Unmarked ∧ Sql.MarkFree level.primaryKey
  linked : ∀ link ∈ Links.tablesOf schema m none, Links.Unmarked link

instance (schema : Schema) (m : EntityModel) : Decidable (Updatable schema m) :=
  decidable_of_iff ((m.chain.map (·.path)).Nodup ∧
      (m.chain.map (·.table) ++ (Links.tablesOf schema m none).map (·.table)).Nodup ∧
      (∀ level ∈ m.chain, ∀ c ∈ level.ownColumns, c.name = level.primaryKey → c.primary = true) ∧
      (∀ level ∈ m.chain, level.Unmarked ∧ Sql.MarkFree level.primaryKey) ∧
      ∀ link ∈ Links.tablesOf schema m none, Links.Unmarked link)
    ⟨fun ⟨paths, tables, keys, unmarked, linked⟩ => ⟨paths, tables, keys, unmarked, linked⟩,
      fun u => ⟨u.paths, u.tables, u.keys, u.unmarked, u.linked⟩⟩

namespace Updatable

variable {schema : Schema} {m : EntityModel}

private theorem level_eq (updatable : Updatable schema m) {level other : EntityModel}
    (member : level ∈ m.chain) (present : other ∈ m.chain) (same : level.table = other.table) :
    level = other :=
  List.inj_on_of_nodup_map (List.nodup_append.1 updatable.tables).1 member present same

theorem level_ne_link (updatable : Updatable schema m) {level : EntityModel} {link : LinkTable}
    (member : level ∈ m.chain) (linked : link ∈ Links.tablesOf schema m none) :
    level.table ≠ link.table :=
  (List.nodup_append.1 updatable.tables).2.2 _ (List.mem_map_of_mem member) _
    (List.mem_map_of_mem linked)

end Updatable

namespace UpdatePlan

def sets (values : List (String × Value)) (columns : List Column) : List (String × Value) :=
  columns.map fun c => (c.name, (values.lookup c.name).getD .null)

def writing (values : List (String × Value)) (ids : List Int64)
    (group : EntityModel × List Column) :
    Change :=
  .update group.1.table (sets values group.2) group.1.primaryKey ids

def changes (plan : UpdatePlan) (schema : Schema) (type : EntityType ε) (item : ε)
    (ids : List Int64) :
    List Change :=
  plan.levels.map (writing (type.values item) ids)
    ++ ids.flatMap fun id => (Links.tablesOf schema type.model (some plan.links)).flatMap
      (Links.changes type item id true)

def Filled (values : List (String × Value)) (group : EntityModel × List Column) : Prop :=
  ∀ c ∈ group.2, (values.lookup c.name).isSome = true

instance (values : List (String × Value)) (group : EntityModel × List Column) :
    Decidable (Filled values group) :=
  inferInstanceAs (Decidable (∀ c ∈ group.2, _))

theorem lookup_sets (values : List (String × Value)) (columns : List Column) (name : String) :
    (sets values columns).lookup name =
      if name ∈ columns.map (·.name) then some ((values.lookup name).getD .null) else none := by
  unfold sets
  induction columns with
  | nil => rfl
  | cons c rest ih =>
      rw [List.map_cons, List.lookup_cons, ih, List.map_cons]
      by_cases same : name = c.name
      · subst same
        simp
      · rw [beq_eq_false_iff_ne.2 same]
        simp [same]

private theorem assignments_ok {level : EntityModel} {values : List (String × Value)}
    {columns : List Column} (filled : Filled values (level, columns)) :
    assignments level values columns = .ok (sets values columns) := by
  unfold assignments
  induction columns with
  | nil => rfl
  | cons c rest ih =>
      obtain ⟨first, others⟩ := List.forall_mem_cons.1 filled
      obtain ⟨value, found⟩ := Option.isSome_iff_exists.1 first
      have set : sets values (c :: rest) = (c.name, value) :: sets values rest := by
        rw [sets, List.map_cons, found]
        rfl
      rw [List.mapM_cons, ih others, Builder.storedValue, found, set]
      rfl

private theorem assignments_error {level : EntityModel} {values : List (String × Value)}
    {columns : List Column} (lacks : ¬Filled values (level, columns)) :
    ∃ e, assignments level values columns = .error e := by
  unfold assignments
  induction columns with
  | nil => exact absurd (List.forall_mem_nil _) lacks
  | cons c rest ih =>
      rw [List.mapM_cons, Builder.storedValue]
      cases found : values.lookup c.name with
      | none => exact ⟨_, rfl⟩
      | some value =>
          obtain ⟨e, failed⟩ := ih fun others => lacks
            (List.forall_mem_cons.2 ⟨Option.isSome_iff_exists.2 ⟨value, found⟩, others⟩)
          exact ⟨e, by rw [failed]; rfl⟩

section

variable {env : Setting σ} {i : StorageId} {view : σ → Tables} {m : EntityModel}
    {fields : List String}
  {plan : UpdatePlan} {type : EntityType ε}

/-- An entity is written by the changes of the plan, unless it has no value for a column. -/
theorem tries_apply (performs : Performs (env.provider i) view Tables.changed Change.Full)
    (updatable : Updatable env.schema type.model) (places : Places type.model fields plan)
    (item : ε) (ids : List Int64) :
    Tries env i view Tables.changed (plan.apply env i type item ids)
      (∀ group ∈ plan.levels, Filled (type.values item) group)
      (plan.changes env.schema type item ids) := by
  have level (group : EntityModel × List Column) (member : group ∈ plan.levels)
    (affected? : Option Nat) :
      Tries env i view Tables.changed
        (applyLevel env i (type.values item) ids affected? group : Attempt σ ε _)
        (Filled (type.values item) group) [writing (type.values item) ids group] := by
    have present := places.level_mem member
    obtain ⟨unmarked, key⟩ := updatable.unmarked group.1 present
    have named : (writing (type.values item) ids group).Named := by
      refine ⟨unmarked.table, key, fun set inside => ?_⟩
      obtain ⟨c, own, rfl⟩ := List.mem_map.1 inside
      obtain ⟨-, column, declared, same⟩ :=
        ((places.columns group.1 c.name).1 ⟨group, member, rfl, List.mem_map_of_mem own⟩).mem_chain
      exact same ▸ unmarked.columns column declared
    have full : (writing (type.values item) ids group).Full := fun none =>
      places.filled group member (List.map_eq_nil_iff.1 none)
    have sends : Makes env i view Tables.changed (Storage.executeTemplate env i
        ((writing (type.values item) ids group).template (Storage.dialect env i)) : Attempt σ ε Nat)
        [writing (type.values item) ids group] :=
      makes_template performs full named fun _ => rfl
    unfold applyLevel
    refine (tries_checked assignments_ok assignments_error ?_).imp (and_iff_left trivial)
    exact sends.returning.tries
  have levels := tries_foldlM plan.levels level none
  rw [← List.map_eq_flatMap] at levels
  have each (id : Int64) : Makes env i view Tables.changed
      (Links.write env i type item id true (some plan.links))
      ((Links.tablesOf env.schema type.model (some plan.links)).flatMap
        (Links.changes type item id true)) := by
    refine Links.makes_write performs type item id true (some plan.links) (fun link member => ?_)
      fun link _ c inside => Links.full_of_mem_changes inside
    exact updatable.linked link (Links.mem_tablesOf_some.1 member).1
  unfold apply changes
  refine (levels.followed fun affected? => ?_).imp (and_iff_left trivial)
  by_cases some : (!plan.links.isEmpty) = true
  · rw [if_pos some]
    exact (makes_forM ids fun id _ => each id).tries.returning _
  · have noLinks : plan.links = [] := by simpa using some
    have nothing : Links.tablesOf env.schema type.model (Option.some plan.links) = [] := by
      refine List.eq_nil_iff_forall_not_mem.2 fun link member => ?_
      rw [noLinks] at member
      exact List.not_mem_nil (Links.mem_tablesOf_some.1 member).2
    have none : (ids.flatMap fun id => (Links.tablesOf env.schema type.model
        (Option.some plan.links)).flatMap (Links.changes type item id true)) = [] := by
      rw [nothing]
      exact List.flatMap_eq_nil_iff.2 fun _ _ => rfl
    rw [if_neg some, none]
    exact (makes_pure _).tries

end

/-! ### What becomes of the tables -/

/-- The last of the entities that are written to an id, where each comes with the ids that it is
written to. -/
def lastFor (steps : List (ε × List Int64)) (id : Int64) : Option ε :=
  (steps.reverse.find? (·.2.contains id)).map (·.1)

theorem lastFor_append (steps : List (ε × List Int64)) (step : ε × List Int64) (id : Int64) :
    lastFor (steps ++ [step]) id = if id ∈ step.2 then some step.1 else lastFor steps id := by
  unfold lastFor
  rw [List.reverse_append, List.reverse_singleton, List.singleton_append, List.find?_cons]
  by_cases here : id ∈ step.2
  · rw [if_pos here, List.contains_iff_mem.2 here]
    rfl
  · rw [if_neg here, Bool.eq_false_iff.2 fun contains => here (List.contains_iff_mem.1 contains)]

def columnsAt (plan : UpdatePlan) (level : EntityModel) : List Column :=
  (plan.levels.filter (·.1 = level)).flatMap (·.2)

def changesOf (plan : UpdatePlan) (schema : Schema) (type : EntityType ε)
    (steps : List (ε × List Int64)) : List Change :=
  steps.flatMap fun step => plan.changes schema type step.1 step.2

section

variable {schema : Schema} {m : EntityModel} {fields : List String} {plan : UpdatePlan}
  {type : EntityType ε} {level : EntityModel} {link : LinkTable}

theorem Places.mem_columnsAt (places : Places m fields plan) {name : String} :
    name ∈ (plan.columnsAt level).map (·.name) ↔ Lists m fields level name := by
  rw [← places.columns, columnsAt, List.map_flatMap, List.mem_flatMap]
  constructor
  · rintro ⟨group, member, named⟩
    exact ⟨group, (List.mem_filter.1 member).1, of_decide_eq_true (List.mem_filter.1 member).2,
      named⟩
  · rintro ⟨group, member, here, named⟩
    exact ⟨group, List.mem_filter.2 ⟨member, decide_eq_true here⟩, named⟩

/-- Only the group of a level is written to its table. -/
theorem changes_at_level (updatable : Updatable schema type.model)
    (places : Places type.model fields plan) (member : level ∈ type.model.chain) (item : ε)
    (ids : List Int64) :
    (plan.changes schema type item ids).filter (·.table = level.table) =
      (plan.levels.filter (·.1 = level)).map (writing (type.values item) ids) := by
  have links : (ids.flatMap fun id => (Links.tablesOf schema type.model (some plan.links)).flatMap
      (Links.changes type item id true)).filter (·.table = level.table) = [] := by
    refine List.filter_eq_nil_iff.2 fun c inside here => ?_
    obtain ⟨id, -, inside⟩ := List.mem_flatMap.1 inside
    obtain ⟨link, linked, inside⟩ := List.mem_flatMap.1 inside
    have table := Links.table_of_mem_changes inside
    exact updatable.level_ne_link member (Links.mem_tablesOf_some.1 linked).1
      ((of_decide_eq_true here).symm.trans table)
  rw [changes, List.filter_append, links, List.append_nil, List.filter_map]
  congr 1
  refine List.filter_congr fun group inside => decide_eq_decide.2 ?_
  exact ⟨updatable.level_eq (places.level_mem inside) member, congrArg EntityModel.table⟩

/-- Only the links of a relation are written to its table. -/
theorem changes_at_link (updatable : Updatable schema type.model)
    (places : Places type.model fields plan)
    (linked : link ∈ Links.tablesOf schema type.model (some plan.links)) (item : ε)
    (ids : List Int64) :
    (plan.changes schema type item ids).filter (·.table = link.table) =
      ids.flatMap fun id => Links.changes type item id true link := by
  have known := (Links.mem_tablesOf_some.1 linked).1
  have levels :
      (plan.levels.map (writing (type.values item) ids)).filter (·.table = link.table) = [] := by
    refine List.filter_eq_nil_iff.2 fun c inside here => ?_
    obtain ⟨group, member, rfl⟩ := List.mem_map.1 inside
    exact updatable.level_ne_link (places.level_mem member) known (of_decide_eq_true here)
  have distinct : ((Links.tablesOf schema type.model (some plan.links)).map (·.table)).Nodup :=
    ((Links.tablesOf_sublist schema type.model (some plan.links)).map _).nodup
      (List.nodup_append.1 updatable.tables).2.1
  rw [changes, List.filter_append, levels, List.nil_append, List.filter_flatMap]
  congr 1
  funext id
  have own (links : List LinkTable) :
      (links.flatMap (Links.changes type item id true)).filter (·.table = link.table) =
        (links.filter (·.table = link.table)).flatMap (Links.changes type item id true) := by
    induction links with
    | nil => rfl
    | cons other rest ih =>
        rw [List.flatMap_cons, List.filter_append, ih]
        by_cases here : other.table = link.table
        · rw [List.filter_cons_of_pos (by simpa using here), List.flatMap_cons,
            List.filter_eq_self.2]
          exact fun c inside => decide_eq_true ((Links.table_of_mem_changes inside).trans here)
        · rw [List.filter_cons_of_neg (by simpa using here), List.filter_eq_nil_iff.2,
            List.nil_append]
          exact fun c inside same =>
            here ((Links.table_of_mem_changes inside).symm.trans (of_decide_eq_true same))
  rw [own, filter_key_of_mem distinct linked, List.flatMap_singleton]

def stepRow (plan : UpdatePlan) (type : EntityType ε) (level : EntityModel) (r : Cells)
    (step : ε × List Int64) : Cells :=
  if Tables.holds step.2 (r level.primaryKey) then
    r.assigned (sets (type.values step.1) (plan.columnsAt level))
  else r

theorem rows_at_level (updatable : Updatable schema type.model)
    (places : Places type.model fields plan) (member : level ∈ type.model.chain) (D : Tables)
    (steps : List (ε × List Int64)) :
    (plan.changesOf schema type steps).foldl Tables.changed D level.table =
      (D level.table).map fun r => steps.foldl (plan.stepRow type level) r := by
  rw [Tables.foldl_changed, changesOf, List.filter_flatMap]
  generalize D level.table = rows
  induction steps generalizing rows with
  | nil => exact (List.map_id rows).symm
  | cons step rest ih =>
      rw [List.flatMap_cons, List.foldl_append, changes_at_level updatable places member]
      have once :
        ((plan.levels.filter (·.1 = level)).map (writing (type.values step.1) step.2)).foldl
          (fun rows c => c.onRows rows) rows =
            rows.map fun r => plan.stepRow type level r step := by
        unfold stepRow columnsAt
        by_cases some : ∃ group ∈ plan.levels, group.1 = level
        · obtain ⟨group, inside, rfl⟩ := some
          rw [filter_key_of_mem places.apart inside, List.map_singleton, List.flatMap_singleton]
          rfl
        · have none : plan.levels.filter (·.1 = level) = [] :=
            List.filter_eq_nil_iff.2 fun group inside here =>
              some ⟨group, inside, of_decide_eq_true here⟩
          rw [none]
          refine (List.map_id rows).symm.trans (List.map_congr_left fun r _ => ?_)
          exact (ite_self r).symm
      rw [once, ih, List.map_map]
      rfl

/-- What becomes of a row of a level: it keeps its key, each listed column has the value of the
entity that is last written to its id, and all else stays. -/
structure RowWritten (type : EntityType ε) (fields : List String) (steps : List (ε × List Int64))
    (level : EntityModel) (row row' : Cells) : Prop where
  written : ∀ id item, row level.primaryKey = .int id → lastFor steps id = some item →
    ∀ column, Lists type.model fields level column →
      row' column = ((type.values item).lookup column).getD .null
  kept : ∀ column, (¬Lists type.model fields level column
      ∨ ∀ id, row level.primaryKey = .int id → lastFor steps id = none) → row' column = row column

theorem key_not_listed (updatable : Updatable schema m) (accepted : ¬Refused m fields)
    (member : level ∈ m.chain) : ¬Lists m fields level level.primaryKey := by
  rintro ⟨field, listed, c, finds, one, named⟩
  obtain ⟨-, declared, -⟩ := EntityModel.findColumn_cases finds
  have own : c ∈ level.ownColumns :=
    List.mem_filter.2 ⟨declared, by simpa [Column.isMany] using one⟩
  exact accepted (Or.inr ⟨field, listed, Or.inr ⟨level, c, finds,
    updatable.keys level member c own named⟩⟩)

private theorem stepRow_listed (places : Places type.model fields plan) {r : Cells}
    {step : ε × List Int64}
    {id : Int64} (keyed : r level.primaryKey = .int id) (addressed : id ∈ step.2) {column : String}
    (listed : Lists type.model fields level column) :
    plan.stepRow type level r step column = ((type.values step.1).lookup column).getD .null := by
  have holds : Tables.holds step.2 (r level.primaryKey) = true := by
    rw [keyed]
    exact Tables.holds_int.2 addressed
  rw [stepRow, if_pos holds, Cells.assigned, lookup_sets, if_pos (places.mem_columnsAt.2 listed)]
  rfl

private theorem stepRow_unlisted (places : Places type.model fields plan) (r : Cells)
    (step : ε × List Int64) {column : String} (unlisted : ¬Lists type.model fields level column) :
    plan.stepRow type level r step column = r column := by
  unfold stepRow
  split
  · rw [Cells.assigned, lookup_sets, if_neg fun inside => unlisted (places.mem_columnsAt.1 inside)]
    rfl
  · rfl

private theorem stepRow_unaddressed (r : Cells) {step : ε × List Int64}
    (unaddressed : ∀ id ∈ step.2, r level.primaryKey ≠ .int id) :
    plan.stepRow type level r step = r := by
  refine if_neg fun holds => ?_
  obtain ⟨id, inside, keyed⟩ := Tables.holds_iff.1 holds
  exact unaddressed id inside keyed

theorem rowWritten_foldl (places : Places type.model fields plan)
    (unlisted : ¬Lists type.model fields level level.primaryKey) (steps : List (ε × List Int64))
    (r : Cells) :
    RowWritten type fields steps level r (steps.foldl (plan.stepRow type level) r) := by
  induction steps using List.reverseRecOn with
  | nil => exact ⟨nofun, fun _ _ => rfl⟩
  | append_singleton steps step ih =>
      have same := ih.kept level.primaryKey (Or.inl unlisted)
      rw [List.foldl_append]
      generalize steps.foldl (plan.stepRow type level) r = r' at ih same
      show RowWritten type fields (steps ++ [step]) level r (plan.stepRow type level r' step)
      refine ⟨fun id item keyed last column listed => ?_, fun column free => ?_⟩
      · rw [lastFor_append] at last
        by_cases addressed : id ∈ step.2
        · rw [if_pos addressed] at last
          cases last
          exact stepRow_listed places (same.trans keyed) addressed listed
        · rw [if_neg addressed] at last
          have other : ∀ id' ∈ step.2, r' level.primaryKey ≠ .int id' := by
            rintro id' inside keyed'
            cases keyed'.symm.trans (same.trans keyed)
            exact addressed inside
          rw [stepRow_unaddressed r' other]
          exact ih.written id item keyed last column listed
      · rcases free with free | free
        · exact (stepRow_unlisted places r' step free).trans (ih.kept column (Or.inl free))
        · have none (id : Int64) (keyed : r level.primaryKey = .int id) :
              id ∉ step.2 ∧ lastFor steps id = none := by
            have last := free id keyed
            rw [lastFor_append] at last
            by_cases addressed : id ∈ step.2
            · rw [if_pos addressed] at last
              cases last
            · rw [if_neg addressed] at last
              exact ⟨addressed, last⟩
          rw [stepRow_unaddressed r' fun id inside keyed =>
            (none id (same.symm.trans keyed)).1 inside]
          exact ih.kept column (Or.inr fun id keyed => (none id keyed).2)

/-! ### Links -/

def ownerOf (link : LinkTable) (row : Cells) : Option Int64 :=
  Tables.idOf? (row link.ownerColumn)

/-- What becomes of the rows of a link table: an owner has the targets of the entity that is last
written to its id, each once, and the links of all others stay. -/
structure LinksWritten (type : EntityType ε) (last : Int64 → Option ε) (link : LinkTable)
    (rows rows' : List Cells) : Prop where
  written : ∀ id item, last id = some item →
    rows'.filter (fun r => ownerOf link r = some id) =
      (Links.targets (type.links item link.field)).map (Links.rowOf link id)
  kept : rows'.filter (fun r => ((ownerOf link r).bind last).isNone) =
    rows.filter fun r => ((ownerOf link r).bind last).isNone

private theorem filter_replaced (link : LinkTable) (id : Int64) (ts : List Int64) (rows : List Cells)
    (p : Option Int64 → Bool) :
    (Links.replaced link id ts rows).filter (fun r => p (ownerOf link r)) =
      rows.filter (fun r => p (ownerOf link r) && decide (ownerOf link r ≠ some id))
        ++ if p (some id) then ts.map (Links.rowOf link id) else [] := by
  have owned (t : Int64) : ownerOf link (Links.rowOf link id t) = some id := by
    simp [ownerOf, Links.rowOf, Cells.of, Tables.idOf?]
  have other (r : Cells) :
      (!Tables.holds [id] (r link.ownerColumn)) = decide (ownerOf link r ≠ some id) := by
    have same : Tables.holds [id] (r link.ownerColumn) = true ↔ ownerOf link r = some id := by
      rw [Tables.holds_iff, ownerOf, Tables.idOf_eq_some]
      simp
    by_cases here : ownerOf link r = some id
    · rw [same.2 here]
      simp [here]
    · rw [Bool.eq_false_iff.2 fun holds => here (same.1 holds)]
      simp [here]
  rw [Links.replaced, List.filter_append, List.filter_filter]
  congr 1
  · exact List.filter_congr fun r _ => by rw [other]
  · rw [List.filter_map]
    split
    · next holds =>
        rw [List.filter_eq_self.2 fun t _ => by simpa [owned] using holds]
    · next fails =>
        rw [List.filter_eq_nil_iff.2 fun t _ => by simpa [owned] using fails]
        rfl

/-- Writing links of one more entity. -/
theorem LinksWritten.next {last : Int64 → Option ε} {rows rows' : List Cells}
    (written : LinksWritten type last link rows rows') (item : ε) (id : Int64) :
    LinksWritten type (fun o => if o = id then some item else last o) link rows
      (Links.replaced link id (Links.targets (type.links item link.field)) rows') := by
  refine ⟨fun o item' here => ?_, ?_⟩
  · rw [filter_replaced link id _ rows' fun w => decide (w = some o)]
    by_cases same : o = id
    · subst same
      rw [if_pos rfl] at here
      cases here
      rw [if_pos (by simp), List.filter_eq_nil_iff.2 (by simp), List.nil_append]
    · rw [if_neg same] at here
      rw [if_neg (by simpa using Ne.symm same), List.append_nil, ← written.written o item' here]
      refine List.filter_congr fun r _ => ?_
      by_cases owns : ownerOf link r = some o
      · simp [owns, same]
      · simp [owns]
  · have apart (w : Option Int64) : (w.bind fun o => if o = id then some item else last o).isNone =
        ((w.bind last).isNone && decide (w ≠ some id)) := by
      cases w with
      | none => rfl
      | some o =>
          by_cases same : o = id
          · simp [same]
          · simp [same]
    have kept := congrArg (List.filter fun r => decide (ownerOf link r ≠ some id)) written.kept
    rw [List.filter_filter, List.filter_filter] at kept
    rw [filter_replaced link id _ rows' fun w =>
      (w.bind fun o => if o = id then some item else last o).isNone]
    simp only [apart, Bool.and_assoc, Bool.and_self] at kept ⊢
    simp only [Bool.and_comm (decide _)] at kept
    rw [kept]
    simp

theorem linksWritten_foldl (updatable : Updatable schema type.model)
    (places : Places type.model fields plan)
    (linked : link ∈ Links.tablesOf schema type.model (some plan.links)) (D : Tables)
    (steps : List (ε × List Int64)) :
    LinksWritten type (lastFor steps) link (D link.table)
      ((plan.changesOf schema type steps).foldl Tables.changed D link.table) := by
  rw [Tables.foldl_changed, changesOf, List.filter_flatMap]
  simp only [changes_at_link updatable places linked]
  generalize D link.table = rows
  induction steps using List.reverseRecOn with
  | nil => exact ⟨nofun, rfl⟩
  | append_singleton steps step ih =>
      obtain ⟨item, ids⟩ := step
      rw [List.flatMap_append, List.foldl_append, List.flatMap_singleton]
      generalize (List.flatMap _ steps).foldl _ rows = before at ih
      have each : LinksWritten type (fun o => if o ∈ ids then some item else lastFor steps o)
        link rows
          ((ids.flatMap fun id => Links.changes type item id true link).foldl
            (fun rows c => c.onRows rows) before) := by
        induction ids using List.reverseRecOn with
        | nil => simpa using ih
        | append_singleton ids id ih' =>
            rw [List.flatMap_append, List.foldl_append, List.flatMap_singleton, Links.foldl_changes]
            have same : (fun o => if o = id then some item else
                if o ∈ ids then some item else lastFor steps o) =
                fun o => if o ∈ ids ++ [id] then some item else lastFor steps o := by
              funext o
              by_cases here : o = id
              · simp [here]
              · simp [here]
            exact same ▸ ih'.next item id
      have last : lastFor (steps ++ [(item, ids)]) =
          fun o => if o ∈ ids then some item else lastFor steps o :=
        funext (lastFor_append steps (item, ids))
      rw [last]
      exact each

/-- A table that is neither of a level nor of a listed relation stays as it is. -/
theorem foldl_changesOf_other (places : Places type.model fields plan) (D : Tables)
    (steps : List (ε × List Int64)) {table : String}
    (level : ∀ level ∈ type.model.chain, level.table ≠ table)
    (links : ∀ link ∈ Links.tablesOf schema type.model (some plan.links), link.table ≠ table) :
    (plan.changesOf schema type steps).foldl Tables.changed D table = D table := by
  rw [Tables.foldl_changed, List.filter_eq_nil_iff.2]
  · rfl
  · intro c member here
    obtain ⟨step, -, member⟩ := List.mem_flatMap.1 member
    rcases List.mem_append.1 member with written | linked
    · obtain ⟨group, inside, rfl⟩ := List.mem_map.1 written
      exact level group.1 (places.level_mem inside) (of_decide_eq_true here)
    · obtain ⟨id, -, linked⟩ := List.mem_flatMap.1 linked
      obtain ⟨link, inside, linked⟩ := List.mem_flatMap.1 linked
      exact links link inside
        ((Links.table_of_mem_changes linked).symm.trans (of_decide_eq_true here))

end

end UpdatePlan

end EntityStore
