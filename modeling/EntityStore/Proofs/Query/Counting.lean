import EntityStore.Proofs.Query.Relation
import EntityStore.Proofs.Query.Uniqueness
import Mathlib.Data.List.Nodup
import Mathlib.Data.List.Perm.Basic

/-!
Counting agrees with selecting. Where the keys of all tables are unique, the rows of a select have
different ids, a select of ids reads those, and a count gives their number: without a relation to
many rows no row of the root is met twice, and with one the rows are distinct just if their ids are.
-/

namespace EntityStore

open JoinGraph Sql

def EntityModel.idOf (m : EntityModel) (row : Row) : Value :=
  (row.value? m.root.primaryKey).getD .null

namespace Semantics

/-- Every level that statements on the model may join has a unique key, and the root keeps its own in
a column. -/
structure KeyedModel (sem : Semantics) (tables : Tables) (schema : Schema) (m : EntityModel) :
    Prop where
  keyed : ∀ level, Reachable schema m level → Keyed sem tables level.table level.primaryKey
  declared : ∃ c ∈ m.root.ownColumns, c.name = m.root.primaryKey

variable {sem : Semantics} {tables : Tables} {schema : Schema} {m : EntityModel} {g : JoinGraph}
  {c c' : Combination}

/-! ### Columns of a row -/

theorem value_rowOf (columns : List ColumnRef) (c : Combination) (name : String) :
    (rowOf columns c).value? name =
      (columns.find? fun ref => name == ref.column).map c.value := by
  unfold Row.value? rowOf
  induction columns with
  | nil => rfl
  | cons ref rest ih =>
      rw [List.map_cons, List.lookup_cons, List.find?_cons, ih]
      cases name == ref.column <;> rfl

theorem find_named (a : TableAlias) (name : String) (columns : List Column) :
    (columns.map fun c => (⟨a, c.name⟩ : ColumnRef)).find? (fun ref => name == ref.column) =
      if ∃ c ∈ columns, c.name = name then some ⟨a, name⟩ else none := by
  induction columns with
  | nil => simp
  | cons c rest ih =>
      rw [List.map_cons, List.find?_cons, ih]
      by_cases same : c.name = name
      · simp [same]
      · have apart : (name == c.name) = false := beq_eq_false_iff_ne.2 (Ne.symm same)
        simp [apart, same]

theorem find_id (grown : (ofModel m).Extends g)
    (declared : ∃ c ∈ m.root.ownColumns, c.name = m.root.primaryKey) :
    (entityColumns m g).find? (fun ref => m.root.primaryKey == ref.column) = some (idColumn m) := by
  obtain ⟨below, levels, -⟩ := EntityModel.levels_eq_cons m
  have root : m.root.isRoot = true := (EntityModel.isRoot_iff (EntityModel.root_mem_chain m)).2 rfl
  have kept : m.root.ownColumns.filter (fun c => !c.primary || m.root.isRoot) = m.root.ownColumns := by
    simp [root]
  rw [entityColumns, levels, List.flatMap_cons, List.find?_append, kept, levelAlias_root grown,
    find_named, if_pos declared]
  rfl

theorem idOf_rowOf (grown : (ofModel m).Extends g)
    (declared : ∃ c ∈ m.root.ownColumns, c.name = m.root.primaryKey) (c : Combination) :
    m.idOf (rowOf (entityColumns m g) c) = c.value (idColumn m) := by
  rw [EntityModel.idOf, value_rowOf, find_id grown declared]
  rfl

theorem idOf_rowOf_id (c : Combination) :
    m.idOf (rowOf [idColumn m] c) = c.value (idColumn m) := by
  simp [EntityModel.idOf, value_rowOf, idColumn]

/-! ### Rows with one id -/

variable {tasks : List Resolve.Task} {filter? : Option WhereGroup}

theorem root_table (grown : (ofModel m).Extends g) : g.root.table = m.root.table := by
  rw [root_extends grown, root_ofModel]
  rfl

theorem root_row (sound : g.Sound) (grown : (ofModel m).Extends g)
    (inside : c ∈ sem.combinations tables g) :
    ∃ row ∈ tables m.root.table, c rootAlias = some row ∧
      c.value (idColumn m) = row m.root.primaryKey := by
  obtain ⟨row, stored, here⟩ := (composed_of_mem sound inside).root
  rw [root_table grown] at stored
  exact ⟨row, stored, here, Combination.value_of_row here _⟩

theorem root_unique (keyed : KeyedModel sem tables schema m) (sound : g.Sound)
    (grown : (ofModel m).Extends g) (first : c ∈ sem.combinations tables g)
    (second : c' ∈ sem.combinations tables g)
    (equal : sem.same (c.value (idColumn m)) (c'.value (idColumn m)) = true) :
    c rootAlias = c' rootAlias := by
  obtain ⟨row, stored, here, value⟩ := root_row sound grown first
  obtain ⟨row', stored', here', value'⟩ := root_row sound grown second
  rw [value, value'] at equal
  rw [here, here', (keyed.keyed m.root (Or.inl (EntityModel.root_mem_chain m))).unique
    stored stored' equal]

/-- Combinations with the same row of the root have the same rows of all levels. -/
theorem level_unique (keyed : KeyedModel sem tables schema m) (sound : g.Sound)
    (grown : (ofModel m).Extends g) (first : c ∈ sem.combinations tables g)
    (second : c' ∈ sem.combinations tables g) (root : c rootAlias = c' rootAlias)
    {level : EntityModel} (member : level ∈ m.levels) :
    c (Sql.levelAlias g level) = c' (Sql.levelAlias g level) := by
  rcases levelAlias_cases grown member with ⟨-, same⟩ | ⟨node, inside, levelNode, -, same⟩
  · rw [same, root]
  · obtain ⟨other, reached, table, joined⟩ := levelNode.joined
    obtain ⟨row, stored, here, meets⟩ :=
      (composed_of_mem sound first).inner node inside levelNode.inner _ joined
    obtain ⟨row', stored', here', meets'⟩ :=
      (composed_of_mem sound second).inner node inside levelNode.inner _ joined
    rw [table] at stored stored'
    -- Both rows of the level have the key that the one row of the root has.
    have start : c.value ⟨rootAlias, m.root.primaryKey⟩ = c'.value ⟨rootAlias, m.root.primaryKey⟩ :=
      Combination.value_congr root
    rw [← start] at meets'
    have equal := sem.trans _ _ _ (sem.symm _ _ (meets_eq.1 meets).2) (meets_eq.1 meets').2
    rw [← same, here, here', (keyed.keyed other (Or.inl reached)).unique stored stored' equal]

private theorem columns_unique (keyed : KeyedModel sem tables schema m) (sound : g.Sound)
    (grown : (ofModel m).Extends g) (first : c ∈ sem.combinations tables g)
    (second : c' ∈ sem.combinations tables g)
    (equal : sem.same (c.value (idColumn m)) (c'.value (idColumn m)) = true) :
    rowOf (entityColumns m g) c = rowOf (entityColumns m g) c' := by
  have root := root_unique keyed sound grown first second equal
  refine congrArg Row.mk (List.map_congr_left fun ref inside => ?_)
  obtain ⟨level, member, inside⟩ := List.mem_flatMap.1 inside
  obtain ⟨column, -, rfl⟩ := List.mem_map.1 inside
  have same : c.value ⟨Sql.levelAlias g level, column.name⟩ =
      c'.value ⟨Sql.levelAlias g level, column.name⟩ :=
    Combination.value_congr (level_unique keyed sound grown first second root member)
  rw [same]

/-! ### Lists of ids -/

/-- The keys are the values, each once. -/
structure Lists (values keys : List Value) : Prop where
  nodup : keys.Nodup
  mem : ∀ v, v ∈ keys ↔ v ∈ values

private theorem Lists.perm {values keys others : List Value} (first : Lists values keys)
    (second : Lists values others) : keys.Perm others :=
  (List.perm_ext_iff_of_nodup first.nodup second.nodup).2 fun v =>
    (first.mem v).trans (second.mem v).symm

private theorem Lists.congr {values others keys : List Value} (lists : Lists values keys)
    (same : ∀ v, v ∈ values ↔ v ∈ others) : Lists others keys :=
  ⟨lists.nodup, fun v => (lists.mem v).trans (same v)⟩

theorem Distinct.lists {α : Type} {alike : α → α → Prop} {cs : List Combination}
    {read : Combination → α} {key : α → Value} {chosen : List α}
    (distinct : Distinct alike (cs.map read) chosen) {id : Combination → Value}
    (keyed : ∀ c ∈ cs, key (read c) = id c)
    (alike_iff : ∀ c ∈ cs, ∀ c' ∈ cs, alike (read c) (read c') ↔ id c = id c') :
    Lists (cs.map id) (chosen.map key) := by
  have origin {a : α} (inside : a ∈ chosen) : ∃ c ∈ cs, read c = a :=
    List.mem_map.1 (distinct.among a inside)
  constructor
  · refine List.pairwise_map.2 (distinct.apart.imp_of_mem fun {a b} first second apart same => ?_)
    obtain ⟨c, known, rfl⟩ := origin first
    obtain ⟨c', known', rfl⟩ := origin second
    rw [keyed c known, keyed c' known'] at same
    exact apart ((alike_iff c known c' known').2 same)
  · intro v
    rw [List.mem_map, List.mem_map]
    constructor
    · rintro ⟨a, inside, rfl⟩
      obtain ⟨c, known, rfl⟩ := origin inside
      exact ⟨c, known, (keyed c known).symm⟩
    · rintro ⟨c, known, rfl⟩
      obtain ⟨a, inside, alike⟩ := distinct.covers (read c) (List.mem_map_of_mem known)
      obtain ⟨c', known', rfl⟩ := origin inside
      refine ⟨read c', inside, ?_⟩
      rw [keyed c' known', (alike_iff c known c' known').1 alike]

structure Joined (schema : Schema) (m : EntityModel) (g : JoinGraph) : Prop where
  sound : g.Sound
  grown : (ofModel m).Extends g
  marked : g.Marked schema m

theorem joined_reach (schema : Schema) (m : EntityModel) (tasks : List Resolve.Task) :
    Joined schema m (Resolve.reach schema m tasks) where
  sound := Resolve.sound_reach schema m tasks
  grown := (Resolve.sound_reachFrom (sound_ofModel m) tasks).2
  marked := marked_reach schema m tasks

theorem Selects.origin {columns : List ColumnRef} {rows : List Row}
    (selects : Selects sem tables g filter? columns rows) :
    ∀ row ∈ rows, ∃ c ∈ sem.kept tables g filter?, rowOf columns c = row := by
  intro row inside
  unfold Selects at selects
  dsimp only at selects
  split at selects
  · exact List.mem_map.1 (selects.among row inside)
  · exact List.mem_map.1 (selects.mem_iff.1 inside)

private theorem Selects.id_rows {rows : List Row}
    (selects : Selects sem tables g filter? [idColumn m] rows) :
    rows = (rows.map m.idOf).map fun id => ⟨[(m.root.primaryKey, id)]⟩ := by
  rw [List.map_map]
  conv_lhs => rw [← List.map_id rows]
  refine List.map_congr_left fun row inside => ?_
  obtain ⟨c, -, rfl⟩ := selects.origin row inside
  rw [Function.comp_apply, idOf_rowOf_id]
  rfl

section

variable (joined : Joined schema m g) (keyed : KeyedModel sem tables schema m)
include joined keyed

theorem same_id_iff (first : c ∈ sem.kept tables g filter?) (second : c' ∈ sem.kept tables g filter?) :
    sem.same (c.value (idColumn m)) (c'.value (idColumn m)) = true ↔
      c.value (idColumn m) = c'.value (idColumn m) := by
  constructor
  · intro equal
    exact Combination.value_congr (root_unique keyed joined.sound joined.grown
      (List.mem_filter.1 first).1 (List.mem_filter.1 second).1 equal)
  · intro same
    rw [same]
    exact sem.refl _

private theorem alike_rows_iff (first : c ∈ sem.kept tables g filter?)
    (second : c' ∈ sem.kept tables g filter?) :
    sem.Alike (rowOf (entityColumns m g) c) (rowOf (entityColumns m g) c') ↔
      c.value (idColumn m) = c'.value (idColumn m) := by
  rw [← same_id_iff joined keyed first second]
  constructor
  · intro alike
    have each : ∀ ref ∈ entityColumns m g, sem.same (c.value ref) (c'.value ref) = true := by
      simpa [Alike, rowOf, List.forall₂_map_left_iff, List.forall₂_map_right_iff,
        List.forall₂_same] using alike
    exact each _ (List.mem_of_find?_eq_some (find_id joined.grown keyed.declared))
  · intro equal
    rw [columns_unique keyed joined.sound joined.grown (List.mem_filter.1 first).1
      (List.mem_filter.1 second).1 equal]
    exact List.forall₂_same.2 fun v _ => sem.refl v

private theorem alike_ids_iff (first : c ∈ sem.kept tables g filter?)
    (second : c' ∈ sem.kept tables g filter?) :
    sem.Alike (rowOf [idColumn m] c) (rowOf [idColumn m] c') ↔
      c.value (idColumn m) = c'.value (idColumn m) := by
  rw [← same_id_iff joined keyed first second]
  simp [Alike, rowOf]

theorem kept_ids_nodup (single : g.collection = false) :
    ((sem.kept tables g filter?).map fun c => c.value (idColumn m)).Nodup := by
  have byKey := joined.marked.resolve_left (by simp [single])
  have root : Keyed sem tables g.root.table m.root.primaryKey := by
    rw [root_table joined.grown]
    exact keyed.keyed m.root (Or.inl (EntityModel.root_mem_chain m))
  have apart := keys_apart joined.sound root fun node inside on joins => by
    obtain ⟨level, reachable, table, key⟩ := byKey node inside on joins
    rw [table, key]
    exact keyed.keyed level reachable
  refine List.pairwise_map.2 ((apart.sublist List.filter_sublist).imp fun {c c'} apart same => ?_)
  change sem.same (c.value (idColumn m)) (c'.value (idColumn m)) = false at apart
  rw [same, sem.refl] at apart
  cases apart

/-- The rows of a select have the ids that its condition keeps, each once. -/
theorem Selects.lists {columns : List ColumnRef} {rows : List Row}
    (selects : Selects sem tables g filter? columns rows)
    (read : ∀ c, m.idOf (rowOf columns c) = c.value (idColumn m))
    (alike_iff : ∀ c ∈ sem.kept tables g filter?, ∀ c' ∈ sem.kept tables g filter?,
      sem.Alike (rowOf columns c) (rowOf columns c') ↔ c.value (idColumn m) = c'.value (idColumn m)) :
    Lists ((sem.kept tables g filter?).map fun c => c.value (idColumn m)) (rows.map m.idOf) := by
  unfold Selects at selects
  cases collection : g.collection with
  | true =>
      rw [collection, if_pos rfl] at selects
      exact selects.lists (fun c _ => read c) alike_iff
  | false =>
      rw [collection, if_neg Bool.false_ne_true] at selects
      have ids := selects.map m.idOf
      rw [List.map_map] at ids
      have same : m.idOf ∘ rowOf columns = fun c => c.value (idColumn m) := funext read
      rw [same] at ids
      exact ⟨ids.nodup_iff.2 (kept_ids_nodup joined keyed collection), fun v => ids.mem_iff⟩

/-- A count is the number of the ids that the condition keeps. -/
theorem Counts.lists {n : Nat} (counts : Counts sem tables m g filter? n) :
    ∃ ids, Lists ((sem.kept tables g filter?).map fun c => c.value (idColumn m)) ids ∧
      n = ids.length := by
  unfold Counts at counts
  cases collection : g.collection with
  | true =>
      rw [collection, if_pos rfl] at counts
      obtain ⟨chosen, distinct, rfl⟩ := counts
      -- A count of distinct ids passes missing ones over, but keys are never missing.
      have present : ∀ c ∈ sem.kept tables g filter?, (c.value (idColumn m)).isNull = false := by
        intro c inside
        obtain ⟨row, stored, -, value⟩ :=
          root_row joined.sound joined.grown (List.mem_filter.1 inside).1
        rw [value]
        exact (keyed.keyed m.root (Or.inl (EntityModel.root_mem_chain m))).present row stored
      have all : ((sem.kept tables g filter?).map fun c => c.value (idColumn m)).filter
          (fun id => !id.isNull) =
            (sem.kept tables g filter?).map fun c => c.value (idColumn m) := by
        rw [List.filter_eq_self]
        intro v inside
        obtain ⟨c, known, rfl⟩ := List.mem_map.1 inside
        rw [present c known]
        rfl
      rw [all] at distinct
      have lists : Lists _ (chosen.map fun v => v) := distinct.lists (fun _ _ => rfl)
        fun c first c' second => same_id_iff joined keyed first second
      rw [List.map_id'] at lists
      exact ⟨chosen, lists, rfl⟩
  | false =>
      rw [collection, if_neg Bool.false_ne_true] at counts
      exact ⟨_, ⟨kept_ids_nodup joined keyed collection, fun v => Iff.rfl⟩, counts⟩

/-- The rows of a select have different ids, a select of ids reads just those, and a count is their
number; the first select may read more tables, if the same ids are kept with them. -/
theorem selects_agree {later : JoinGraph} (further : Joined schema m later)
    (same : ∀ v, v ∈ ((sem.kept tables later filter?).map fun c => c.value (idColumn m)) ↔
      v ∈ (sem.kept tables g filter?).map fun c => c.value (idColumn m))
    {rows idRows : List Row} {n : Nat}
    (selects : Selects sem tables later filter? (entityColumns m later) rows)
    (selectsIds : Selects sem tables g filter? [idColumn m] idRows)
    (counts : Counts sem tables m g filter? n) :
    (rows.map m.idOf).Nodup ∧
      idRows.Perm (rows.map fun row => ⟨[(m.root.primaryKey, m.idOf row)]⟩) ∧
      n = rows.length := by
  have whole : Lists ((sem.kept tables g filter?).map fun c => c.value (idColumn m))
      (rows.map m.idOf) :=
    (selects.lists further keyed (fun c => idOf_rowOf further.grown keyed.declared c)
      fun c first c' second => alike_rows_iff further keyed first second).congr same
  have alone := selectsIds.lists joined keyed (fun c => idOf_rowOf_id c)
    fun c first c' second => alike_ids_iff joined keyed first second
  obtain ⟨ids, counted, rfl⟩ := counts.lists joined keyed
  refine ⟨whole.nodup, ?_, ?_⟩
  · have same := (alone.perm whole).map fun id => (⟨[(m.root.primaryKey, id)]⟩ : Row)
    rw [← selectsIds.id_rows, List.map_map] at same
    exact same
  · rw [(counted.perm whole).length_eq, List.length_map]

end

end Semantics

end EntityStore
