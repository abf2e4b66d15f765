import EntityStore.Proofs.Query.Counting

/-!
The entities that tables hold. An entity has a row in the table of each level of its model, and the
keys of the rows below the root's meet the key of the root's row. On the tables of the model alone, a
combination of rows is an entity and each entity is one of the combinations, so what a select reads
there can be told without joins and aliases.
-/

namespace EntityStore

open JoinGraph Sql

namespace EntityModel

/-- The levels are told apart by their tables, the root by its path, and the columns of a table by
their names. -/
structure Separate (m : EntityModel) : Prop where
  paths : ∀ level ∈ m.chain, level.path = m.root.path → level = m.root
  tables : (m.chain.map (·.table)).Nodup
  columns : ∀ level ∈ m.chain, (level.ownColumns.map (·.name)).Nodup

instance (m : EntityModel) : Decidable m.Separate :=
  decidable_of_iff ((∀ level ∈ m.chain, level.path = m.root.path → level = m.root) ∧
      (m.chain.map (·.table)).Nodup ∧ ∀ level ∈ m.chain, (level.ownColumns.map (·.name)).Nodup)
    ⟨fun ⟨paths, tables, columns⟩ => ⟨paths, tables, columns⟩,
      fun separate => ⟨separate.paths, separate.tables, separate.columns⟩⟩

theorem Separate.level_eq {m level other : EntityModel} (separate : m.Separate)
    (member : level ∈ m.chain) (present : other ∈ m.chain) (same : level.table = other.table) :
    level = other :=
  List.inj_on_of_nodup_map separate.tables member present same

def wholeRow (m : EntityModel) (e : EntityModel → Cells) : Row :=
  ⟨m.levels.flatMap fun level =>
    (level.ownColumns.filter fun c => !c.primary || level.isRoot).map fun c =>
      (c.name, e level c.name)⟩

end EntityModel

/-! ### Tables of a model -/

namespace JoinGraph

variable {m : EntityModel}

/-- Every node is that of a level below the root. -/
theorem table_of_joins (levels : List EntityModel) (g : JoinGraph) {node : JoinNode}
    (inside : node ∈ (levels.foldl (joinLevel m.root) g).joins) :
    node ∈ g.joins ∨ ∃ level ∈ levels, node.table = level.table := by
  induction levels generalizing g with
  | nil => exact Or.inl inside
  | cons level rest ih =>
      rw [List.foldl_cons] at inside
      rcases ih (joinLevel m.root g level) inside with earlier | ⟨other, member, table⟩
      · unfold joinLevel at earlier
        cases known : g.aliasOf? (levelKey "" level) with
        | some a =>
            rw [ensure_found _ _ _ known] at earlier
            exact Or.inl earlier
        | none =>
            rw [ensure_added known] at earlier
            rcases List.mem_append.1 earlier with old | new
            · exact Or.inl old
            · rw [List.mem_singleton.1 new]
              exact Or.inr ⟨level, List.mem_cons_self, rfl⟩
      · exact Or.inr ⟨other, List.mem_cons_of_mem _ member, table⟩

private theorem Sound.node_eq {g : JoinGraph} (sound : g.Sound) {node other : JoinNode}
    (member : node ∈ g.nodes) (present : other ∈ g.nodes)
    (same : node.tableAlias = other.tableAlias) : node = other := by
  have found := sound.nodeOf_mem member
  rw [same, sound.nodeOf_mem present] at found
  exact (Option.some.inj found).symm

private theorem Sound.aliasOf_mem {g : JoinGraph} (sound : g.Sound) {node : JoinNode}
    (member : node ∈ g.nodes) : g.aliasOf? node.key = some node.tableAlias := by
  cases known : g.aliasOf? node.key with
  | none => exact absurd rfl (aliasOf_eq_none known node member)
  | some a =>
      obtain ⟨other, present, key, rfl⟩ := aliasOf_eq_some known
      rw [List.inj_on_of_nodup_map sound.distinct present member key]

/-- A table that is joined is that of one level below the root, by the keys of both. -/
theorem level_of_join (separate : m.Separate) {node : JoinNode} (inside : node ∈ (ofModel m).joins) :
    ∃ level ∈ m.chain, level ≠ m.root ∧ node.table = level.table ∧
      node.on? = some ⟨rootAlias, m.root.primaryKey, level.primaryKey⟩ ∧
      node.tableAlias = Sql.levelAlias (ofModel m) level := by
  obtain ⟨below, levels, apart⟩ := EntityModel.levels_eq_cons m
  have lower : ∀ level ∈ m.levels.tail, level ∈ m.chain ∧ level ≠ m.root := by
    intro level member
    refine ⟨EntityModel.mem_levels.1 (List.mem_of_mem_tail member), ?_⟩
    rintro rfl
    rw [levels] at member
    exact apart member
  rcases table_of_joins m.levels.tail _ inside with none | ⟨level, member, table⟩
  · cases none
  · obtain ⟨known, unlike⟩ := lower level member
    obtain ⟨node', key⟩ := (levelled_ofModel m).nodes node inside
    obtain ⟨other, present, same, joined⟩ := node'.joined
    cases separate.level_eq present known (same.symm.trans table)
    obtain ⟨a, placed, -, here⟩ :=
      aliasOf_level (Extends.refl (ofModel m)) (EntityModel.mem_levels.2 known) unlike
    have found := (sound_ofModel m).aliasOf_mem (List.mem_cons_of_mem _ inside)
    rw [key, table, ← levelKey_start, placed] at found
    exact ⟨_, known, unlike, table, joined, (Option.some.inj found).symm.trans here.symm⟩

/-- Different levels have different aliases. -/
theorem levelAlias_injective (separate : m.Separate) {level other : EntityModel}
    (member : level ∈ m.chain) (present : other ∈ m.chain)
    (same : Sql.levelAlias (ofModel m) level = Sql.levelAlias (ofModel m) other) :
    level = other := by
  have table {level : EntityModel} (member : level ∈ m.chain) :
      ∃ node ∈ (ofModel m).nodes, node.table = level.table ∧
        node.tableAlias = Sql.levelAlias (ofModel m) level := by
    rcases levelAlias_cases (Extends.refl _) (EntityModel.mem_levels.2 member) with
      ⟨rfl, placed⟩ | ⟨node, joins, -, table, placed⟩
    · refine ⟨(ofModel m).root, List.mem_cons_self, by rw [root_ofModel]; rfl, ?_⟩
      rw [placed]
      exact (sound_ofModel m).numbered 0 _ rfl
    · exact ⟨node, List.mem_cons_of_mem _ joins, table, placed⟩
  obtain ⟨node, inside, here, placed⟩ := table member
  obtain ⟨node', inside', here', placed'⟩ := table present
  cases (sound_ofModel m).node_eq inside inside' (placed.trans (same.trans placed'.symm))
  exact separate.level_eq member present (here.symm.trans here')

private theorem collection_ofModel (m : EntityModel) : (ofModel m).collection = false := by
  have kept (levels : List EntityModel) (g : JoinGraph) :
      (levels.foldl (joinLevel m.root) g).collection = g.collection := by
    induction levels generalizing g with
    | nil => rfl
    | cons level rest ih =>
        rw [List.foldl_cons, ih, joinLevel, JoinGraph.ensure]
        split <;> rfl
  exact kept _ _

end JoinGraph

namespace Semantics

variable {sem : Semantics} {tables : Tables} {m : EntityModel} {g : JoinGraph}

/-! ### Combinations of given rows -/

private theorem place_mem_joinNode {node : JoinNode} {on : JoinOn} {c : Combination} {row : Cells}
    (joined : node.on? = some on) (found : row ∈ sem.matching tables node on c) :
    c.place node.tableAlias (some row) ∈ sem.joinNode tables node c := by
  unfold joinNode
  rw [joined]
  dsimp only
  split
  · next none =>
      rw [none] at found
      cases found
  · exact List.mem_map_of_mem found

/-- Rows of the tables of a graph that fulfil the conditions of its joins are one of its
combinations. -/
theorem exists_combination (sound : g.Sound) {rows : TableAlias → Cells}
    (first : rows rootAlias ∈ tables g.root.table)
    (each : ∀ node ∈ g.joins, ∃ on, node.on? = some on ∧
      rows node.tableAlias ∈ tables node.table ∧
      sem.meets (rows on.left on.leftColumn) (rows node.tableAlias on.rightColumn) = true) :
    ∃ c ∈ sem.combinations tables g, ∀ a, g.Has a → c a = some (rows a) := by
  obtain ⟨root, joins, collection⟩ := g
  -- By the last join: it is to a table before it, which has its row already.
  induction joins using List.reverseRecOn with
  | nil =>
      have start : root.tableAlias = rootAlias := sound.numbered 0 root rfl
      refine ⟨_, List.mem_map_of_mem first, fun a has => ?_⟩
      have only : a = root.tableAlias := by
        rw [start]
        exact congrArg TableAlias.mk (Nat.lt_one_iff.1 has)
      rw [only, Combination.place_self, start]
  | append_singleton joins node ih =>
      obtain ⟨before, numbered, on, joined, left⟩ :=
        JoinGraph.Sound.last (g := ⟨root, joins, collection⟩) sound
      obtain ⟨c, known, here⟩ := ih before first fun other inside =>
        each other (List.mem_append_left _ inside)
      have kept {a : TableAlias} (low : a.number ≤ joins.length) : c a = some (rows a) :=
        here a (Nat.lt_succ_of_le low)
      obtain ⟨on', joined', stored, meets⟩ := each node (by simp)
      cases joined.symm.trans joined'
      have found : rows node.tableAlias ∈ sem.matching tables node on c := by
        refine mem_matching.2 ⟨stored, ?_⟩
        rw [Combination.value_of_row (kept left)]
        exact meets
      refine ⟨c.place node.tableAlias (some (rows node.tableAlias)), ?_, fun a has => ?_⟩
      · rw [combinations_snoc ⟨root, joins, collection⟩, List.mem_flatMap]
        exact ⟨c, known, place_mem_joinNode joined found⟩
      · by_cases last : a = node.tableAlias
        · rw [last, Combination.place_self]
        · rw [Combination.place_other last]
          refine kept ?_
          have bound : a.number < (joins ++ [node]).length + 1 := has
          rw [List.length_append, List.length_singleton] at bound
          rcases Nat.lt_or_ge joins.length a.number with high | low
          · have same : a = node.tableAlias := by
              rw [numbered]
              exact congrArg TableAlias.mk (Nat.le_antisymm (Nat.le_of_lt_succ bound) high)
            exact absurd same last
          · exact low

/-! ### Entities -/

/-- The rows are an entity: there is one in the table of each level, and those below the root have
keys that meet the root's. -/
structure Stands (sem : Semantics) (tables : Tables) (m : EntityModel) (e : EntityModel → Cells) :
    Prop where
  stored : ∀ level ∈ m.chain, e level ∈ tables level.table
  met : ∀ level ∈ m.chain, level ≠ m.root →
    sem.meets (e m.root m.root.primaryKey) (e level level.primaryKey) = true

def Shows (m : EntityModel) (c : Combination) (e : EntityModel → Cells) : Prop :=
  ∀ level ∈ m.chain, c (Sql.levelAlias (ofModel m) level) = some (e level)

private theorem Shows.rowOf {c : Combination} {e : EntityModel → Cells} (shows : Shows m c e) :
    rowOf (entityColumns m (ofModel m)) c = m.wholeRow e := by
  refine congrArg Row.mk ?_
  rw [entityColumns, List.map_flatMap]
  refine List.flatMap_congr fun level member => ?_
  rw [List.map_map]
  refine List.map_congr_left fun column _ => ?_
  exact congrArg (Prod.mk column.name)
    (Combination.value_of_row (shows level (EntityModel.mem_levels.1 member)) column.name)

/-- Every combination of a model's tables is an entity. -/
theorem exists_entity (separate : m.Separate) {c : Combination}
    (inside : c ∈ sem.combinations tables (ofModel m)) :
    ∃ e, sem.Stands tables m e ∧ Shows m c e := by
  have sound := sound_ofModel m
  have grown := Extends.refl (ofModel m)
  obtain ⟨row, kept, first, -⟩ := root_row sound grown inside
  have each : ∀ level ∈ m.chain, ∃ row ∈ tables level.table,
      c (Sql.levelAlias (ofModel m) level) = some row ∧
      (level ≠ m.root → sem.meets (c.value ⟨rootAlias, m.root.primaryKey⟩)
        (row level.primaryKey) = true) := by
    intro level member
    rcases levelAlias_cases grown (EntityModel.mem_levels.2 member) with
      ⟨rfl, placed⟩ | ⟨node, joins, levelNode, table, placed⟩
    · exact ⟨row, kept, placed ▸ first, fun other => absurd rfl other⟩
    · obtain ⟨other, reached, otherTable, joined⟩ := levelNode.joined
      obtain ⟨row, stored, here, meets⟩ :=
        (composed_of_mem sound inside).inner node joins levelNode.inner _ joined
      cases separate.level_eq reached member (otherTable.symm.trans table)
      rw [table] at stored
      exact ⟨row, stored, placed ▸ here, fun _ => meets⟩
  refine ⟨fun level => (c (Sql.levelAlias (ofModel m) level)).getD row, ⟨?_, ?_⟩, ?_⟩
  · intro level member
    obtain ⟨own, stored, here, -⟩ := each level member
    rw [here]
    exact stored
  · intro level member lower
    obtain ⟨own, -, here, meets⟩ := each level member
    rw [here, levelAlias_root grown, first]
    rw [Combination.value_of_row first] at meets
    exact meets lower
  · intro level member
    obtain ⟨own, -, here, -⟩ := each level member
    show _ = some ((c (Sql.levelAlias (ofModel m) level)).getD row)
    rw [here]
    rfl

/-- Every entity is a combination of its model's tables. -/
theorem Stands.exists_shown (separate : m.Separate) {e : EntityModel → Cells}
    (stands : sem.Stands tables m e) : ∃ c ∈ sem.combinations tables (ofModel m), Shows m c e := by
  have sound := sound_ofModel m
  -- The rows by alias: a level is the only one of its alias.
  let rows : TableAlias → Cells := fun a =>
    ((m.chain.find? fun level => Sql.levelAlias (ofModel m) level == a).map e).getD (e m.root)
  have placed (level : EntityModel) (member : level ∈ m.chain) :
      rows (Sql.levelAlias (ofModel m) level) = e level := by
    cases found : m.chain.find? fun other =>
        Sql.levelAlias (ofModel m) other == Sql.levelAlias (ofModel m) level with
    | none => exact absurd (beq_self_eq_true _) (List.find?_eq_none.1 found level member)
    | some other =>
        have same := List.find?_some found
        cases levelAlias_injective separate (List.mem_of_find?_eq_some found) member
          (eq_of_beq same)
        simp only [rows, found, Option.map_some, Option.getD_some]
  have start : rows rootAlias = e m.root := by
    rw [← levelAlias_root (Extends.refl (ofModel m))]
    exact placed _ (EntityModel.root_mem_chain m)
  have first : rows rootAlias ∈ tables (ofModel m).root.table := by
    rw [start, root_ofModel]
    exact stands.stored _ (EntityModel.root_mem_chain m)
  have each : ∀ node ∈ (ofModel m).joins, ∃ on, node.on? = some on ∧
      rows node.tableAlias ∈ tables node.table ∧
      sem.meets (rows on.left on.leftColumn) (rows node.tableAlias on.rightColumn) = true := by
    intro node joins
    obtain ⟨level, member, lower, table, joined, named⟩ := level_of_join separate joins
    refine ⟨_, joined, ?_, ?_⟩
    · rw [named, placed level member, table]
      exact stands.stored level member
    · rw [named, placed level member, start]
      exact stands.met level member lower
  obtain ⟨c, inside, here⟩ := exists_combination sound first each
  refine ⟨c, inside, fun level member => ?_⟩
  rw [here _ ?_, placed level member]
  rcases levelAlias_cases (Extends.refl (ofModel m)) (EntityModel.mem_levels.2 member) with
    ⟨-, root⟩ | ⟨node, joins, -, -, named⟩
  · rw [root]
    exact sound.has_root
  · rw [← named]
    exact sound.has_of_mem (List.mem_cons_of_mem _ joins)

/-- A select on the tables of a model reads the entities that fulfil its condition. -/
theorem Selects.entities (separate : m.Separate) {filter? : Option WhereGroup} {rows : List Row}
    (test : (EntityModel → Cells) → Prop)
    (tests : ∀ c e, Shows m c e → (sem.keeps filter? c = true ↔ test e))
    (selects : sem.Selects tables (ofModel m) filter? (entityColumns m (ofModel m)) rows)
    (row : Row) :
    row ∈ rows ↔ ∃ e, sem.Stands tables m e ∧ test e ∧ row = m.wholeRow e := by
  have all : rows.Perm
      ((sem.kept tables (ofModel m) filter?).map (rowOf (entityColumns m (ofModel m)))) := by
    unfold Selects at selects
    rwa [collection_ofModel, if_neg Bool.false_ne_true] at selects
  rw [all.mem_iff, List.mem_map]
  constructor
  · rintro ⟨c, known, rfl⟩
    obtain ⟨inside, keeps⟩ := List.mem_filter.1 known
    obtain ⟨e, stands, shows⟩ := exists_entity separate inside
    exact ⟨e, stands, (tests c e shows).1 keeps, shows.rowOf⟩
  · rintro ⟨e, stands, holds, rfl⟩
    obtain ⟨c, inside, shows⟩ := stands.exists_shown separate
    exact ⟨c, List.mem_filter.2 ⟨inside, (tests c e shows).2 holds⟩, shows.rowOf⟩

end Semantics

end EntityStore
