import Mathlib.Logic.Relation
import Mathlib.Data.List.Nodup
import Mathlib.Data.List.Perm.Basic
import EntityStore.Proofs.Model.Chain
import EntityStore.Proofs.Schema.Definitions
import EntityStore.Storage.Schema

/-!
The order in which tables are made. A table comes after those that its foreign keys name, as long as
they do not name each other in a circle. The order goes by what a level waits for: the level above
it, and the root of each model that a relation leads to. So a relation has to lead to a root, or up
its own chain; a table that is named on another level may come too late.
-/

namespace EntityStore

/-- A list without circles has a member that leads to no other one. -/
theorem exists_unled {α : Type} {r : α → α → Prop} (irreflexive : ∀ a, ¬ r a a)
    (transitive : ∀ a b c, r a b → r b c → r a c) {members : List α} (filled : members ≠ []) :
    ∃ a ∈ members, ∀ b ∈ members, ¬ r a b := by
  induction members with
  | nil => exact absurd rfl filled
  | cons first rest ih =>
      by_cases alone : rest = []
      · subst alone
        refine ⟨first, List.mem_cons_self, fun b member => ?_⟩
        rw [List.mem_singleton.1 member]
        exact irreflexive first
      · obtain ⟨a, member, last⟩ := ih alone
        -- What the first one led to, this one would lead to through it.
        by_cases leads : r a first
        · refine ⟨first, List.mem_cons_self, fun b among further => ?_⟩
          rcases List.mem_cons.1 among with rfl | later
          · exact irreflexive _ further
          · exact last b later (transitive a first b leads further)
        · refine ⟨a, List.mem_cons_of_mem first member, fun b among => ?_⟩
          rcases List.mem_cons.1 among with rfl | later
          · exact leads
          · exact last b later

namespace EntityModel

theorem chain_reached {r : EntityModel → EntityModel → Prop} {level ancestor : EntityModel}
    (up : ∀ e ∈ level.chain, ∀ p, e.parent? = some p → r e p) (member : ancestor ∈ level.chain)
    (other : ancestor ≠ level) : Relation.TransGen r level ancestor := by
  obtain ⟨own, above⟩ := level
  unfold chain at up member
  dsimp only at up member
  induction above generalizing own with
  | nil => exact absurd (List.mem_singleton.1 member) other
  | cons next rest ih =>
      have step : r ⟨own, next :: rest⟩ ⟨next, rest⟩ := up _ List.mem_cons_self _ rfl
      have later : ancestor ∈ chainFrom next rest :=
        (List.mem_cons.1 member).resolve_left other
      by_cases same : ancestor = ⟨next, rest⟩
      · rw [same]
        exact .single step
      · exact .head step (ih next (fun e above => up e (List.mem_cons_of_mem _ above)) later same)

theorem parent_mem_chain {level parent : EntityModel} (above : level.parent? = some parent) :
    parent ∈ level.chain := by
  obtain ⟨own, _ | ⟨next, rest⟩⟩ := level
  · cases above
  · cases above
    exact List.mem_cons_of_mem _ (self_mem_chain _)

theorem parent_ne {level parent : EntityModel} (above : level.parent? = some parent) :
    parent ≠ level := by
  obtain ⟨own, _ | ⟨next, rest⟩⟩ := level
  · cases above
  · cases above
    intro same
    have lengths := congrArg (fun m => m.above.length) same
    simp at lengths

end EntityModel

namespace Storage

open Sql EntityModel

variable {schema : Schema} {models : List EntityModel}

/-! ### Levels that are listed -/

private theorem mem_addDistinct {listed : List EntityModel} {m level : EntityModel} :
    level ∈ addDistinct listed m → level ∈ listed ∨ level = m := by
  unfold addDistinct
  split
  · exact Or.inl
  · intro member
    exact (List.mem_append.1 member).imp_right List.mem_singleton.1

theorem subset_addDistinct (listed : List EntityModel) (m : EntityModel) :
    listed ⊆ addDistinct listed m := by
  unfold addDistinct
  split
  · exact List.Subset.refl listed
  · exact List.subset_append_left listed [m]

theorem path_addDistinct (listed : List EntityModel) (m : EntityModel) :
    ∃ level ∈ addDistinct listed m, level.path = m.path := by
  unfold addDistinct
  split
  · next known =>
      obtain ⟨level, member, same⟩ := List.any_eq_true.1 known
      exact ⟨level, member, eq_of_beq same⟩
  · exact ⟨m, List.mem_append_right listed (List.mem_singleton_self m), rfl⟩

private theorem nodup_addDistinct {listed : List EntityModel} (distinct : (listed.map path).Nodup)
    (m : EntityModel) : ((addDistinct listed m).map path).Nodup := by
  unfold addDistinct
  split
  · exact distinct
  · next fresh =>
      rw [List.map_append, List.map_singleton]
      refine List.nodup_append.2 ⟨distinct, List.nodup_singleton _, ?_⟩
      intro p member other single
      obtain ⟨level, known, rfl⟩ := List.mem_map.1 member
      rw [List.mem_singleton.1 single]
      intro same
      exact fresh (List.any_eq_true.2 ⟨level, known, beq_of_eq same⟩)

def listed (models : List EntityModel) : List EntityModel :=
  (models.flatMap EntityModel.levels).foldl addDistinct []

theorem foldl_addDistinct (levels start : List EntityModel) (distinct : (start.map path).Nodup) :
    ((levels.foldl addDistinct start).map path).Nodup ∧
      start ⊆ levels.foldl addDistinct start ∧
      (∀ level ∈ levels.foldl addDistinct start, level ∈ start ∨ level ∈ levels) ∧
      ∀ level ∈ levels, ∃ known ∈ levels.foldl addDistinct start, known.path = level.path := by
  induction levels generalizing start with
  | nil => exact ⟨distinct, List.Subset.refl start, fun _ => Or.inl, List.forall_mem_nil _⟩
  | cons first rest ih =>
      obtain ⟨nodup, kept, origin, covered⟩ :=
        ih (addDistinct start first) (nodup_addDistinct distinct first)
      refine ⟨nodup, List.Subset.trans (subset_addDistinct start first) kept,
        fun level member => ?_, ?_⟩
      · rcases origin level member with before | later
        · rcases mem_addDistinct before with known | rfl
          · exact Or.inl known
          · exact Or.inr List.mem_cons_self
        · exact Or.inr (List.mem_cons_of_mem first later)
      · refine List.forall_mem_cons.2 ⟨?_, covered⟩
        obtain ⟨known, member, same⟩ := path_addDistinct start first
        exact ⟨known, kept member, same⟩

theorem listed_paths (models : List EntityModel) : ((listed models).map path).Nodup :=
  (foldl_addDistinct _ [] List.nodup_nil).1

theorem mem_of_listed {level : EntityModel} (member : level ∈ listed models) :
    level ∈ models.flatMap levels :=
  ((foldl_addDistinct _ [] List.nodup_nil).2.2.1 level member).resolve_left List.not_mem_nil

theorem exists_listed {level : EntityModel} (member : level ∈ models.flatMap levels) :
    ∃ known ∈ listed models, known.path = level.path :=
  (foldl_addDistinct _ [] List.nodup_nil).2.2.2 level member

/-! ### The order -/

def Awaits (schema : Schema) (level other : EntityModel) : Prop :=
  level.path ≠ other.path ∧ ∃ dep ∈ dependencies schema level, dep.path = other.path

private theorem isReady_iff {pending ordered : List EntityModel} {level : EntityModel} :
    isReady schema pending ordered level = true ↔ ∀ dep ∈ dependencies schema level,
      dep.path = level.path ∨ (∃ o ∈ ordered, o.path = dep.path) ∨
        ∀ p ∈ pending, p.path ≠ dep.path := by
  simp [isReady, same, or_assoc]

theorem arrange_nil (schema : Schema) (steps : Nat) (ordered : List EntityModel) :
    arrange schema steps [] ordered = ordered := by
  cases steps <;> rfl

/-- A step moves a level, and one that is ready if there is any. -/
theorem arrange_step (schema : Schema) (steps : Nat) {pending : List EntityModel}
    (filled : pending ≠ []) (ordered : List EntityModel) :
    ∃ level rest, (level :: rest).Perm pending ∧
      arrange schema (steps + 1) pending ordered = arrange schema steps rest (ordered ++ [level]) ∧
      ((∃ ready ∈ pending, isReady schema pending ordered ready = true) →
        isReady schema pending ordered level = true) := by
  have found : ∃ next, (pending.findIdx? (isReady schema pending ordered)).getD 0 = next ∧
      ∃ bound : next < pending.length,
        ((∃ ready ∈ pending, isReady schema pending ordered ready = true) →
          isReady schema pending ordered pending[next] = true) := by
    cases search : pending.findIdx? (isReady schema pending ordered) with
    | none =>
        refine ⟨0, rfl, List.length_pos_iff.2 filled, fun ⟨ready, member, isReady⟩ => ?_⟩
        have never := List.findIdx?_eq_none_iff.1 search ready member
        rw [isReady] at never
        cases never
    | some next =>
        obtain ⟨bound, holds, -⟩ := List.findIdx?_eq_some_iff_getElem.1 search
        exact ⟨next, rfl, bound, fun _ => holds⟩
  obtain ⟨next, chosen, bound, ready⟩ := found
  refine ⟨pending[next], pending.eraseIdx next, List.getElem_cons_eraseIdx_perm bound, ?_, ready⟩
  rw [arrange, chosen, List.getElem?_eq_getElem bound]

private theorem arrange_perm {steps : Nat} {pending ordered : List EntityModel}
    (enough : pending.length ≤ steps) :
    (arrange schema steps pending ordered).Perm (ordered ++ pending) := by
  induction steps generalizing pending ordered with
  | zero =>
      rw [List.length_eq_zero_iff.1 (Nat.le_zero.1 enough), List.append_nil]
      exact List.Perm.refl ordered
  | succ steps ih =>
      by_cases filled : pending = []
      · rw [filled, arrange_nil, List.append_nil]
      · obtain ⟨level, rest, moved, stepped, -⟩ := arrange_step schema steps filled ordered
        have shorter : rest.length ≤ steps := by
          have lengths := moved.length_eq
          rw [List.length_cons] at lengths
          omega
        rw [stepped]
        refine (ih shorter).trans ?_
        rw [List.append_assoc]
        exact moved.append_left ordered

/-- As long as some level is ready at every step, none comes before one that it waits for. -/
theorem arrange_sorted {steps : Nat} {pending ordered : List EntityModel}
    (enough : pending.length ≤ steps) (distinct : ((ordered ++ pending).map path).Nodup)
    (free : ∀ rest ⊆ pending, rest ≠ [] →
      ∃ level ∈ rest, ∀ other ∈ rest, ¬ Awaits schema level other)
    (sorted : ordered.Pairwise fun earlier later => ¬ Awaits schema earlier later)
    (done : ∀ o ∈ ordered, ∀ p ∈ pending, ¬ Awaits schema o p) :
    (arrange schema steps pending ordered).Pairwise
      fun earlier later => ¬ Awaits schema earlier later := by
  induction steps generalizing pending ordered with
  | zero => exact sorted
  | succ steps ih =>
      by_cases filled : pending = []
      · rwa [filled, arrange_nil]
      · obtain ⟨level, rest, moved, stepped, prefers⟩ := arrange_step schema steps filled ordered
        have within : level :: rest ⊆ pending := moved.subset
        have shorter : rest.length ≤ steps := by
          have lengths := moved.length_eq
          rw [List.length_cons] at lengths
          omega
        -- Somewhere nothing that is waited for is pending, so the level that moves is ready too.
        have ready : isReady schema pending ordered level = true := by
          obtain ⟨first, member, waits⟩ := free pending (List.Subset.refl _) filled
          refine prefers ⟨first, member, isReady_iff.2 fun dep depends => ?_⟩
          by_cases itself : dep.path = first.path
          · exact Or.inl itself
          · refine Or.inr (Or.inr fun p among same => waits p among ⟨?_, dep, depends, same.symm⟩)
            rw [same]
            exact Ne.symm itself
        have apart : ∀ p ∈ rest, ¬ Awaits schema level p := by
          rintro p later ⟨different, dep, depends, leads⟩
          rcases isReady_iff.1 ready dep depends with itself | ⟨o, before, same⟩ | never
          · exact different (itself.symm.trans leads)
          · rw [List.map_append] at distinct
            exact (List.nodup_append.1 distinct).2.2 _ (List.mem_map_of_mem before) _
              (List.mem_map_of_mem (within (List.mem_cons_of_mem level later))) (same.trans leads)
          · exact never p (within (List.mem_cons_of_mem level later)) leads.symm
        rw [stepped]
        refine ih shorter ?_ ?_ ?_ ?_
        · rw [List.append_assoc]
          exact ((moved.append_left ordered).map path).nodup_iff.2 distinct
        · exact fun others among => free others fun o member =>
            within (List.mem_cons_of_mem level (among member))
        · refine List.pairwise_append.2
            ⟨sorted, List.pairwise_singleton _ _, fun o before l single => ?_⟩
          rw [List.mem_singleton.1 single]
          exact done o before level (within List.mem_cons_self)
        · intro o member p later
          rcases List.mem_append.1 member with before | single
          · exact done o before p (within (List.mem_cons_of_mem level later))
          · rw [List.mem_singleton.1 single]
            exact apart p later

theorem creationOrder_perm (schema : Schema) (models : List EntityModel) :
    (creationOrder schema models).Perm (listed models) :=
  arrange_perm (Nat.le_refl _)

private theorem creationOrder_sorted
    (free : ∀ rest ⊆ listed models, rest ≠ [] →
      ∃ level ∈ rest, ∀ other ∈ rest, ¬ Awaits schema level other) :
    (creationOrder schema models).Pairwise fun earlier later => ¬ Awaits schema earlier later :=
  arrange_sorted (Nat.le_refl _) (listed_paths models) free List.Pairwise.nil
    (List.forall_mem_nil _)

/-! ### Tables that name each other -/

/-- The statement that makes the table of a level names in a foreign key the table that the
statement of the other one makes. -/
def References (schema : Schema) (d : Dialect) (level other : EntityModel) : Prop :=
  ∃ table ∈ referencedTables d (createTable schema d level).sql,
    madeTable? d (createTable schema d other).sql = some table

theorem references_iff {d : Dialect} {level other : EntityModel} :
    References schema d level other ↔
      ∃ target ∈ level.keyTargets schema, unmarked target.table = unmarked other.table := by
  unfold References
  rw [referencedTables_createTable, madeTable_createTable]
  constructor
  · rintro ⟨table, member, made⟩
    obtain ⟨target, leads, rfl⟩ := List.mem_map.1 member
    exact ⟨target, leads, (Option.some.inj made).symm⟩
  · rintro ⟨target, leads, same⟩
    exact ⟨_, List.mem_map_of_mem leads, congrArg some same.symm⟩

def levelsOf (models : List EntityModel) : List EntityModel :=
  models.flatMap levels

def concerned (schema : Schema) (models : List EntityModel) : List EntityModel :=
  levelsOf models ++ (levelsOf models).flatMap (keyTargets schema)

/-- Each path stands for one model, and each table belongs to one path. -/
structure ToldApart (schema : Schema) (models : List EntityModel) : Prop where
  paths : ∀ a ∈ concerned schema models, ∀ b ∈ concerned schema models, a.path = b.path → a = b
  tables : ∀ a ∈ concerned schema models, ∀ b ∈ concerned schema models,
    unmarked a.table = unmarked b.table → a.path = b.path

/-- The foreign keys of one level's table name the table of another level. -/
def Refers (schema : Schema) (d : Dialect) (models : List EntityModel) (level other : EntityModel) :
    Prop :=
  level ∈ levelsOf models ∧ other ∈ levelsOf models ∧ level ≠ other ∧
    References schema d level other

def Waits (schema : Schema) (models : List EntityModel) (level other : EntityModel) : Prop :=
  level ∈ levelsOf models ∧ other ∈ levelsOf models ∧ Awaits schema level other

/-- Where a relation may lead: to a root, up its own chain, or to a model whose chain has no table
here. -/
def LeadsToRoots (schema : Schema) (models : List EntityModel) : Prop :=
  ∀ level ∈ levelsOf models, ∀ target ∈ level.relationTargets schema,
    target.isRoot = true ∨ target ∈ level.chain ∨
      ∀ other ∈ levelsOf models, other.path ≠ target.root.path

theorem chain_subset_levelsOf {level : EntityModel} (member : level ∈ levelsOf models) :
    level.chain ⊆ levelsOf models := by
  intro above higher
  obtain ⟨m, known, among⟩ := List.mem_flatMap.1 member
  obtain ⟨below, split⟩ := chain_split (mem_levels.1 among)
  refine List.mem_flatMap.2 ⟨m, known, mem_levels.2 ?_⟩
  rw [split]
  exact List.mem_append_right below higher

theorem refers_parent {d : Dialect} {level parent : EntityModel} (member : level ∈ levelsOf models)
    (above : level.parent? = some parent) : Refers schema d models level parent := by
  refine ⟨member, chain_subset_levelsOf member (parent_mem_chain above), (parent_ne above).symm,
    references_iff.2 ⟨parent, ?_, rfl⟩⟩
  rw [keyTargets, above]
  exact List.mem_cons_self

private theorem refers_up {d : Dialect} {level ancestor : EntityModel}
    (member : level ∈ levelsOf models)
    (above : ancestor ∈ level.chain) (other : ancestor ≠ level) :
    Relation.TransGen (Refers schema d models) level ancestor :=
  chain_reached (fun _ higher _ => refers_parent (chain_subset_levelsOf member higher)) above other

theorem mem_concerned {level : EntityModel} (member : level ∈ levelsOf models) :
    level ∈ concerned schema models :=
  List.mem_append_left _ member

theorem target_mem_concerned {level target : EntityModel} (member : level ∈ levelsOf models)
    (leads : target ∈ level.keyTargets schema) : target ∈ concerned schema models :=
  List.mem_append_right _ (List.mem_flatMap.2 ⟨level, member, leads⟩)

theorem mem_dependencies {level dep : EntityModel} :
    dep ∈ dependencies schema level ↔
      level.parent? = some dep ∨ ∃ target ∈ level.relationTargets schema, target.root = dep := by
  simp [dependencies, relationTargets]

theorem mem_keyTargets {level target : EntityModel} :
    target ∈ level.keyTargets schema ↔
      level.parent? = some target ∨ target ∈ level.relationTargets schema := by
  simp [keyTargets]

section

variable {d : Dialect} (apart : ToldApart schema models)

include apart

private theorem ToldApart.listed_iff {level : EntityModel} :
    level ∈ listed models ↔ level ∈ levelsOf models := by
  refine ⟨mem_of_listed, fun member => ?_⟩
  obtain ⟨known, among, same⟩ := exists_listed member
  rwa [← apart.paths known (mem_concerned (mem_of_listed among)) level (mem_concerned member) same]

theorem ToldApart.paths_ne {a b : EntityModel} (first : a ∈ levelsOf models)
    (second : b ∈ levelsOf models) (different : a ≠ b) : a.path ≠ b.path :=
  fun same => different (apart.paths a (mem_concerned first) b (mem_concerned second) same)

private theorem ToldApart.waits_up {level ancestor : EntityModel} (member : level ∈ levelsOf models)
    (above : ancestor ∈ level.chain) (other : ancestor ≠ level) :
    Relation.TransGen (Waits schema models) level ancestor := by
  refine chain_reached (fun e higher parent next => ?_) above other
  have here := chain_subset_levelsOf member higher
  have there := chain_subset_levelsOf here (parent_mem_chain next)
  exact ⟨here, there, apart.paths_ne here there (parent_ne next).symm, parent,
    mem_dependencies.2 (Or.inl next), rfl⟩

variable (roots : LeadsToRoots schema models)

include roots

/-- What a level waits for is what its table leads to, by one foreign key or by several. -/
theorem ToldApart.refers_of_waits {level other : EntityModel}
    (waits : Waits schema models level other) :
    Relation.TransGen (Refers schema d models) level other := by
  obtain ⟨here, there, different, dep, depends, same⟩ := waits
  have levels : other ≠ level := fun equal => different (congrArg path equal.symm)
  rcases mem_dependencies.1 depends with above | ⟨target, leads, rfl⟩
  · have higher := chain_subset_levelsOf here (parent_mem_chain above)
    have found := apart.paths dep (mem_concerned higher) other (mem_concerned there) same
    rw [← found]
    exact .single (refers_parent here above)
  · -- The root that is waited for is the target, the own root, or not among the levels.
    have named : target ∈ level.keyTargets schema := mem_keyTargets.2 (Or.inr leads)
    rcases roots level here target leads with isRoot | own | never
    · rw [← (isRoot_iff (self_mem_chain target)).1 isRoot] at same
      have found :=
        apart.paths target (target_mem_concerned here named) other (mem_concerned there) same
      exact .single ⟨here, there, levels.symm, references_iff.2 ⟨target, named, by rw [found]⟩⟩
    · rw [root_of_mem_chain own] at same
      have higher := chain_subset_levelsOf here (root_mem_chain level)
      have found := apart.paths level.root (mem_concerned higher) other (mem_concerned there) same
      rw [← found] at levels ⊢
      exact refers_up here (root_mem_chain level) levels
    · exact absurd same.symm (never other there)

/-- A level waits for whatever its table names, perhaps by waiting for what waits for it. -/
theorem ToldApart.waits_of_refers {level other : EntityModel}
    (refers : Refers schema d models level other) :
    Relation.TransGen (Waits schema models) level other := by
  obtain ⟨here, there, different, references⟩ := refers
  obtain ⟨target, named, tables⟩ := references_iff.1 references
  have concerns := target_mem_concerned here named
  have found : target = other := apart.paths target concerns other (mem_concerned there)
    (apart.tables target concerns other (mem_concerned there) tables)
  subst found
  rcases mem_keyTargets.1 named with above | leads
  · exact apart.waits_up here (parent_mem_chain above) (Ne.symm different)
  · rcases roots level here target leads with isRoot | own | never
    · have itself := (isRoot_iff (self_mem_chain target)).1 isRoot
      exact .single ⟨here, there, apart.paths_ne here there different, target,
        mem_dependencies.2 (Or.inr ⟨target, leads, itself.symm⟩), rfl⟩
    · exact apart.waits_up here own (Ne.symm different)
    · exact absurd rfl (never target.root (chain_subset_levelsOf there (root_mem_chain target)))

end

/-! ### Every table after those that it names -/

/-- In a list in which none comes before one that it waits for, waiting for another one through
others means to come later. -/
theorem idxOf_lt_of_waits {order : List EntityModel}
    (sorted : order.Pairwise fun earlier later => ¬ Awaits schema earlier later)
    (complete : ∀ level ∈ levelsOf models, level ∈ order) {level other : EntityModel}
    (waits : Relation.TransGen (Waits schema models) level other) :
    order.idxOf other < order.idxOf level := by
  have direct {a b : EntityModel} (waits : Waits schema models a b) :
      order.idxOf b < order.idxOf a := by
    obtain ⟨here, there, awaits⟩ := waits
    have first := List.idxOf_lt_length_of_mem (complete a here)
    have second := List.idxOf_lt_length_of_mem (complete b there)
    by_contra before
    have different : order.idxOf a ≠ order.idxOf b := fun same =>
      awaits.1 (congrArg path ((List.idxOf_inj (complete a here)).1 same))
    have earlier : order.idxOf a < order.idxOf b := by omega
    have apart := List.pairwise_iff_getElem.1 sorted _ _ first second earlier
    rw [List.getElem_idxOf, List.getElem_idxOf] at apart
    exact apart awaits
  induction waits with
  | single waits => exact direct waits
  | tail _ waits ih => exact Nat.lt_trans (direct waits) ih

/-- Tables are made after those that they name. Where each path and each table belongs to one model
and relations lead to roots or up their own chain, foreign keys that form no circle let the order
list every level once, none before another one whose table the statement that makes its own names.
-/
theorem tables_made_in_order (schema : Schema) (d : Dialect) (models : List EntityModel)
    (apart : ToldApart schema models) (roots : LeadsToRoots schema models)
    (acyclic : ∀ level, ¬ Relation.TransGen (Refers schema d models) level level) :
    (creationOrder schema models).Nodup ∧
      (∀ level, level ∈ creationOrder schema models ↔ ∃ m ∈ models, level ∈ m.levels) ∧
      (creationOrder schema models).Pairwise
        fun earlier later => ¬ References schema d earlier later := by
  have perm := creationOrder_perm schema models
  have nodup : (creationOrder schema models).Nodup :=
    perm.nodup_iff.2 (List.Nodup.of_map path (listed_paths models))
  have complete (level : EntityModel) :
      level ∈ creationOrder schema models ↔ level ∈ levelsOf models :=
    perm.mem_iff.trans apart.listed_iff
  -- Waiting goes along foreign keys, so there are no circles of it either.
  have irreflexive (level : EntityModel) : ¬ Relation.TransGen (Waits schema models) level level :=
    fun circle => acyclic level
      (Relation.TransGen.closed (fun _ _ => apart.refers_of_waits roots) _ _ circle)
  have sorted : (creationOrder schema models).Pairwise fun earlier later =>
      ¬ Awaits schema earlier later := creationOrder_sorted fun rest among filled => by
    obtain ⟨level, member, unled⟩ :=
      exists_unled irreflexive (fun _ _ _ => Relation.TransGen.trans) filled
    exact ⟨level, member, fun other later awaits => unled other later
      (.single ⟨mem_of_listed (among member), mem_of_listed (among later), awaits⟩)⟩
  refine ⟨nodup, fun level => (complete level).trans List.mem_flatMap, ?_⟩
  refine List.pairwise_iff_getElem.2 fun i j first second earlier references => ?_
  have refers :
      Refers schema d models (creationOrder schema models)[i] (creationOrder schema models)[j] :=
    ⟨(complete _).1 (List.getElem_mem first), (complete _).1 (List.getElem_mem second),
      fun same => absurd ((nodup.getElem_inj_iff).1 same) (Nat.ne_of_lt earlier), references⟩
  have later := idxOf_lt_of_waits sorted (fun level member => (complete level).2 member)
    (apart.waits_of_refers roots refers)
  rw [nodup.idxOf_getElem, nodup.idxOf_getElem] at later
  omega

theorem acyclic_of_rank {d : Dialect} (rank : EntityModel → Nat)
    (falls : ∀ a ∈ levelsOf models, ∀ b ∈ levelsOf models, a ≠ b →
      (∃ target ∈ a.keyTargets schema, unmarked target.table = unmarked b.table) → rank b < rank a)
    (level : EntityModel) : ¬ Relation.TransGen (Refers schema d models) level level := by
  have along {a b : EntityModel} (reached : Relation.TransGen (Refers schema d models) a b) :
      rank b < rank a := by
    induction reached with
    | single refers =>
        exact falls _ refers.1 _ refers.2.1 refers.2.2.1 (references_iff.1 refers.2.2.2)
    | tail _ refers ih =>
        exact Nat.lt_trans
          (falls _ refers.1 _ refers.2.1 refers.2.2.1 (references_iff.1 refers.2.2.2)) ih
  exact fun circle => Nat.lt_irrefl _ (along circle)

end Storage

namespace Lending

def person : EntityModel where
  own := ⟨"person", "person", "id", [.generatedKey "id"]⟩

def employee : EntityModel where
  own := ⟨"employee", "employee", "id",
    [.inheritedKey "id", .relation "boss_id" "boss" ⟨"Employee"⟩ .setNull]⟩
  above := [person.own]

def book : EntityModel where
  own := ⟨"book", "book", "id",
    [.generatedKey "id", .relation "reader_id" "reader" ⟨"Person"⟩ .cascade]⟩

def order : EntityModel where
  own := ⟨"order", "order", "id",
    [.generatedKey "id", .relation "clerk_id" "clerk" ⟨"Employee"⟩ .cascade]⟩

def schema : Schema where
  model ref := if ref.name = "Employee" then employee else person

def rank (m : EntityModel) : Nat :=
  [person, employee, book, order].idxOf m

end Lending

namespace Storage

open Sql EntityModel Lending

theorem lending_made_in_order :
    ToldApart schema [book, employee] ∧ LeadsToRoots schema [book, employee] ∧
      (∀ level, ¬ Relation.TransGen (Refers schema .postgres [book, employee]) level level) ∧
      (creationOrder schema [book, employee]).Nodup ∧
      (∀ level, level ∈ creationOrder schema [book, employee] ↔
        ∃ m ∈ [book, employee], level ∈ m.levels) ∧
      (creationOrder schema [book, employee]).Pairwise
        fun earlier later => ¬ References schema .postgres earlier later := by
  have apart : ToldApart schema [book, employee] := ⟨by decide, by decide⟩
  have roots : LeadsToRoots schema [book, employee] := by
    unfold LeadsToRoots
    decide
  have acyclic (level : EntityModel) :
      ¬ Relation.TransGen (Refers schema .postgres [book, employee]) level level :=
    acyclic_of_rank rank (by decide) level
  exact ⟨apart, roots, acyclic, tables_made_in_order schema .postgres _ apart roots acyclic⟩

/-- The table of orders is made before that of employees, which its foreign key names: the order
waits for persons only. -/
theorem orders_made_before_employees :
    (∀ m ∈ [person, order, employee], ∀ parent ∈ m.parent?.toList,
        parent ∈ [person, order, employee]) ∧
      ToldApart schema [person, order, employee] ∧
      (∀ level,
        ¬ Relation.TransGen (Refers schema .postgres [person, order, employee]) level level) ∧
      creationOrder schema [person, order, employee] = [person, order, employee] ∧
      ¬ (creationOrder schema [person, order, employee]).Pairwise
        fun earlier later => ¬ References schema .postgres earlier later := by
  have ordered : creationOrder schema [person, order, employee] = [person, order, employee] := by
    decide
  have named : References schema .postgres order employee :=
    references_iff.2 ⟨employee, by decide, rfl⟩
  refine ⟨by decide, ⟨by decide, by decide⟩, acyclic_of_rank rank (by decide), ordered, ?_⟩
  rw [ordered]
  intro sorted
  have later := (List.pairwise_cons.1 sorted).2
  exact (List.pairwise_cons.1 later).1 employee (List.mem_singleton_self _) named

end Storage

end EntityStore
