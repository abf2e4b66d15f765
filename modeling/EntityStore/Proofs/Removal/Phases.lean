import EntityStore.Proofs.Removal.Interpretation
import EntityStore.Proofs.Removal.Settled

/-!
What a removal does about the ids of one model: it removes their links, empties relations, and
removes their rows below the model and on its chain, the root last. All of these commands are
justified by the keys of the ids, and together they settle them.
-/

namespace EntityStore

namespace Removal

open Tables

variable {σ ε : Type} {schema : Schema} {models : List EntityModel} {D : Tables}

def linkDeletion (m : EntityModel) (ids : List Int64) (l : LinkTable) : List Command :=
  (if sharesKeys m l.owner then [.delete l.table l.ownerColumn ids] else [])
    ++ (if sharesKeys m l.target then [.delete l.table l.targetColumn ids] else [])

def linkDeletions (schema : Schema) (models : List EntityModel) (m : EntityModel)
    (ids : List Int64) : List Command :=
  (linkTables schema models).flatMap (linkDeletion m ids)

def emptyings (schema : Schema) (models : List EntityModel) (m : EntityModel)
    (ids : List Int64) : List Command :=
  ((references schema models m).filter (·.onDelete = .setNull)).map fun r =>
    .setNull r.level.table r.column ids

def rowDeletion (ids : List Int64) (level : EntityModel) : Command :=
  .delete level.table level.primaryKey ids

def deletionsBelow (models : List EntityModel) (m : EntityModel) (ids : List Int64) :
    List Command :=
  ((descendants models m).mergeSort fun a b => decide (b.levels.length ≤ a.levels.length)).map
    (rowDeletion ids)

def commandsFor (schema : Schema) (models : List EntityModel) (m : EntityModel) (ids : List Int64)
    (cascaded : List Command) (levels : List EntityModel) : List Command :=
  linkDeletions schema models m ids ++ (cascaded ++ (emptyings schema models m ids
    ++ (deletionsBelow models m ids ++ levels.map (rowDeletion ids))))

theorem mem_commandsFor {m : EntityModel} {ids : List Int64} {cascaded : List Command}
    {levels : List EntityModel} {c : Command} :
    c ∈ commandsFor schema models m ids cascaded levels ↔
      c ∈ linkDeletions schema models m ids ∨ c ∈ cascaded ∨ c ∈ emptyings schema models m ids
        ∨ c ∈ deletionsBelow models m ids ∨ ∃ level ∈ levels, rowDeletion ids level = c := by
  simp only [commandsFor, List.mem_append, List.mem_map]

/-! ### The statements of the commands -/

private theorem clearLinks_eq (d : Sql.Dialect) (m : EntityModel) (ids : List Int64) (l : LinkTable) :
    clearLinks d m ids l = (linkDeletion m ids l).map (·.template d) := by
  unfold clearLinks linkDeletion
  split <;> split <;> rfl

theorem linkDeletions_templates (d : Sql.Dialect) (schema : Schema) (models : List EntityModel)
    (m : EntityModel) (ids : List Int64) :
    (linkTables schema models).flatMap (clearLinks d m ids) =
      (linkDeletions schema models m ids).map (·.template d) := by
  rw [linkDeletions, List.map_flatMap, funext (clearLinks_eq d m ids)]

theorem emptyings_templates (d : Sql.Dialect) (schema : Schema) (models : List EntityModel)
    (m : EntityModel) (ids : List Int64) :
    clearReferences d (references schema models m) ids =
      (emptyings schema models m ids).map (·.template d) := by
  rw [emptyings, List.map_map]
  rfl

theorem deletionsBelow_templates (d : Sql.Dialect) (models : List EntityModel) (m : EntityModel)
    (ids : List Int64) :
    deleteBelow d models m ids = (deletionsBelow models m ids).map (·.template d) := by
  rw [deletionsBelow, List.map_map]
  rfl

/-! ### The commands are justified -/

private theorem table_of_linkDeletions (registered : Registered schema models) {m : EntityModel}
    {ids : List Int64} {c : Command} (member : c ∈ linkDeletions schema models m ids) :
    ∃ l, Links schema models l ∧ c.table = l.table := by
  obtain ⟨l, found, member⟩ := List.mem_flatMap.1 member
  refine ⟨l, registered.mem_linkTables found, ?_⟩
  rcases List.mem_append.1 member with member | member
  · split at member
    · rw [List.mem_singleton.1 member]
      rfl
    · cases member
  · split at member
    · rw [List.mem_singleton.1 member]
      rfl
    · cases member

section

variable (registered : Registered schema models) {m : EntityModel} (known : m ∈ models)
  {ids : List Int64} {gone : RowKey → Prop} (all : ∀ id ∈ ids, gone (m.root.table, id))

include registered known all

theorem linkDeletions_justified (c : Command) (member : c ∈ linkDeletions schema models m ids) :
    Justified schema models gone c := by
  obtain ⟨l, found, member⟩ := List.mem_flatMap.1 member
  have link := registered.mem_linkTables found
  rcases List.mem_append.1 member with member | member
  · split at member
    · next shares =>
        have roots := registered.root_of_sharesKeys known (links_owner link) shares
        rw [List.mem_singleton.1 member]
        exact .owner l link ids (roots ▸ all)
    · cases member
  · split at member
    · next shares =>
        have roots := registered.root_of_sharesKeys known (registered.links_target link) shares
        rw [List.mem_singleton.1 member]
        exact .target l link ids (roots ▸ all)
    · cases member

theorem emptyings_justified (c : Command) (member : c ∈ emptyings schema models m ids) :
    Justified schema models gone c := by
  obtain ⟨r, found, rfl⟩ := List.mem_map.1 member
  obtain ⟨found, asked⟩ := List.mem_filter.1 found
  obtain ⟨column, target, declares, name, roots⟩ := registered.of_mem_references known found
  rw [of_decide_eq_true asked] at declares
  rw [← name]
  exact .pointer r.level column target declares ids (roots ▸ all)

omit registered known in
theorem rowDeletion_justified {level : EntityModel} (levelKnown : level ∈ models)
    (roots : level.root = m.root) : Justified schema models gone (rowDeletion ids level) :=
  .level level levelKnown ids (roots ▸ all)

theorem deletionsBelow_justified (c : Command) (member : c ∈ deletionsBelow models m ids) :
    Justified schema models gone c := by
  obtain ⟨level, below, rfl⟩ := List.mem_map.1 member
  obtain ⟨levelKnown, -, above⟩ :=
    (registered.mem_descendants_iff known).1 (List.mem_mergeSort.1 below)
  exact rowDeletion_justified all levelKnown
    (EntityModel.root_of_mem_chain above).symm

theorem commandsFor_justified {levels : List EntityModel} (onChain : ∀ level ∈ levels, level ∈ m.chain)
    {cascaded : List Command} (others : ∀ c ∈ cascaded, Justified schema models gone c) (c : Command)
    (member : c ∈ commandsFor schema models m ids cascaded levels) :
    Justified schema models gone c := by
  rcases mem_commandsFor.1 member with links | before | empties | below | ⟨level, among, rfl⟩
  · exact linkDeletions_justified registered known all c links
  · exact others c before
  · exact emptyings_justified registered known all c empties
  · exact deletionsBelow_justified registered known all c below
  · have above := onChain level among
    exact rowDeletion_justified all (registered.ancestors m known level above)
      (EntityModel.root_of_mem_chain above)

end

/-! ### The commands settle the ids -/

section

variable (registered : Registered schema models) (typed : Typed schema models D)
  {m : EntityModel} (known : m ∈ models) {id : Int64} (occurs : Occurs D m id)

include registered typed known occurs

theorem line_of_occurs {other : EntityModel} (otherKnown : other ∈ models)
    (roots : other.root.table = m.root.table) (otherOccurs : Occurs D other id) :
    other ∈ m.chain ∨ m ∈ other.chain := by
  have first := registered.ancestors other otherKnown _ other.root_mem_chain
  have second := registered.ancestors m known _ m.root_mem_chain
  have same := registered.tables _ first _ second roots
  exact typed.line other otherKnown m known same id otherOccurs occurs

private theorem sharesKeys_of_occurs {other : EntityModel} (otherKnown : other ∈ models)
    (roots : other.root.table = m.root.table) (otherOccurs : Occurs D other id) :
    sharesKeys m other = true := by
  rw [sharesKeys, Bool.or_eq_true]
  rcases line_of_occurs registered typed known occurs otherKnown roots otherOccurs with
    above | below
  · exact Or.inl (EntityModel.descendsFrom_of_mem_chain above)
  · exact Or.inr (EntityModel.descendsFrom_of_mem_chain below)

variable (unambiguous : ∀ m ∈ models, m.Unambiguous) {ids : List Int64} (among : id ∈ ids)
  (cascaded : List Command)

include unambiguous among

theorem commandsFor_settle :
    Settled schema models D (commandsFor schema models m ids cascaded m.chain)
      (m.root.table, id) where
  levels other otherKnown roots otherOccurs := by
    refine ⟨ids, among, mem_commandsFor.2 ?_⟩
    rcases line_of_occurs registered typed known occurs otherKnown roots otherOccurs with
      above | below
    · exact Or.inr (Or.inr (Or.inr (Or.inr ⟨other, above, rfl⟩)))
    · by_cases same : other = m
      · subst same
        exact Or.inr (Or.inr (Or.inr (Or.inr ⟨other, other.self_mem_chain, rfl⟩)))
      · have descends := (registered.mem_descendants_iff known).2 ⟨otherKnown, same, below⟩
        have member : rowDeletion ids other ∈ deletionsBelow models m ids :=
          List.mem_map_of_mem (List.mem_mergeSort.2 descends)
        exact Or.inr (Or.inr (Or.inr (Or.inl member)))
  owners l link roots ownerOccurs := by
    refine ⟨ids, among, mem_commandsFor.2 (Or.inl ?_)⟩
    have shares := sharesKeys_of_occurs registered typed known occurs (links_owner link) roots
      ownerOccurs
    have found := registered.linkTables_complete unambiguous link
    refine List.mem_flatMap.2 ⟨l, found, List.mem_append_left _ ?_⟩
    rw [if_pos shares]
    exact List.mem_singleton_self _
  targets l link roots targetOccurs := by
    refine ⟨ids, among, mem_commandsFor.2 (Or.inl ?_)⟩
    have shares := sharesKeys_of_occurs registered typed known occurs
      (registered.links_target link) roots targetOccurs
    have found := registered.linkTables_complete unambiguous link
    refine List.mem_flatMap.2 ⟨l, found, List.mem_append_right _ ?_⟩
    rw [if_pos shares]
    exact List.mem_singleton_self _
  pointers level c target declares roots targetOccurs := by
    refine ⟨ids, among, mem_commandsFor.2 (Or.inr (Or.inr (Or.inl ?_)))⟩
    have line := line_of_occurs registered typed known occurs
      (registered.declares_target declares) roots targetOccurs
    have found := registered.references_complete unambiguous known declares line
    exact List.mem_map.2 ⟨_, List.mem_filter.2 ⟨found, decide_eq_true rfl⟩, rfl⟩

end

/-! ### The rows of the root -/

section

variable (registered : Registered schema models) {m : EntityModel} (known : m ∈ models)
  {below : List EntityModel} (chain : m.chain = below ++ [m.root]) (absent : m.root ∉ below)

include registered known chain absent

/-- Before the last command no row of the root goes for its id. -/
theorem spares_root {ids : List Int64} {cascaded : List Command} {column : String}
    {others : List Int64}
    (member : .delete m.root.table column others ∈ commandsFor schema models m ids cascaded below) :
    .delete m.root.table column others ∈ cascaded := by
  have rootKnown := registered.ancestors m known _ m.root_mem_chain
  rcases mem_commandsFor.1 member with links | before | empties | lower | ⟨level, among, same⟩
  · obtain ⟨l, link, same⟩ := table_of_linkDeletions registered links
    exact (registered.linksApart l link _ rootKnown same.symm).elim
  · exact before
  · obtain ⟨r, -, same⟩ := List.mem_map.1 empties
    cases same
  · obtain ⟨level, found, same⟩ := List.mem_map.1 lower
    obtain ⟨levelKnown, different, above⟩ :=
      (registered.mem_descendants_iff known).1 (List.mem_mergeSort.1 found)
    have tables : level.table = m.root.table := congrArg Command.table same
    have equal : level = m.root := registered.tables level levelKnown _ rootKnown tables
    subst equal
    exact (different (EntityModel.chain_antisymm m.root_mem_chain above)).elim
  · have onChain : level ∈ m.chain := chain ▸ List.mem_append_left _ among
    have tables : level.table = m.root.table := congrArg Command.table same
    have equal : level = m.root :=
      registered.tables level (registered.ancestors m known level onChain) _ rootKnown tables
    exact (absent (equal ▸ among)).elim

end

end Removal

end EntityStore
