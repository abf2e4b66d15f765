import EntityStore.Proofs.Filter.Trail
import EntityStore.Proofs.Storing.Targets

/-!
The link tables of a model, and what replacing the links of an owner makes of the rows of one.
-/

namespace EntityStore

variable {ε : Type}

namespace Links

variable {schema : Schema} {m : EntityModel}

theorem tablesOf_sublist (schema : Schema) (m : EntityModel) (only? : Option (List String)) :
    (tablesOf schema m only?).Sublist (tablesOf schema m none) := by
  unfold tablesOf
  have all : m.manyColumns.filter (fun _ => true) = m.manyColumns := List.filter_true _
  rw [all]
  exact List.Sublist.filterMap _ List.filter_sublist

theorem linkTable_field {name : String} {link : LinkTable}
    (found : m.linkTable? schema name = some link) :
    link.field = name
      ∧ ∃ level c, m.findColumn? name = some (level, c) ∧ c.isMany = true ∧ c.name = name := by
  unfold EntityModel.linkTable? at found
  split at found
  · next level c finds =>
      obtain ⟨-, -, answers⟩ := EntityModel.findColumn_cases finds
      split at found
      · next target table kind =>
          have field : c.fieldName = c.name := by rw [Column.fieldName, kind]
          have named : c.name = name := answers.elim id fun same => field.symm.trans same
          cases found
          refine ⟨named, level, c, finds, ?_, named⟩
          rw [Column.isMany, Column.isPhysical, kind]
          rfl
      · cases found
  · cases found

theorem mem_tablesOf_some {names : List String} {link : LinkTable} :
    link ∈ tablesOf schema m (some names) ↔ link ∈ tablesOf schema m none ∧ link.field ∈ names := by
  unfold tablesOf
  simp only [List.mem_filterMap, List.mem_filter, List.contains_iff_mem, and_true]
  constructor
  · rintro ⟨found, ⟨member, named⟩, made⟩
    exact ⟨⟨found, member, made⟩, (linkTable_field made).1 ▸ named⟩
  · rintro ⟨⟨found, member, made⟩, named⟩
    exact ⟨found, ⟨member, (linkTable_field made).1 ▸ named⟩, made⟩

theorem linkTable_of_mem {link : LinkTable} {only? : Option (List String)}
    (member : link ∈ tablesOf schema m only?) : m.linkTable? schema link.field = some link := by
  obtain ⟨found, -, made⟩ := List.mem_filterMap.1 member
  rwa [(linkTable_field made).1]

/-- A relation that is found under its name has its link table among those of the model. -/
theorem exists_linkTable (schema : Schema) {field : String} {level : EntityModel} {c : Column}
    (finds : m.findColumn? field = some (level, c)) (many : c.isMany = true) :
    ∃ link ∈ tablesOf schema m none,
      m.linkTable? schema c.name = some link ∧ link.field = c.name := by
  obtain ⟨member, declared, answers⟩ := EntityModel.findColumn_cases finds
  cases kind : c.kind with
  | many target table =>
      have plain : c.fieldName = c.name := by rw [Column.fieldName, kind]
      have same : c.name = field := answers.elim id fun named => plain.symm.trans named
      have made : m.linkTable? schema c.name =
          some (.between table c.name level (schema.model target)) := by
        rw [same, EntityModel.linkTable?, finds]
        dsimp only
        rw [kind]
        dsimp only
        rw [same]
      refine ⟨_, List.mem_filterMap.2 ⟨(level, c), List.mem_filter.2 ⟨?_, rfl⟩, made⟩, made, rfl⟩
      exact List.mem_flatMap.2 ⟨level, EntityModel.mem_levels.2 member,
        List.mem_map.2 ⟨c, List.mem_filter.2 ⟨declared, many⟩, rfl⟩⟩
  | _ =>
      rw [Column.isMany, Column.isPhysical, kind] at many
      cases many

theorem table_of_mem_changes {type : EntityType ε} {item : ε} {id : Int64} {replace : Bool}
    {link : LinkTable} {c : Change} (member : c ∈ changes type item id replace link) :
    c.table = link.table := by
  rcases List.mem_append.1 member with cleared | inserted
  · cases replace with
    | true =>
        rw [if_pos rfl, List.mem_singleton] at cleared
        subst cleared
        rfl
    | false => cases cleared
  · obtain ⟨ts, -, rfl⟩ := List.mem_map.1 inserted
    rfl

def replaced (link : LinkTable) (owner : Int64) (ts : List Int64) (rows : List Cells) :
    List Cells :=
  rows.filter (fun r => !Tables.holds [owner] (r link.ownerColumn)) ++ ts.map (rowOf link owner)

/-- What the changes by which links are replaced make of the rows of their table. -/
theorem foldl_changes (type : EntityType ε) (item : ε) (id : Int64) (link : LinkTable)
    (rows : List Cells) :
    (changes type item id true link).foldl (fun rows c => c.onRows rows) rows =
      replaced link id (targets (type.links item link.field)) rows := by
  let D : Tables := fun _ => rows
  have all : (changes type item id true link).filter (·.table = link.table) =
      changes type item id true link :=
    List.filter_eq_self.2 fun c member => decide_eq_true (table_of_mem_changes member)
  have begun : changes type item id true link =
      .delete link.table link.ownerColumn [id] :: changes type item id false link := rfl
  have inserts : ∀ c ∈ changes type item id false link, ∃ numbering? table columns rows,
      c = .insert numbering? table columns rows := by
    intro c member
    obtain ⟨ts, -, rfl⟩ := List.mem_map.1 member
    exact ⟨none, _, _, _, rfl⟩
  have whole := Tables.foldl_changed D (changes type item id true link) link.table
  rw [all] at whole
  rw [← show _ = _ from whole, begun, List.foldl_cons, Tables.foldl_changed_inserted _ inserts,
    cellsIn_changes, if_pos rfl, Tables.changed]
  show (if link.table = link.table then _ else _) ++ _ = _
  rw [if_pos rfl]
  rfl

end Links

/-! ### Workers and their skills -/

namespace Staff

def skill : EntityModel where
  own :=
    { path := "Skill", table := "skill", primaryKey := "id", columns := [Column.generatedKey "id"] }

def worker : EntityModel where
  own :=
    { path := "Worker"
      table := "worker"
      primaryKey := "person_id"
      columns := [Column.inheritedKey "person_id", .text "title" .maxVarChar,
        .many "skills" ⟨"Skill"⟩ "worker_skill"] }
  above := [
    { path := "Person"
      table := "person"
      primaryKey := "id"
      columns := [Column.generatedKey "id", .text "name" .maxVarChar] }]

def skilled : Schema := ⟨fun _ => skill⟩

example : Links.tablesOf skilled worker (some ["skills"]) =
    [.between "worker_skill" "skills" worker skill] := by decide

end Staff

end EntityStore
