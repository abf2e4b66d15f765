import EntityStore.Proofs.Removal.Content
import Mathlib.Data.List.Basic

/-!
Settled keys. A row of a model goes by its key only, and keeps its key and its cascading pointers as long
as it is there, so what points to a row that goes is found at any time. A key is settled by commands
that take its row from every table it is in, its links from every link table, and empty the pointers to
it that are to be emptied. Justified commands that settle every key that goes leave the tables as they
are to be left.
-/

namespace EntityStore

namespace Removal

open Tables

variable {schema : Schema} {models : List EntityModel} {gone : RowKey → Prop} {D : Tables}

theorem remaining_of_never {made : List Command} {table column : String} (r : Cells)
    (never : ∀ ids, .setNull table column ids ∉ made) : remaining made table r column = r column := by
  refine if_neg fun emptied => ?_
  obtain ⟨c, member, empties⟩ := List.any_eq_true.1 emptied
  cases c with
  | delete other removed ids => cases empties
  | setNull other emptied ids =>
      simp only [Command.empties, Bool.and_eq_true, beq_iff_eq] at empties
      obtain ⟨⟨rfl, rfl⟩, -⟩ := empties
      exact never ids member

section

variable (registered : Registered schema models) (unambiguous : ∀ m ∈ models, m.Unambiguous)
  {made : List Command} (justified : ∀ c ∈ made, Justified schema models gone c)

include registered unambiguous justified

theorem mem_run {table : String} {r' : Cells} :
    r' ∈ D.run made table ↔
      ∃ r ∈ D table, made.any (Command.removes table r) = false ∧ remaining made table r = r' := by
  have apart := justified_apart registered justified unambiguous
  rw [run_table, List.mem_filterMap]
  refine exists_congr fun r => and_congr_right fun _ => ?_
  rw [fate_eq apart]
  cases made.any (Command.removes table r) <;> simp

theorem remaining_key {m : EntityModel} (known : m ∈ models) (r : Cells) :
    remaining made m.table r m.primaryKey = r m.primaryKey :=
  remaining_of_never r fun _ => keeps_keys registered justified unambiguous known

theorem remaining_cascade {level : EntityModel} {c : Column} {target : ModelRef}
    (declares : Declares models level c target .cascade) (r : Cells) :
    remaining made level.table r c.name = r c.name :=
  remaining_of_never r fun _ => keeps_cascades registered justified unambiguous declares

omit unambiguous in
theorem gone_of_removes {m : EntityModel} (known : m ∈ models) {r : Cells}
    (removed : made.any (Command.removes m.table r) = true) :
    ∃ id, r m.primaryKey = .int id ∧ gone (m.root.table, id) := by
  obtain ⟨c, member, removes⟩ := List.any_eq_true.1 removed
  cases c with
  | setNull other emptied ids => cases removes
  | delete other column ids =>
      simp only [Command.removes, Bool.and_eq_true, beq_iff_eq] at removes
      obtain ⟨rfl, held⟩ := removes
      obtain ⟨rfl, all⟩ := deletes_level registered justified known member
      obtain ⟨id, among, key⟩ := holds_iff.1 held
      exact ⟨id, key, all id among⟩

theorem ids_of_run (typed : Typed schema models D) {m : EntityModel} (known : m ∈ models)
    {r' : Cells} (member : r' ∈ D.run made m.table) :
    ∃ id, r' m.primaryKey = .int id ∧ Occurs D m id := by
  obtain ⟨r, stored, -, rfl⟩ := (mem_run registered unambiguous justified).1 member
  obtain ⟨id, key⟩ := typed.keyed m known r stored
  refine ⟨id, ?_, r, stored, key⟩
  rw [remaining_key registered unambiguous justified known]
  exact key

theorem found_points {level : EntityModel} {c : Column} {target : ModelRef}
    (declares : Declares models level c target .cascade) {ids : List Int64} {r' : Cells}
    (found : r' ∈ (D.run made).selected level.table c.name ids) :
    ∃ r ∈ D level.table, r level.primaryKey = r' level.primaryKey
      ∧ ∃ pointed ∈ ids, r c.name = .int pointed := by
  obtain ⟨member, held⟩ := List.mem_filter.1 found
  obtain ⟨r, stored, -, rfl⟩ := (mem_run registered unambiguous justified).1 member
  rw [remaining_cascade registered unambiguous justified declares] at held
  obtain ⟨pointed, among, points⟩ := holds_iff.1 held
  refine ⟨r, stored, ?_, pointed, among, points⟩
  rw [remaining_key registered unambiguous justified declares.registered]

/-- A row that points to one of some ids is found, or its key is among those that go. -/
theorem found_or_gone {level : EntityModel} {c : Column} {target : ModelRef}
    (declares : Declares models level c target .cascade) {ids : List Int64} {r : Cells}
    (stored : r ∈ D level.table) {id pointed : Int64} (key : r level.primaryKey = .int id)
    (among : pointed ∈ ids) (points : r c.name = .int pointed) :
    gone (level.root.table, id)
      ∨ ∃ r' ∈ (D.run made).selected level.table c.name ids, r' level.primaryKey = .int id := by
  cases removed : made.any (Command.removes level.table r) with
  | true =>
      obtain ⟨id', key', goes⟩ := gone_of_removes registered justified declares.registered removed
      rw [key] at key'
      cases key'
      exact Or.inl goes
  | false =>
      refine Or.inr ⟨remaining made level.table r, List.mem_filter.2 ⟨?_, ?_⟩, ?_⟩
      · exact (mem_run registered unambiguous justified).2 ⟨r, stored, removed, rfl⟩
      · rw [remaining_cascade registered unambiguous justified declares, points]
        exact holds_int.2 among
      · rw [remaining_key registered unambiguous justified declares.registered]
        exact key

/-- The rows of some ids that no command removes are counted as at the beginning. -/
theorem count_of_run {m : EntityModel} (known : m ∈ models) {ids : List Int64}
    (stay : ∀ others, .delete m.table m.primaryKey others ∈ made → ∀ id ∈ others, id ∉ ids) :
    (D.run made m.table).countP (fun r => holds ids (r m.primaryKey)) =
      (D m.table).countP fun r => holds ids (r m.primaryKey) := by
  have apart := justified_apart registered justified unambiguous
  rw [run_table, List.countP_filterMap]
  refine List.countP_congr fun r stored => ?_
  rw [fate_eq apart]
  cases removed : made.any (Command.removes m.table r) with
  | true =>
      obtain ⟨c, member, removes⟩ := List.any_eq_true.1 removed
      cases c with
      | setNull other emptied others => cases removes
      | delete other column others =>
          simp only [Command.removes, Bool.and_eq_true, beq_iff_eq] at removes
          obtain ⟨rfl, held⟩ := removes
          obtain ⟨rfl, -⟩ := deletes_level registered justified known member
          obtain ⟨id, among, key⟩ := holds_iff.1 held
          have never : holds ids (r m.primaryKey) = false := by
            rw [key, Bool.eq_false_iff, Ne, holds_int]
            exact stay others member id among
          simp [never]
  | false => simp [remaining_key registered unambiguous justified known]

end

/-! ### Keys that commands settle -/

/-- The commands see to everything that concerns a key. -/
structure Settled (schema : Schema) (models : List EntityModel) (D : Tables) (made : List Command)
    (key : RowKey) : Prop where
  levels : ∀ m ∈ models, m.root.table = key.1 → Occurs D m key.2 →
    ∃ ids, key.2 ∈ ids ∧ .delete m.table m.primaryKey ids ∈ made
  owners : ∀ l, Links schema models l → l.owner.root.table = key.1 → Occurs D l.owner key.2 →
    ∃ ids, key.2 ∈ ids ∧ .delete l.table l.ownerColumn ids ∈ made
  targets : ∀ l, Links schema models l → l.target.root.table = key.1 → Occurs D l.target key.2 →
    ∃ ids, key.2 ∈ ids ∧ .delete l.table l.targetColumn ids ∈ made
  pointers : ∀ level c target, Declares models level c target .setNull →
    (schema.model target).root.table = key.1 → Occurs D (schema.model target) key.2 →
    ∃ ids, key.2 ∈ ids ∧ .setNull level.table c.name ids ∈ made

theorem Settled.mono {made more : List Command} {key : RowKey}
    (settled : Settled schema models D made key) (wider : ∀ c ∈ made, c ∈ more) :
    Settled schema models D more key where
  levels m known root occurs :=
    have ⟨ids, among, member⟩ := settled.levels m known root occurs
    ⟨ids, among, wider _ member⟩
  owners l link root occurs :=
    have ⟨ids, among, member⟩ := settled.owners l link root occurs
    ⟨ids, among, wider _ member⟩
  targets l link root occurs :=
    have ⟨ids, among, member⟩ := settled.targets l link root occurs
    ⟨ids, among, wider _ member⟩
  pointers level c target declares root occurs :=
    have ⟨ids, among, member⟩ := settled.pointers level c target declares root occurs
    ⟨ids, among, wider _ member⟩

theorem pointsInto_iff {gone : List RowKey} {m : EntityModel} {value : Value} :
    pointsInto gone m value = true ↔ ∃ id, value = .int id ∧ (m.root.table, id) ∈ gone := by
  cases value with
  | int id => simp [pointsInto]
  | _ => simp [pointsInto]

theorem removes_of_mem {made : List Command} {table column : String} {ids : List Int64} {r : Cells}
    {id : Int64} (member : .delete table column ids ∈ made) (among : id ∈ ids)
    (value : r column = .int id) : made.any (Command.removes table r) = true := by
  refine List.any_eq_true.2 ⟨_, member, ?_⟩
  simp only [Command.removes, beq_self_eq_true, Bool.true_and, value]
  exact holds_int.2 among

private theorem remaining_of_no_emptying {made : List Command} {table : String} (r : Cells)
    (never : ∀ column ids, .setNull table column ids ∉ made) : remaining made table r = r := by
  funext column
  exact remaining_of_never r fun ids => never column ids

private theorem filterMap_ite {α β : Type} (p : α → Bool) (f : α → β) (items : List α) :
    items.filterMap (fun a => if p a then some (f a) else none) = (items.filter p).map f := by
  induction items with
  | nil => rfl
  | cons a rest ih =>
      cases holds : p a <;> simp [holds, ih]

section

variable (registered : Registered schema models) (unambiguous : ∀ m ∈ models, m.Unambiguous)
  (typed : Typed schema models D) (linked : Linked schema models D) {made : List Command}
  {gone : List RowKey}
  (justified : ∀ c ∈ made, Justified schema models (· ∈ gone) c)
  (settled : ∀ key ∈ gone, Settled schema models D made key)

include registered justified settled

private theorem removes_level_iff {m : EntityModel} (known : m ∈ models) {r : Cells}
    (stored : r ∈ D m.table) :
    made.any (Command.removes m.table r) = pointsInto gone m (r m.primaryKey) := by
  rw [Bool.eq_iff_iff, pointsInto_iff]
  constructor
  · exact gone_of_removes registered justified known
  · rintro ⟨id, key, goes⟩
    obtain ⟨ids, among, member⟩ := (settled _ goes).levels m known rfl ⟨r, stored, key⟩
    exact removes_of_mem member among key

include linked in
private theorem removes_link_iff {l : LinkTable} (link : Links schema models l) {r : Cells}
    (stored : r ∈ D l.table) :
    made.any (Command.removes l.table r) = (pointsInto gone l.owner (r l.ownerColumn)
      || pointsInto gone l.target (r l.targetColumn)) := by
  obtain ⟨⟨owner, ownerValue, ownerOccurs⟩, target, targetValue, targetOccurs⟩ :=
    linked l link r stored
  rw [Bool.eq_iff_iff, Bool.or_eq_true, pointsInto_iff, pointsInto_iff]
  constructor
  · intro removed
    obtain ⟨c, member, removes⟩ := List.any_eq_true.1 removed
    cases c with
    | setNull other emptied ids => cases removes
    | delete other column ids =>
        simp only [Command.removes, Bool.and_eq_true, beq_iff_eq] at removes
        obtain ⟨rfl, held⟩ := removes
        obtain ⟨id, among, value⟩ := holds_iff.1 held
        rcases deletes_link registered justified link member with ⟨rfl, all⟩ | ⟨rfl, all⟩
        · exact Or.inl ⟨id, value, all id among⟩
        · exact Or.inr ⟨id, value, all id among⟩
  · rintro (⟨id, value, goes⟩ | ⟨id, value, goes⟩)
    · rw [ownerValue] at value
      cases value
      obtain ⟨ids, among, member⟩ := (settled _ goes).owners l link rfl ownerOccurs
      exact removes_of_mem member among ownerValue
    · rw [targetValue] at value
      cases value
      obtain ⟨ids, among, member⟩ := (settled _ goes).targets l link rfl targetOccurs
      exact removes_of_mem member among targetValue

include typed

/-- A row of a model keeps all but the pointers that are to be emptied. -/
theorem remaining_level {m : EntityModel} (known : m ∈ models) {r : Cells}
    (stored : r ∈ D m.table) : remaining made m.table r = leftOver schema gone m r := by
  funext column
  have same : made.any (Command.empties m.table column r) =
      m.columns.any fun c => c.name == column && letsGo schema gone (r column) c := by
    rw [Bool.eq_iff_iff, List.any_eq_true, List.any_eq_true]
    constructor
    · rintro ⟨c, member, empties⟩
      cases c with
      | delete other removed ids => cases empties
      | setNull other emptied ids =>
          simp only [Command.empties, Bool.and_eq_true, beq_iff_eq] at empties
          obtain ⟨⟨rfl, rfl⟩, held⟩ := empties
          obtain ⟨c, target, declares, name, all⟩ :=
            empties_level registered justified known member
          obtain ⟨field, kind⟩ := declares.relates
          obtain ⟨id, among, value⟩ := holds_iff.1 held
          refine ⟨c, declares.declared, ?_⟩
          rw [name, beq_self_eq_true, Bool.true_and, letsGo, kind]
          exact pointsInto_iff.2 ⟨id, value, all id among⟩
    · rintro ⟨c, declared, asked⟩
      obtain ⟨name, goes⟩ := Bool.and_eq_true_iff.1 asked
      have named : c.name = column := eq_of_beq name
      subst named
      cases kind : c.kind with
      | relation field target onDelete =>
          rw [letsGo, kind] at goes
          cases onDelete with
          | setNull =>
              obtain ⟨id, value, member⟩ := pointsInto_iff.1 goes
              have declares : Declares models m c target .setNull :=
                ⟨known, declared, field, kind⟩
              rcases typed.relations m c target _ declares r stored with
                missing | ⟨id', value', occurs⟩
              · rw [value] at missing
                cases missing
              · rw [value] at value'
                cases value'
                obtain ⟨ids, among, command⟩ :=
                  (settled _ member).pointers m c target declares rfl occurs
                refine ⟨_, command, ?_⟩
                simp only [Command.empties, beq_self_eq_true, Bool.true_and, value]
                exact holds_int.2 among
          | _ => cases goes
      | _ =>
          rw [letsGo, kind] at goes
          cases goes
  unfold remaining leftOver
  rw [same]

include unambiguous linked

/-- Justified commands that settle what goes leave the tables as they are to be left. -/
theorem removed_of_settled : Removed schema models D gone (D.run made) where
  levels m known := by
    have apart := justified_apart registered justified unambiguous
    rw [run_table]
    have each : ∀ r ∈ D m.table, fate made m.table r =
        if !pointsInto gone m (r m.primaryKey) then some (leftOver schema gone m r) else none := by
      intro r stored
      rw [fate_eq apart, removes_level_iff registered justified settled known stored,
        remaining_level registered typed justified settled known stored]
      cases pointsInto gone m (r m.primaryKey) <;> rfl
    rw [List.filterMap_congr each, filterMap_ite]
  links l link := by
    have apart := justified_apart registered justified unambiguous
    have whole (r : Cells) : remaining made l.table r = r :=
      remaining_of_no_emptying r fun column ids => empties_no_link registered justified link
    rw [run_table]
    have each : ∀ r ∈ D l.table, fate made l.table r =
        if !(pointsInto gone l.owner (r l.ownerColumn)
          || pointsInto gone l.target (r l.targetColumn)) then some r else none := by
      intro r stored
      rw [fate_eq apart, removes_link_iff registered linked justified settled link stored, whole]
      cases pointsInto gone l.owner (r l.ownerColumn)
        || pointsInto gone l.target (r l.targetColumn) <;> rfl
    rw [List.filterMap_congr each, filterMap_ite, List.map_id']
  others table noModel noLink := by
    have apart := justified_apart registered justified unambiguous
    have elsewhere : ∀ c ∈ made, c.table ≠ table := by
      intro c member
      cases justified c member with
      | level m known ids all => exact noModel m known
      | owner l link ids all => exact noLink l link
      | target l link ids all => exact noLink l link
      | pointer level c target declares ids all => exact noModel level declares.registered
    rw [run_table]
    have each : ∀ r ∈ D table, fate made table r = some r := by
      intro r stored
      have removes : made.any (Command.removes table r) = false := by
        refine List.any_eq_false.2 fun c member removes => ?_
        cases c with
        | setNull other emptied ids => cases removes
        | delete other column ids =>
            simp only [Command.removes, Bool.and_eq_true, beq_iff_eq] at removes
            exact elsewhere _ member removes.1
      have whole : remaining made table r = r :=
        remaining_of_no_emptying r fun column ids member => elsewhere _ member rfl
      rw [fate_eq apart, removes, whole]
      rfl
    rw [List.filterMap_congr each, List.filterMap_some]

end

end Removal

end EntityStore
