import EntityStore.Proofs.Removal.Registered
import EntityStore.Proofs.Removal.Tables
import EntityStore.Proofs.Sql.Marks

/-!
The content that a removal meets, and what it is to leave. Rows that have to go are those of the
given ids and, again and again, those that point to them through a cascading relation. A command is
justified by keys that go; where every command is, a row of the original tables is gone exactly if
its key is, and has lost exactly the pointers that are to be emptied.
-/

namespace EntityStore

namespace Removal

open Tables

/-- A row of the model has the id. -/
def Occurs (D : Tables) (m : EntityModel) (id : Int64) : Prop :=
  ∃ r ∈ D m.table, r m.primaryKey = .int id

/-- Content that fits the models. Every row of a model has an id; the models of one root in whose
tables an id occurs lie in one line; relations name rows that are there. -/
structure Typed (schema : Schema) (models : List EntityModel) (D : Tables) : Prop where
  keyed : ∀ m ∈ models, ∀ r ∈ D m.table, ∃ id, r m.primaryKey = .int id
  line : ∀ a ∈ models, ∀ b ∈ models, a.root = b.root → ∀ id, Occurs D a id → Occurs D b id →
    a ∈ b.chain ∨ b ∈ a.chain
  relations : ∀ level c target onDelete, Declares models level c target onDelete →
    ∀ r ∈ D level.table, r c.name = .null
      ∨ ∃ id, r c.name = .int id ∧ Occurs D (schema.model target) id

/-- Links name rows that are there. -/
def Linked (schema : Schema) (models : List EntityModel) (D : Tables) : Prop :=
  ∀ l, Links schema models l → ∀ r ∈ D l.table,
    (∃ id, r l.ownerColumn = .int id ∧ Occurs D l.owner id)
      ∧ ∃ id, r l.targetColumn = .int id ∧ Occurs D l.target id

section

variable {schema : Schema} {models : List EntityModel} {D : Tables} {m : EntityModel}

instance (id : Int64) : Decidable (Occurs D m id) :=
  decidable_of_iff (∃ r ∈ D m.table, idOf? (r m.primaryKey) = some id)
    (exists_congr fun _ => and_congr_right fun _ => idOf_eq_some)

def pointsTo (D : Tables) (m : EntityModel) (value : Value) : Bool :=
  (idOf? value).any fun id => Occurs D m id

theorem pointsTo_iff {value : Value} :
    pointsTo D m value = true ↔ ∃ id, value = .int id ∧ Occurs D m id := by
  rw [pointsTo, Option.any_eq_true]
  exact exists_congr fun id => and_congr idOf_eq_some decide_eq_true_iff

def relationFits (schema : Schema) (D : Tables) (m : EntityModel) (c : Column) : Bool :=
  match c.kind with
  | .relation _ target _ =>
    (D m.table).all fun r => (r c.name).isNull || pointsTo D (schema.model target) (r c.name)
  | _ => true

private theorem relationFits_iff {c : Column} :
    relationFits schema D m c = true ↔ ∀ field target onDelete,
      c.kind = .relation field target onDelete → ∀ r ∈ D m.table, r c.name = .null
        ∨ ∃ id, r c.name = .int id ∧ Occurs D (schema.model target) id := by
  have isNull_iff : ∀ value : Value, value.isNull = true ↔ value = .null := by
    intro value
    cases value <;> simp [Value.isNull]
  unfold relationFits
  cases c.kind with
  | relation field target onDelete =>
      simp only [List.all_eq_true, Bool.or_eq_true, isNull_iff, pointsTo_iff]
      constructor
      · intro fits _ _ _ same
        cases same
        exact fits
      · intro fits
        exact fits field target onDelete rfl
  | _ => simp

instance : Decidable (Typed schema models D) :=
  decidable_of_iff
    ((∀ m ∈ models, ∀ r ∈ D m.table, pointsTo D m (r m.primaryKey))
      ∧ (∀ a ∈ models, ∀ b ∈ models, a.root = b.root → ∀ r ∈ D a.table,
        pointsTo D b (r a.primaryKey) → a ∈ b.chain ∨ b ∈ a.chain)
      ∧ ∀ level ∈ models, ∀ c ∈ level.columns, relationFits schema D level c) (by
    constructor
    · rintro ⟨keyed, line, relations⟩
      refine ⟨?_, ?_, ?_⟩
      · intro m known r stored
        obtain ⟨id, key, -⟩ := pointsTo_iff.1 (keyed m known r stored)
        exact ⟨id, key⟩
      · rintro a first b second root id ⟨r, stored, key⟩ occurs
        exact line a first b second root r stored (pointsTo_iff.2 ⟨id, key, occurs⟩)
      · intro level c target onDelete declares r stored
        obtain ⟨field, kind⟩ := declares.relates
        have fits := relations level declares.registered c declares.declared
        exact relationFits_iff.1 fits field target onDelete kind r stored
    · intro typed
      refine ⟨?_, ?_, ?_⟩
      · intro m known r stored
        obtain ⟨id, key⟩ := typed.keyed m known r stored
        exact pointsTo_iff.2 ⟨id, key, r, stored, key⟩
      · intro a first b second root r stored points
        obtain ⟨id, key, occurs⟩ := pointsTo_iff.1 points
        exact typed.line a first b second root id ⟨r, stored, key⟩ occurs
      · intro level known c declares
        refine relationFits_iff.2 fun field target onDelete kind r stored => ?_
        exact typed.relations level c target onDelete ⟨known, declares, field, kind⟩ r stored)

instance : Decidable (Linked schema models D) :=
  decidable_of_iff
    (∀ l ∈ declaredLinks schema models, ∀ r ∈ D l.table,
      pointsTo D l.owner (r l.ownerColumn) ∧ pointsTo D l.target (r l.targetColumn)) (by
    constructor
    · intro links l link r stored
      obtain ⟨owner, target⟩ := links l (links_iff.1 link) r stored
      exact ⟨pointsTo_iff.1 owner, pointsTo_iff.1 target⟩
    · intro linked l link r stored
      obtain ⟨owner, target⟩ := linked l (links_iff.2 link) r stored
      exact ⟨pointsTo_iff.2 owner, pointsTo_iff.2 target⟩)

end

/-- The keys that go: those of the given ids, and those of rows that point to one that goes through
a cascading relation. -/
inductive Doomed (schema : Schema) (models : List EntityModel) (D : Tables) (m : EntityModel)
    (ids : List Int64) : RowKey → Prop
  | given (id : Int64) (member : id ∈ ids) : Doomed schema models D m ids (m.root.table, id)
  | cascades (level : EntityModel) (c : Column) (target : ModelRef)
      (declares : Declares models level c target .cascade) (r : Cells)
      (stored : r ∈ D level.table) (id pointed : Int64) (key : r level.primaryKey = .int id)
      (points : r c.name = .int pointed)
      (doomed : Doomed schema models D m ids ((schema.model target).root.table, pointed)) :
      Doomed schema models D m ids (level.root.table, id)

def pointsInto (gone : List RowKey) (m : EntityModel) : Value → Bool
  | .int id => gone.contains (m.root.table, id)
  | _ => false

def letsGo (schema : Schema) (gone : List RowKey) (value : Value) (c : Column) : Bool :=
  match c.kind with
  | .relation _ target .setNull => pointsInto gone (schema.model target) value
  | _ => false

def leftOver (schema : Schema) (gone : List RowKey) (level : EntityModel) (r : Cells) : Cells :=
  fun column =>
    if level.columns.any fun c => c.name == column && letsGo schema gone (r column) c then .null
    else r column

/-- The tables after all that is gone has been removed: no row of a model with its key, no link that
names it, and no pointer to it that is to be emptied; all else is as before. -/
structure Removed (schema : Schema) (models : List EntityModel) (D : Tables) (gone : List RowKey)
    (left : Tables) : Prop where
  levels : ∀ m ∈ models, left m.table =
    ((D m.table).filter fun r => !pointsInto gone m (r m.primaryKey)).map (leftOver schema gone m)
  links : ∀ l, Links schema models l → left l.table =
    (D l.table).filter fun r => !(pointsInto gone l.owner (r l.ownerColumn)
      || pointsInto gone l.target (r l.targetColumn))
  others : ∀ table, (∀ m ∈ models, m.table ≠ table) →
    (∀ l, Links schema models l → l.table ≠ table) → left table = D table

/-- The columns that removal names in its statements. -/
inductive Named (schema : Schema) (models : List EntityModel) : String → String → Prop
  | key (m : EntityModel) (known : m ∈ models) : Named schema models m.table m.primaryKey
  | relation (level : EntityModel) (c : Column) (target : ModelRef) (onDelete : OnDelete)
      (declares : Declares models level c target onDelete) : Named schema models level.table c.name
  | owner (l : LinkTable) (link : Links schema models l) : Named schema models l.table l.ownerColumn
  | target (l : LinkTable) (link : Links schema models l) :
      Named schema models l.table l.targetColumn

theorem markFree_of_named {schema : Schema} {models : List EntityModel}
    (levels : ∀ m ∈ models, Sql.MarkFree m.table ∧ Sql.MarkFree m.primaryKey
      ∧ ∀ c ∈ m.columns, Sql.MarkFree c.name)
    (links : ∀ l ∈ declaredLinks schema models, Sql.MarkFree l.table
      ∧ Sql.MarkFree l.ownerColumn ∧ Sql.MarkFree l.targetColumn) (table column : String)
    (named : Named schema models table column) : Sql.MarkFree table ∧ Sql.MarkFree column := by
  cases named with
  | key m known => exact ⟨(levels m known).1, (levels m known).2.1⟩
  | relation level c target onDelete declares =>
      have free := levels level declares.registered
      exact ⟨free.1, free.2.2 c declares.declared⟩
  | owner l link =>
      have free := links l (links_iff.1 link)
      exact ⟨free.1, free.2.1⟩
  | target l link =>
      have free := links l (links_iff.1 link)
      exact ⟨free.1, free.2.2⟩

/-! ### Justified commands -/

/-- The command concerns keys that go: rows of a model, links on one side, or pointers that are to
be emptied. -/
inductive Justified (schema : Schema) (models : List EntityModel) (gone : RowKey → Prop) :
    Command → Prop
  | level (m : EntityModel) (known : m ∈ models) (ids : List Int64)
      (all : ∀ id ∈ ids, gone (m.root.table, id)) :
      Justified schema models gone (.delete m.table m.primaryKey ids)
  | owner (l : LinkTable) (link : Links schema models l) (ids : List Int64)
      (all : ∀ id ∈ ids, gone (l.owner.root.table, id)) :
      Justified schema models gone (.delete l.table l.ownerColumn ids)
  | target (l : LinkTable) (link : Links schema models l) (ids : List Int64)
      (all : ∀ id ∈ ids, gone (l.target.root.table, id)) :
      Justified schema models gone (.delete l.table l.targetColumn ids)
  | pointer (level : EntityModel) (c : Column) (target : ModelRef)
      (declares : Declares models level c target .setNull) (ids : List Int64)
      (all : ∀ id ∈ ids, gone ((schema.model target).root.table, id)) :
      Justified schema models gone (.setNull level.table c.name ids)

variable {schema : Schema} {models : List EntityModel} {gone : RowKey → Prop}

theorem Justified.named {c : Command} (justified : Justified schema models gone c) :
    Named schema models c.table c.column := by
  cases justified with
  | level m known ids all => exact .key m known
  | owner l link ids all => exact .owner l link
  | target l link ids all => exact .target l link
  | pointer level c target declares ids all => exact .relation level c target _ declares

theorem Justified.mono {more : RowKey → Prop} (wider : ∀ key, gone key → more key) {c : Command}
    (justified : Justified schema models gone c) : Justified schema models more c := by
  cases justified with
  | level m known ids all => exact .level m known ids fun id member => wider _ (all id member)
  | owner l link ids all => exact .owner l link ids fun id member => wider _ (all id member)
  | target l link ids all => exact .target l link ids fun id member => wider _ (all id member)
  | pointer level c target declares ids all =>
      exact .pointer level c target declares ids fun id member => wider _ (all id member)

section

variable (registered : Registered schema models) {made : List Command}
  (justified : ∀ c ∈ made, Justified schema models gone c)

include registered justified

theorem deletes_level {m : EntityModel} (known : m ∈ models) {column : String} {ids : List Int64}
    (member : .delete m.table column ids ∈ made) :
    column = m.primaryKey ∧ ∀ id ∈ ids, gone (m.root.table, id) := by
  generalize same : m.table = table at member
  cases justified _ member with
  | level other otherKnown ids all =>
      have equal : m = other := registered.tables m known other otherKnown same
      subst equal
      exact ⟨rfl, all⟩
  | owner l link ids all => exact (registered.linksApart l link m known same.symm).elim
  | target l link ids all => exact (registered.linksApart l link m known same.symm).elim

theorem empties_level {m : EntityModel} (known : m ∈ models) {column : String} {ids : List Int64}
    (member : .setNull m.table column ids ∈ made) :
    ∃ c target, Declares models m c target .setNull ∧ c.name = column
      ∧ ∀ id ∈ ids, gone ((schema.model target).root.table, id) := by
  generalize same : m.table = table at member
  cases justified _ member with
  | pointer level c target declares ids all =>
      have equal : m = level := registered.tables m known level declares.registered same
      subst equal
      exact ⟨c, target, declares, rfl, all⟩

theorem deletes_link {l : LinkTable} (link : Links schema models l) {column : String}
    {ids : List Int64} (member : .delete l.table column ids ∈ made) :
    column = l.ownerColumn ∧ (∀ id ∈ ids, gone (l.owner.root.table, id))
      ∨ column = l.targetColumn ∧ ∀ id ∈ ids, gone (l.target.root.table, id) := by
  generalize same : l.table = table at member
  cases justified _ member with
  | level m known ids all => exact (registered.linksApart l link m known same).elim
  | owner other otherLink ids all =>
      have equal : l = other := registered.links l other link otherLink same
      subst equal
      exact Or.inl ⟨rfl, all⟩
  | target other otherLink ids all =>
      have equal : l = other := registered.links l other link otherLink same
      subst equal
      exact Or.inr ⟨rfl, all⟩

theorem empties_no_link {l : LinkTable} (link : Links schema models l) {column : String}
    {ids : List Int64} : .setNull l.table column ids ∉ made := by
  intro member
  generalize same : l.table = table at member
  cases justified _ member with
  | pointer level c target declares ids all =>
      exact registered.linksApart l link level declares.registered same

variable (unambiguous : ∀ m ∈ models, m.Unambiguous)

include unambiguous

theorem keeps_keys {m : EntityModel} (known : m ∈ models) {ids : List Int64} :
    .setNull m.table m.primaryKey ids ∉ made := by
  intro member
  obtain ⟨c, target, declares, name, -⟩ := empties_level registered justified known member
  obtain ⟨field, kind⟩ := declares.relates
  exact (unambiguous m known).key c declares.declared field target kind name

theorem keeps_cascades {level : EntityModel} {c : Column} {target : ModelRef}
    (declares : Declares models level c target .cascade) {ids : List Int64} :
    .setNull level.table c.name ids ∉ made := by
  intro member
  obtain ⟨c', target', declares', name, -⟩ :=
    empties_level registered justified declares.registered member
  obtain ⟨-, policies⟩ :=
    declares'.eq_of_name (unambiguous level declares.registered) declares name
  cases policies

theorem justified_apart : Apart made := by
  intro table column ids ids' removed emptied
  cases justified _ removed with
  | level m known ids all => exact keeps_keys registered justified unambiguous known emptied
  | owner l link ids all => exact empties_no_link registered justified link emptied
  | target l link ids all => exact empties_no_link registered justified link emptied

end

end Removal

end EntityStore
