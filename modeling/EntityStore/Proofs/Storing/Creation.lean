import EntityStore.Builder.Create
import EntityStore.Proofs.Model.Chain
import EntityStore.Proofs.Storing.Contents
import EntityStore.Proofs.Storing.Targets

/-!
Creation one by one and in bulk. One by one, each entity is put into all its levels before the next;
in bulk, each level takes all entities, cut into statements of bounded size, and the keys are
counted back from the last that a statement has generated. As long as every level has a table of its
own, tables have the same rows in the same order after either, and the entities have the same ids.
-/

namespace EntityStore

variable {σ ε α β : Type}

structure Holdings where
  tables : Tables
  lastKey : Int64

/-- The row of an entity in the table of a level: the id in the column of the key, and its values in
the other columns. -/
def EntityModel.rowOf (level : EntityModel) (values : List (String × Value)) (id : Int64) : Cells :=
  fun column =>
    if column = level.primaryKey then .int id
    else if column ∈ level.ownColumns.map (·.name) then (values.lookup column).getD .null
    else .null

def levelRows (levels : List EntityModel) (values : List (List (String × Value))) (ids : List Int64)
    (table : String) : List Cells :=
  (levels.filter (·.table = table)).flatMap fun level => List.zipWith level.rowOf values ids

namespace Create

def leavesKey (c : Create ε) : Bool :=
  generatesKey c.type.model.root c.withId

def storedFrom (c : Create ε) (lastKey : Int64) (items : List ε) : List ε :=
  if c.leavesKey then setIds c.type (lastKey + 1) items else items

/-- The values have one for each column that a level is to be given, except for its key. -/
def Supplies (level : EntityModel) (withId : Bool) (values : List (String × Value)) : Prop :=
  ∀ column ∈ insertColumns level withId, column ≠ level.primaryKey →
    (values.lookup column).isSome = true

instance (level : EntityModel) (withId : Bool) (values : List (String × Value)) :
    Decidable (Supplies level withId values) :=
  inferInstanceAs (Decidable (∀ column ∈ insertColumns level withId, _ → _))

/-- Each level has a table of its own with one key, which is among its columns; only the root's key
is ever generated. -/
structure Creatable (m : EntityModel) : Prop where
  tables : (m.levels.map (·.table)).Nodup
  declared : ∀ level ∈ m.chain, ∃ c ∈ level.ownColumns, c.name = level.primaryKey
  marked : ∀ level ∈ m.chain, ∀ c ∈ level.ownColumns, c.primary = true → c.name = level.primaryKey
  given : ∀ level ∈ m.chain, level ≠ m.root →
    ∀ c ∈ level.ownColumns, c.name = level.primaryKey → c.autoIncrement = false

instance (m : EntityModel) : Decidable (Creatable m) :=
  decidable_of_iff
    ((m.levels.map (·.table)).Nodup ∧
      (∀ level ∈ m.chain, ∃ c ∈ level.ownColumns, c.name = level.primaryKey) ∧
      (∀ level ∈ m.chain, ∀ c ∈ level.ownColumns, c.primary = true → c.name = level.primaryKey) ∧
      ∀ level ∈ m.chain, level ≠ m.root →
        ∀ c ∈ level.ownColumns, c.name = level.primaryKey → c.autoIncrement = false)
    ⟨fun ⟨tables, declared, marked, given⟩ => ⟨tables, declared, marked, given⟩,
      fun creatable => ⟨creatable.tables, creatable.declared, creatable.marked, creatable.given⟩⟩

/-! ### Rows -/

section

variable {level : EntityModel} {withId : Bool} {values : List (String × Value)} {id : Int64}

def cellOf (level : EntityModel) (values : List (String × Value)) (id : Int64) (column : String) :
    Value :=
  if column = level.primaryKey then .int id else (values.lookup column).getD .null

theorem rowValues_ok {columns : List String}
    (supplied : ∀ column ∈ columns, column ≠ level.primaryKey →
      (values.lookup column).isSome = true) (id : Int64) :
    rowValues level columns values id = .ok (columns.map (cellOf level values id)) := by
  unfold rowValues
  induction columns with
  | nil => rfl
  | cons column rest ih =>
      obtain ⟨first, others⟩ := List.forall_mem_cons.1 supplied
      rw [List.mapM_cons, ih others, List.map_cons]
      unfold cellOf
      by_cases key : column = level.primaryKey
      · rw [if_pos key, if_pos key]
        rfl
      · obtain ⟨value, found⟩ := Option.isSome_iff_exists.1 (first key)
        rw [if_neg key, if_neg key, Builder.storedValue, found]
        rfl

private theorem insertColumns_given (keyed : generatesKey level withId = false) :
    insertColumns level withId = level.ownColumns.map (·.name) := by
  unfold insertColumns
  rw [List.filter_eq_self.2]
  intro c member
  rw [generatesKey, List.any_eq_false] at keyed
  simpa using keyed c member

theorem cells_given (declared : ∃ c ∈ level.ownColumns, c.name = level.primaryKey)
    (keyed : generatesKey level withId = false) (values : List (String × Value)) (id : Int64) :
    Cells.of ((insertColumns level withId).zip
      ((insertColumns level withId).map (cellOf level values id))) = level.rowOf values id := by
  funext column
  rw [Cells.of_zip_map, insertColumns_given keyed, cellOf, EntityModel.rowOf]
  by_cases key : column = level.primaryKey
  · obtain ⟨c, member, named⟩ := declared
    have known : column ∈ level.ownColumns.map (·.name) :=
      List.mem_map.2 ⟨c, member, named.trans key.symm⟩
    rw [if_pos known, if_pos key, if_pos key]
  · rw [if_neg key, if_neg key]

/-- A key that is left to the database is the one column without a value. -/
theorem cells_generated
    (marked : ∀ c ∈ level.ownColumns, c.primary = true → c.name = level.primaryKey)
    (values : List (String × Value)) (id key : Int64) :
    Cells.of ((level.primaryKey, .int key) :: (insertColumns level withId).zip
      ((insertColumns level withId).map (cellOf level values id))) = level.rowOf values key := by
  funext column
  rw [Cells.of_cons, Cells.of_zip_map, EntityModel.rowOf]
  by_cases own : column = level.primaryKey
  · rw [if_pos own, if_pos own]
  · rw [if_neg own, if_neg own, cellOf, if_neg own]
    have same : column ∈ insertColumns level withId ↔ column ∈ level.ownColumns.map (·.name) := by
      unfold insertColumns
      rw [List.mem_map, List.mem_map]
      constructor
      · rintro ⟨c, member, rfl⟩
        exact ⟨c, (List.mem_filter.1 member).1, rfl⟩
      · rintro ⟨c, member, rfl⟩
        refine ⟨c, List.mem_filter.2 ⟨member, ?_⟩, rfl⟩
        have plain : c.primary = false := by
          by_contra primary
          exact own (marked c member (Bool.not_eq_false _ ▸ primary))
        rw [isGenerated, plain]
        rfl
    by_cases known : column ∈ level.ownColumns.map (·.name)
    · rw [if_pos known, if_pos (same.2 known)]
    · rw [if_neg known, if_neg fun inside => known (same.1 inside)]

theorem levelRows_cons (level : EntityModel) (levels : List EntityModel)
    (values : List (List (String × Value))) (ids : List Int64) (table : String) :
    levelRows (level :: levels) values ids table =
      (if level.table = table then List.zipWith level.rowOf values ids else [])
        ++ levelRows levels values ids table := by
  unfold levelRows
  by_cases here : level.table = table
  · simp [here]
  · simp [here]

theorem levelRows_append {levels : List EntityModel} (distinct : (levels.map (·.table)).Nodup)
    {values more : List (List (String × Value))} {ids others : List Int64}
    (paired : values.length = ids.length) (table : String) :
    levelRows levels values ids table ++ levelRows levels more others table =
      levelRows levels (values ++ more) (ids ++ others) table := by
  unfold levelRows
  by_cases some : ∃ level ∈ levels, level.table = table
  · obtain ⟨level, member, rfl⟩ := some
    rw [filter_key_of_mem distinct member]
    simp [List.zipWith_append paired]
  · have none : levels.filter (·.table = table) = [] :=
      List.filter_eq_nil_iff.2 fun level member here => some ⟨level, member, of_decide_eq_true here⟩
    rw [none]
    rfl

end

/-! ### Ids -/

section

variable {type : EntityType ε}

theorem setIds_append (type : EntityType ε) (first : Int64) (items more : List ε) :
    setIds type first (items ++ more) =
      setIds type first items ++ setIds type (first + Int64.ofNat items.length) more := by
  induction items generalizing first with
  | nil =>
      show setIds type first more = setIds type (first + 0) more
      rw [Int64.add_zero]
  | cons item rest ih =>
      have counted : first + 1 + Int64.ofNat rest.length =
          first + Int64.ofNat (item :: rest).length := by
        rw [List.length_cons, Int64.ofNat_add]
        grind
      rw [List.cons_append, setIds, ih, counted]
      rfl

@[simp]
theorem length_setIds (type : EntityType ε) (first : Int64) (items : List ε) :
    (setIds type first items).length = items.length := by
  induction items generalizing first with
  | nil => rfl
  | cons item rest ih => rw [setIds, List.length_cons, List.length_cons, ih]

theorem toInt_add_ofNat {key : Int64} {n : Nat} (room : key.toInt + n ≤ Int64.maxValue.toInt) :
    (key + Int64.ofNat n).toInt = key.toInt + n := by
  have low := Int64.minValue_le_toInt key
  have min : Int64.minValue.toInt = -2 ^ 63 := rfl
  have max : Int64.maxValue.toInt = 2 ^ 63 - 1 := rfl
  have size : (Int64.size : Int) = 2 ^ 64 := rfl
  rw [Int64.toInt_add, Int64.toInt_ofNat', Int.add_bmod_bmod, Int.bmod_eq_of_le] <;> omega

theorem numbered_eq (reads : ∀ e n, type.id (type.setId e n) = n) {level : EntityModel}
    {withId : Bool}
    (marked : ∀ c ∈ level.ownColumns, c.primary = true → c.name = level.primaryKey) (first : Int64)
    (chunk : List (List (String × Value) × ε)) :
    Change.numbered level.primaryKey (insertColumns level withId) first
        (chunk.map fun pair =>
          (insertColumns level withId).map (cellOf level pair.1 (type.id pair.2))) =
      List.zipWith level.rowOf (chunk.map (·.1))
        ((setIds type first (chunk.map (·.2))).map type.id) := by
  induction chunk generalizing first with
  | nil => rfl
  | cons pair rest ih =>
      rw [List.map_cons, Change.numbered, ih, cells_generated marked]
      simp only [List.map_cons, setIds, reads, List.zipWith_cons_cons]

end

end Create

end EntityStore
