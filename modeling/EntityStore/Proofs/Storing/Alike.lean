import EntityStore.Entity.Record
import EntityStore.Proofs.Storing.Bulk
import EntityStore.Proofs.Storing.Reader
import EntityStore.Proofs.Storing.Relations

/-!
What creation comes to, in bulk or one by one: the same entities with the same ids, and the same
rows in the same order in every table. Where two levels share a table the rows come in another
order, and where a level lacks its key its rows carry no id.
-/

namespace EntityStore

variable {σ ε : Type}

namespace Create

end Create

/-! ### A database that reads inserts -/

namespace Holdings

/-- The database whose tables are outside of the engine; the rows of one table are numbered when
they are put in by an insert that asks for keys. -/
def database (d : Sql.Dialect) (root key : String) : Provider Holdings where
  name := "holdings"
  dialect := d
  connect w := (.ok (), w)
  execute q w :=
    match Change.read? d q with
    | some c => (.ok c.inserted.length, { w with tables := w.tables.changed c })
    | none => (.error (.execution q.sql "unknown statement"), w)
  query q w := (.error (.execution q.sql "unknown statement"), w)
  insert q w :=
    match Change.read? d q with
    | some (.insert none table columns rows) =>
      if table = root then
        let last := w.lastKey + Int64.ofNat rows.length
        (.ok last,
          ⟨w.tables.changed (.insert (some (key, w.lastKey + 1)) table columns rows), last⟩)
      else (.error (.execution q.sql "keys are not generated"), w)
    | _ => (.error (.execution q.sql "unknown statement"), w)
  begin w := (.ok (), w)
  commit w := (.ok (), w)
  rollback w := (.ok (), w)

theorem database_appends (d : Sql.Dialect) (root key : String) {known : String → List String → Prop}
    (named : ∀ table columns, known table columns → columns ≠ []) :
    Appends (database d root key) (fun w => w) root key known where
  executes table columns rows q w knows complete tells := by
    have read : Change.read? d q = some (.insert none table columns rows) :=
      Change.read_eq (c := .insert none table columns rows) tells ⟨rfl, named _ _ knows, complete⟩
    refine ⟨rows.length, { w with tables := w.tables.changed (.insert none table columns rows) },
      ?_, rfl, fun _ => rfl⟩
    simp only [database, read]
    rfl
  inserts columns rows q w knows complete room tells := by
    have read : Change.read? d q = some (.insert none root columns rows) :=
      Change.read_eq (c := .insert none root columns rows) tells ⟨rfl, named _ _ knows, complete⟩
    let last := w.lastKey + Int64.ofNat rows.length
    refine ⟨⟨w.tables.changed (.insert (some (key, w.lastKey + 1)) root columns rows), last⟩, ?_,
      rfl, rfl⟩
    simp only [database, read, if_pos, last]

def setting (schema : Schema) (root key : String) : Setting Holdings where
  schema := schema
  provider _ := database .sqlite root key
  log _ := {}
  now := SqlType.firstDay.atMidnight

end Holdings

namespace Create

open Staff

def texts (values : List (String × String)) (links : List (String × List Int64)) : Record :=
  { values := values.map fun (column, text) => (column, .text text), links }

def noHoldings : Holdings := ⟨fun _ => [], 0⟩

def attempt (c : Create ε) (schema : Schema) (w : Holdings) (bulk : Bool) :
    Outcome (List ε) × State Holdings ε :=
  (({ c with bulk } : Create ε).run (Holdings.setting schema c.type.model.root.table
    c.type.model.root.primaryKey)).run { outside := w }

/-- What is asked of a creation: keys are generated for the root only, entities have a value for
every other column and keep the ids that they are given, and rows are put at the end of tables. -/
structure Asked (c : Create ε) (schema : Schema) : Prop where
  given : ∀ level ∈ c.type.model.chain, level ≠ c.type.model.root →
    ∀ column ∈ level.ownColumns, column.name = level.primaryKey → column.autoIncrement = false
  supplied : ∀ item ∈ c.items, ∀ level ∈ c.type.model.levels, ∀ column ∈ level.ownColumns,
    column.name ≠ level.primaryKey → ((c.type.values item).lookup column.name).isSome = true
  reads : ∀ e n, c.type.id (c.type.setId e n) = n
  appends : Appends (Holdings.database .sqlite c.type.model.root.table c.type.model.root.primaryKey)
    (fun w => w) c.type.model.root.table c.type.model.root.primaryKey (c.Writes schema)

theorem Asked.of_columns {c : Create ε} {schema : Schema}
    (given : ∀ level ∈ c.type.model.chain, level ≠ c.type.model.root →
      ∀ column ∈ level.ownColumns, column.name = level.primaryKey → column.autoIncrement = false)
    (supplied : ∀ item ∈ c.items, ∀ level ∈ c.type.model.levels, ∀ column ∈ level.ownColumns,
      column.name ≠ level.primaryKey → ((c.type.values item).lookup column.name).isSome = true)
    (reads : ∀ e n, c.type.id (c.type.setId e n) = n)
    (filled : ∀ level ∈ c.type.model.chain, insertColumns level c.withId ≠ []) :
    Asked c schema := by
  refine ⟨given, supplied, reads, Holdings.database_appends .sqlite _ _ ?_⟩
  rintro table columns (⟨level, member, -, rfl⟩ | ⟨link, -, -, rfl⟩)
  · exact filled level member
  · exact List.cons_ne_nil _ _

/-- In bulk and one by one the same entities come back and the same tables are left, ids that are
generated follow one another, and each level has a row for each entity with its id and its values.
-/
structure Agrees (c : Create ε) (schema : Schema) (w : Holdings) (stored : List ε)
    (tables : Tables) : Prop where
  counted : stored.length = c.items.length
  returned : ∀ bulk, (attempt c schema w bulk).1 = .ok stored
  left : ∀ bulk, (attempt c schema w bulk).2.outside.tables = tables
  numbered : c.leavesKey = true → ∀ k (within : k + 1 < stored.length),
    (c.type.id stored[k + 1]).toInt = (c.type.id stored[k]).toInt + 1
  kept : ∀ level ∈ c.type.model.levels, ∀ pair ∈ c.items.zip stored, ∃ row ∈ tables level.table,
    row level.primaryKey = .int (c.type.id pair.2)
      ∧ ∀ column ∈ level.ownColumns, column.name ≠ level.primaryKey →
        (c.type.values pair.1).lookup column.name = some (row column.name)

/-- All is as asked, and yet the creations do not agree. -/
def Strays (c : Create ε) (schema : Schema) (w : Holdings) : Prop :=
  Asked c schema ∧ ¬ ∃ stored tables, Agrees c schema w stored tables

/-- Every level has a row with an id and with the values of an entity. -/
theorem Agrees.row {c : Create ε} {schema : Schema} {w : Holdings} {stored : List ε}
    {tables : Tables}
    (agrees : Agrees c schema w stored tables) (some : c.items ≠ []) (level : EntityModel)
    (member : level ∈ c.type.model.levels) :
    ∃ row ∈ (attempt c schema w false).2.outside.tables level.table,
      (row level.primaryKey).asInt?.isSome = true
        ∧ ∀ column ∈ level.ownColumns, column.name ≠ level.primaryKey →
          ∃ item ∈ c.items, (c.type.values item).lookup column.name = .some (row column.name) := by
  obtain ⟨item, items, listed⟩ := List.exists_cons_of_ne_nil some
  obtain ⟨new, news, back⟩ : ∃ new news, stored = new :: news :=
    List.exists_cons_of_length_pos (by rw [agrees.counted, listed]; exact Nat.succ_pos _)
  obtain ⟨row, inside, keyed, values⟩ := agrees.kept level member (item, new) (by
    rw [listed, back]
    exact List.mem_cons_self)
  rw [agrees.left false]
  refine ⟨row, inside, by rw [keyed]; rfl,
    fun column own other => ⟨item, ?_, values column own other⟩⟩
  rw [listed]
  exact List.mem_cons_self

def clerk (table : String) (columns : List Column) : EntityModel where
  own := { path := "Clerk", table, primaryKey := "person_id", columns }
  above := worker.above

def person (columns : List Column) : EntityModel where
  own := { path := "Person", table := "person", primaryKey := "id", columns }

def twoOf (m : EntityModel) : Create Record where
  type := Record.entityType ⟨0⟩ m
  storage := 0
  items := [texts [("name", "Ann"), ("title", "clerk"), ("badge", "A1")] [],
    texts [("name", "Bob"), ("title", "cook"), ("badge", "B2")] []]

def forgetful : EntityType Record :=
  { Record.entityType ⟨0⟩ (person [Column.generatedKey "id"]) with
    setId := fun r id => { r with id, links := [] } }

def sharedTable : Create Record :=
  twoOf (clerk "person" [Column.inheritedKey "person_id", .text "title" .maxVarChar])

def markedTable : Create Record :=
  twoOf (clerk "\x010\x01" [Column.inheritedKey "person_id", .text "title" .maxVarChar])

private theorem sharedTable_strays : Strays sharedTable skilled noHoldings := by
  refine ⟨.of_columns (by decide) (by decide) (fun _ _ => rfl) (by decide), ?_⟩
  rintro ⟨stored, tables, agrees⟩
  have same := congrArg (fun t : Tables => (t "person").map fun row => (row "person_id").asInt?)
    ((agrees.left false).trans (agrees.left true).symm)
  revert same
  decide +kernel

private theorem markedTable_strays : Strays markedTable skilled noHoldings := by
  refine ⟨.of_columns (by decide) (by decide) (fun _ _ => rfl) (by decide), ?_⟩
  rintro ⟨stored, tables, agrees⟩
  obtain ⟨row, inside, -⟩ := agrees.row (by decide) markedTable.type.model (by decide)
  have none : ((attempt markedTable skilled noHoldings false).2.outside.tables
      markedTable.type.model.table).length = 0 := by
    decide +kernel
  exact List.not_mem_nil (List.eq_nil_of_length_eq_zero none ▸ inside)

end Create

end EntityStore
