import EntityStore.Builder.Basic
import EntityStore.Engine.Event
import EntityStore.Proofs.Query.Relation
import EntityStore.Proofs.Sql.Placement

/-!
Changes of tables. What entities and links come down to in a database is that rows are put into a
table, columns are set in the rows that have some keys, and the rows that have some keys go. Each such
change becomes one statement, and the statement says which change it is. Rows that are put in come
after those that are there.
-/

namespace EntityStore

/-- One change of one table. Rows may be put into a table that numbers them in a key column, from
some key on. -/
inductive Change
  | insert (numbering? : Option (String × Int64)) (table : String) (columns : List String)
      (rows : List (List Value))
  | update (table : String) (set : List (String × Value)) (key : String) (ids : List Int64)
  | delete (table column : String) (ids : List Int64)

/-- The names of a level bring no marks. -/
structure EntityModel.Unmarked (level : EntityModel) : Prop where
  table : Sql.MarkFree level.table
  columns : ∀ c ∈ level.ownColumns, Sql.MarkFree c.name

instance (level : EntityModel) : Decidable level.Unmarked :=
  decidable_of_iff (Sql.MarkFree level.table ∧ ∀ c ∈ level.ownColumns, Sql.MarkFree c.name)
    ⟨fun ⟨table, columns⟩ => ⟨table, columns⟩, fun unmarked => ⟨unmarked.table, unmarked.columns⟩⟩

namespace Change

def table : Change → String
  | insert _ table _ _ | update table _ _ _ | delete table _ _ => table

def values : Change → List Value
  | insert _ _ _ rows => rows.flatten
  | update _ set _ ids => set.map (·.2) ++ ids.map .int
  | delete _ _ ids => ids.map .int

def inserted : Change → List (List Value)
  | insert _ _ _ rows => rows
  | update .. | delete .. => []

/-- No insert has more parameters than are allowed, unless it is of a single row. -/
def Fits : Change → Prop
  | insert _ _ _ rows => rows.flatten.length ≤ bulkParams ∨ rows.length = 1
  | update .. | delete .. => True

/-- There are rows, and each has a value for every column. -/
def Complete (columns : List String) (rows : List (List Value)) : Prop :=
  rows ≠ [] ∧ ∀ row ∈ rows, row.length = columns.length

/-- The change has values for some columns, and numbers no rows. -/
def Full : Change → Prop
  | insert numbering? _ columns rows => numbering? = none ∧ columns ≠ [] ∧ Complete columns rows
  | update _ set _ _ => set ≠ []
  | delete .. => True

/-- The names in the change bring no marks. -/
def Named : Change → Prop
  | insert _ table columns _ => Sql.MarkFree table ∧ ∀ column ∈ columns, Sql.MarkFree column
  | update table set key _ => Sql.MarkFree table ∧ Sql.MarkFree key ∧ ∀ c ∈ set, Sql.MarkFree c.1
  | delete table column _ => Sql.MarkFree table ∧ Sql.MarkFree column

def template (d : Sql.Dialect) : Change → Sql.Template
  | insert _ table columns rows => Sql.insert d table columns rows
  | update table set key ids => Sql.update d table set key ids
  | delete table column ids => Sql.delete d table column ids

/-- What the text and the parameters of a statement say. -/
def Tells (d : Sql.Dialect) : Change → Sql.Statement → Prop
  | insert _ table columns rows, q => Sql.InsertsRows d table columns rows q
  | update table set key ids, q => Sql.UpdatesRows d table set key ids q
  | delete table column ids, q =>
    Sql.EndsInIds ("DELETE FROM " ++ d.quote table ++ " WHERE " ++ d.quote column ++ " IN (") ids q

theorem binds (d : Sql.Dialect) {c : Change} (named : c.Named) :
    ∃ q, (c.template d).bind [] = .ok q ∧ c.Tells d q := by
  cases c with
  | insert numbering? table columns rows => exact Sql.insert_binds d named.1 named.2 rows
  | update table set key ids => exact Sql.update_binds d named.1 named.2.1 named.2.2 ids
  | delete table column ids => exact Sql.delete_binds d named.1 named.2 ids

theorem Tells.values_eq {d : Sql.Dialect} {c : Change} {q : Sql.Statement} (tells : c.Tells d q) :
    q.values = c.values := by
  cases c with
  | insert numbering? table columns rows =>
      obtain ⟨groups, params, valued, -⟩ := tells.text
      rw [Sql.Statement.values, params, List.map_flatten, valued]
      rfl
  | update table set key ids =>
      obtain ⟨sets, keys, params, assigned, valued, -⟩ := tells.text
      rw [Sql.Statement.values, params, List.map_append, assigned, valued]
      rfl
  | delete table column ids => exact tells.values

def sent (i : StorageId) (q : Sql.Statement) : Change → Event
  | insert (some _) .. => .insert i q true
  | _ => .execute i q true

end Change

/-! ### What changes make of the rows -/

namespace Cells

def assigned (r : Cells) (set : List (String × Value)) : Cells :=
  fun column => (set.lookup column).getD (r column)

theorem of_zip_map (columns : List String) (f : String → Value) (column : String) :
    Cells.of (columns.zip (columns.map f)) column =
      if column ∈ columns then f column else .null := by
  unfold Cells.of
  induction columns with
  | nil => rfl
  | cons first rest ih =>
      rw [List.map_cons, List.zip_cons_cons, List.lookup_cons]
      by_cases same : column = first
      · subst same
        simp
      · rw [beq_eq_false_iff_ne.2 same]
        simp only [List.mem_cons, same, false_or]
        exact ih

theorem of_cons (key : String) (value : Value) (rest : List (String × Value)) (column : String) :
    Cells.of ((key, value) :: rest) column =
      if column = key then value else Cells.of rest column := by
  unfold Cells.of
  rw [List.lookup_cons]
  by_cases same : column = key
  · rw [if_pos same, beq_iff_eq.2 same]
    rfl
  · rw [if_neg same, beq_eq_false_iff_ne.2 same]

end Cells

namespace Change

def numbered (key : String) (columns : List String) (first : Int64) : List (List Value) → List Cells
  | [] => []
  | row :: rest =>
    Cells.of ((key, .int first) :: columns.zip row) :: numbered key columns (first + 1) rest

def cells : Change → List Cells
  | insert none _ columns rows => rows.map fun row => Cells.of (columns.zip row)
  | insert (some (key, first)) _ columns rows => numbered key columns first rows
  | update .. | delete .. => []

/-- What becomes of the rows of the table that the change is about. -/
def onRows (c : Change) (rows : List Cells) : List Cells :=
  match c with
  | insert .. => rows ++ c.cells
  | update _ set key ids =>
    rows.map fun r => if Tables.holds ids (r key) then r.assigned set else r
  | delete _ column ids => rows.filter fun r => !Tables.holds ids (r column)

def cellsIn (made : List Change) (table : String) : List Cells :=
  (made.filter (·.table = table)).flatMap cells

theorem cellsIn_append (made more : List Change) (table : String) :
    cellsIn (made ++ more) table = cellsIn made table ++ cellsIn more table := by
  rw [cellsIn, List.filter_append, List.flatMap_append]
  rfl

theorem cellsIn_flatMap {γ : Type} (items : List γ) (changes : γ → List Change) (table : String) :
    cellsIn (items.flatMap changes) table =
      items.flatMap fun item => cellsIn (changes item) table := by
  induction items with
  | nil => rfl
  | cons item rest ih => rw [List.flatMap_cons, cellsIn_append, ih, List.flatMap_cons]

theorem cellsIn_single (c : Change) (table : String) :
    cellsIn [c] table = if c.table = table then c.cells else [] := by
  by_cases here : c.table = table
  · simp [cellsIn, here]
  · simp [cellsIn, here]

end Change

namespace Tables

def changed (D : Tables) (c : Change) : Tables :=
  fun table => if c.table = table then c.onRows (D table) else D table

theorem foldl_changed (D : Tables) (made : List Change) (table : String) :
    made.foldl changed D table =
      (made.filter (·.table = table)).foldl (fun rows c => c.onRows rows) (D table) := by
  induction made generalizing D with
  | nil => rfl
  | cons c rest ih =>
      rw [List.foldl_cons, ih]
      by_cases here : c.table = table
      · rw [List.filter_cons_of_pos (by simpa using here), List.foldl_cons, changed, if_pos here]
      · rw [List.filter_cons_of_neg (by simpa using here), changed, if_neg here]

/-- Where rows are only put in, they come after each other. -/
theorem foldl_changed_inserted (D : Tables) {made : List Change}
    (inserts : ∀ c ∈ made, ∃ numbering? table columns rows,
      c = .insert numbering? table columns rows) (table : String) :
    made.foldl changed D table = D table ++ Change.cellsIn made table := by
  induction made generalizing D with
  | nil => exact (List.append_nil _).symm
  | cons c rest ih =>
      obtain ⟨⟨numbering?, other, columns, rows, rfl⟩, others⟩ := List.forall_mem_cons.1 inserts
      rw [List.foldl_cons, ih _ others, ← List.singleton_append, Change.cellsIn_append,
        Change.cellsIn_single, ← List.append_assoc]
      congr 1
      unfold changed
      split
      · rfl
      · exact (List.append_nil _).symm

end Tables

end EntityStore
