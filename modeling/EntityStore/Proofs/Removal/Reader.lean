import EntityStore.Proofs.Removal.Interpretation
import EntityStore.Proofs.Sql.Quotation

/-!
A database that keeps tables and reads the text of statements. It knows the statements that remove
rows, empty a column or look up keys, and fails on any other.
-/

namespace EntityStore

namespace Tables

open Sql

/-! ### Reading statements -/

def following : List Char → List Char → Option (List Char)
  | [], cs => some cs
  | _ :: _, [] => none
  | w :: word, c :: cs => if w = c then following word cs else none

theorem following_append (word rest : List Char) : following word (word ++ rest) = some rest := by
  induction word with
  | nil => rfl
  | cons w word ih => rw [List.cons_append, following, if_pos rfl, ih]

def nameAfter (d : Dialect) (word : String) (cs : List Char) : Option (String × List Char) := do
  let rest ← following word.toList cs
  readQuoted d rest

/-- The ids that the parameters of a statement hold, if the text is the list of their
placeholders. -/
def readIds? (s : Statement) (cs : List Char) : Option (List Int64) :=
  if cs = (" IN (" ++ ", ".intercalate (s.params.map (·.placeholder)) ++ ")").toList then
    s.values.mapM idOf?
  else none

def readDelete? (d : Dialect) (s : Statement) : Option Command := do
  let (table, rest) ← nameAfter d "DELETE FROM " s.sql.toList
  let (column, rest) ← nameAfter d " WHERE " rest
  return .delete table column (← readIds? s rest)

def readSetNull? (d : Dialect) (s : Statement) : Option Command := do
  let (table, rest) ← nameAfter d "UPDATE " s.sql.toList
  let (column, rest) ← nameAfter d " SET " rest
  let (selected, rest) ← nameAfter d " = NULL WHERE " rest
  if selected = column then return .setNull table column (← readIds? s rest) else none

def readLookUp? (d : Dialect) (s : Statement) :
    Option (String × String × String × List Int64) := do
  let (key, rest) ← nameAfter d "SELECT " s.sql.toList
  let (table, rest) ← nameAfter d " FROM " rest
  let (column, rest) ← nameAfter d " WHERE " rest
  return (key, table, column, ← readIds? s rest)

def database (d : Dialect) : Provider Tables where
  name := "tables"
  dialect := d
  connect D := (.ok (), D)
  execute s D :=
    match readDelete? d s <|> readSetNull? d s with
    | some c => (.ok (D.touched c), D.apply c)
    | none => (.error (.execution s.sql "unknown statement"), D)
  query s D :=
    match readLookUp? d s with
    | some (key, table, column, ids) =>
      (.ok ((D.selected table column ids).map fun r => ⟨[(key, r key)]⟩), D)
    | none => (.error (.execution s.sql "unknown statement"), D)
  insert s D := (.error (.execution s.sql "unknown statement"), D)
  begin D := (.ok (), D)
  commit D := (.ok (), D)
  rollback D := (.ok (), D)

/-! ### Statements read back -/

variable {d : Dialect} {s : Statement} {ids : List Int64}

theorem nameAfter_eq (d : Dialect) (word name next : String) (rest : List Char)
    (blank : next.toList.head? = some ' ') :
    nameAfter d word (word.toList ++ ((d.quote name).toList ++ (next.toList ++ rest))) =
      some (name, next.toList ++ rest) := by
  have apart : (next.toList ++ rest).head? ≠ some d.quotes.2 := by
    rw [List.head?_append, blank, Option.some_or]
    cases d <;> decide
  rw [nameAfter, following_append, Option.bind_eq_bind, Option.bind_some]
  exact readQuoted_quote d name apart

private theorem mapM_idOf (ids : List Int64) : (ids.map Value.int).mapM idOf? = some ids := by
  induction ids with
  | nil => rfl
  | cons n rest ih =>
      rw [List.map_cons, List.mapM_cons, ih]
      rfl

theorem readIds_eq (values : s.values = ids.map .int) :
    readIds? s (" IN (".toList ++ (", ".intercalate (s.params.map (·.placeholder)) ++ ")").toList) =
      some ids := by
  have spelled : " IN (".toList ++ (", ".intercalate (s.params.map (·.placeholder)) ++ ")").toList =
      (" IN (" ++ ", ".intercalate (s.params.map (·.placeholder)) ++ ")").toList := by
    simp only [String.toList_append, List.append_assoc]
  unfold readIds?
  rw [if_pos spelled, values, mapM_idOf]

theorem readDelete_eq {table column : String}
    (ends : EndsInIds ((Command.delete table column ids).opening d) ids s) :
    readDelete? d s = some (.delete table column ids) := by
  unfold readDelete?
  rw [ends.sql, Command.opening_delete]
  simp only [String.toList_append, List.append_assoc]
  rw [nameAfter_eq d "DELETE FROM " table " WHERE " _ rfl, Option.bind_eq_bind, Option.bind_some]
  dsimp only
  rw [nameAfter_eq d " WHERE " column " IN (" _ rfl, Option.bind_some]
  dsimp only
  rw [← String.toList_append, readIds_eq ends.values]
  rfl

private theorem readDelete_setNull {table column : String}
    (ends : EndsInIds ((Command.setNull table column ids).opening d) ids s) :
    readDelete? d s = none := by
  unfold readDelete? nameAfter following
  rw [ends.sql, Command.opening_setNull]
  simp only [String.toList_append, List.append_assoc]
  rfl

private theorem readSetNull_eq {table column : String}
    (ends : EndsInIds ((Command.setNull table column ids).opening d) ids s) :
    readSetNull? d s = some (.setNull table column ids) := by
  unfold readSetNull?
  rw [ends.sql, Command.opening_setNull]
  simp only [String.toList_append, List.append_assoc]
  rw [nameAfter_eq d "UPDATE " table " SET " _ rfl, Option.bind_eq_bind, Option.bind_some]
  dsimp only
  rw [nameAfter_eq d " SET " column " = NULL WHERE " _ rfl, Option.bind_some]
  dsimp only
  rw [nameAfter_eq d " = NULL WHERE " column " IN (" _ rfl, Option.bind_some]
  dsimp only
  rw [if_pos rfl, ← String.toList_append, readIds_eq ends.values]
  rfl

private theorem readLookUp_eq {table key column : String}
    (ends : EndsInIds (lookUpOpening d table key column) ids s) :
    readLookUp? d s = some (key, table, column, ids) := by
  unfold readLookUp?
  rw [ends.sql, lookUpOpening]
  simp only [String.toList_append, List.append_assoc]
  rw [nameAfter_eq d "SELECT " key " FROM " _ rfl, Option.bind_eq_bind, Option.bind_some]
  dsimp only
  rw [nameAfter_eq d " FROM " table " WHERE " _ rfl, Option.bind_some]
  dsimp only
  rw [nameAfter_eq d " WHERE " column " IN (" _ rfl, Option.bind_some]
  dsimp only
  rw [← String.toList_append, readIds_eq ends.values]
  rfl

/-- The database does what statements say, whatever tables it has. -/
theorem database_interprets (d : Dialect) (has : String → String → Prop) :
    Interprets (database d) id has where
  executes c s w known ends := by
    refine ⟨w.apply c, ?_, rfl⟩
    cases c with
    | delete table column ids =>
        have read : readDelete? d s = some (.delete table column ids) := readDelete_eq ends
        simp [database, read]
    | setNull table column ids =>
        have skipped : readDelete? d s = none := readDelete_setNull ends
        have read : readSetNull? d s = some (.setNull table column ids) := readSetNull_eq ends
        simp [database, skipped, read]
  selects table key column ids s w hasKey hasColumn ends := by
    have read : readLookUp? d s = some (key, table, column, ids) := readLookUp_eq ends
    refine ⟨w, ?_, rfl⟩
    simp [database, read]

end Tables

end EntityStore
