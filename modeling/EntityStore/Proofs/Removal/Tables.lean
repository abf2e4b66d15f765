import EntityStore.Sql.Mutation

/-!
Tables as lists of rows, and what statements that remove rows or empty columns make of them. Each
such statement looks at one row at a time, so what becomes of a row under many of them is said row
by row: it goes if one of them removes it, and else loses the columns that some of them empty.
-/

namespace EntityStore

abbrev Cells := String → Value

abbrev Tables := String → List Cells

namespace Tables

def idOf? : Value → Option Int64
  | .int n => some n
  | _ => none

theorem idOf_eq_some {value : Value} {n : Int64} : idOf? value = some n ↔ value = .int n := by
  cases value <;> simp [idOf?]

def holds (ids : List Int64) : Value → Bool
  | .int n => ids.contains n
  | _ => false

def emptied (r : Cells) (column : String) : Cells :=
  fun other => if other = column then .null else r other

inductive Command
  | delete (table column : String) (ids : List Int64)
  | setNull (table column : String) (ids : List Int64)

namespace Command

def table : Command → String
  | delete table .. | setNull table .. => table

def column : Command → String
  | delete _ column _ | setNull _ column _ => column

def ids : Command → List Int64
  | delete _ _ ids | setNull _ _ ids => ids

def opening (d : Sql.Dialect) : Command → String
  | delete table column _ =>
    "DELETE FROM " ++ d.quote table ++ " WHERE " ++ d.quote column ++ " IN ("
  | setNull table column _ =>
    "UPDATE " ++ d.quote table ++ " SET " ++ d.quote column ++ " = NULL WHERE " ++ d.quote column
      ++ " IN ("

theorem opening_delete (d : Sql.Dialect) (table column : String) (ids : List Int64) :
    (delete table column ids).opening d =
      "DELETE FROM " ++ d.quote table ++ " WHERE " ++ d.quote column ++ " IN (" :=
  rfl

theorem opening_setNull (d : Sql.Dialect) (table column : String) (ids : List Int64) :
    (setNull table column ids).opening d =
      "UPDATE " ++ d.quote table ++ " SET " ++ d.quote column ++ " = NULL WHERE " ++ d.quote column
        ++ " IN (" :=
  rfl

def template (d : Sql.Dialect) : Command → Sql.Template
  | delete table column ids => Sql.delete d table column ids
  | setNull table column ids => Sql.setNull d table column ids

def meets (c : Command) (table : String) (r : Cells) : Bool :=
  c.table == table && holds c.ids (r c.column)

def onRow (c : Command) (table : String) (r : Cells) : Option Cells :=
  if c.meets table r then
    match c with
    | delete .. => none
    | setNull _ column _ => some (emptied r column)
  else some r

end Command

def apply (D : Tables) (c : Command) : Tables :=
  fun table => (D table).filterMap (c.onRow table)

def lookUpOpening (d : Sql.Dialect) (table key column : String) : String :=
  "SELECT " ++ d.quote key ++ " FROM " ++ d.quote table ++ " WHERE " ++ d.quote column ++ " IN ("

def touched (D : Tables) (c : Command) : Nat :=
  (D c.table).countP (c.meets c.table)

def selected (D : Tables) (table column : String) (ids : List Int64) : List Cells :=
  (D table).filter fun r => holds ids (r column)

def run (D : Tables) (made : List Command) : Tables :=
  made.foldl apply D

@[simp]
theorem run_nil (D : Tables) : D.run [] = D :=
  rfl

@[simp]
theorem run_cons (D : Tables) (c : Command) (made : List Command) :
    D.run (c :: made) = (D.apply c).run made :=
  rfl

theorem run_append (D : Tables) (made more : List Command) :
    D.run (made ++ more) = (D.run made).run more :=
  List.foldl_append

theorem holds_iff {ids : List Int64} {value : Value} :
    holds ids value = true ↔ ∃ n ∈ ids, value = .int n := by
  cases value with
  | int n => simp [holds]
  | _ => simp [holds]

theorem holds_int {ids : List Int64} {n : Int64} : holds ids (.int n) = true ↔ n ∈ ids := by
  simp [holds]

theorem touched_delete (D : Tables) (table column : String) (ids : List Int64) :
    D.touched (.delete table column ids) = (D table).countP fun r => holds ids (r column) := by
  refine List.countP_congr fun r _ => ?_
  simp [Command.meets, Command.table, Command.ids, Command.column]

/-! ### The fate of a row -/

def fate (made : List Command) (table : String) (r : Cells) : Option Cells :=
  match made with
  | [] => some r
  | c :: rest => (c.onRow table r).bind (fate rest table)

theorem run_table (D : Tables) (made : List Command) (table : String) :
    D.run made table = (D table).filterMap (fate made table) := by
  induction made generalizing D with
  | nil =>
      rw [run_nil]
      exact List.filterMap_some.symm
  | cons c rest ih =>
      rw [run_cons, ih, apply, List.filterMap_filterMap]
      rfl

def Command.removes (table : String) (r : Cells) : Command → Bool
  | delete other column ids => other == table && holds ids (r column)
  | setNull .. => false

def Command.empties (table column : String) (r : Cells) : Command → Bool
  | delete .. => false
  | setNull other emptiedColumn ids =>
    other == table && emptiedColumn == column && holds ids (r column)

/-- No column by which rows are removed is ever emptied. -/
def Apart (made : List Command) : Prop :=
  ∀ table column ids ids', .delete table column ids ∈ made → .setNull table column ids' ∉ made

def remaining (made : List Command) (table : String) (r : Cells) : Cells :=
  fun column => if made.any (Command.empties table column r) then .null else r column

private theorem Apart.tail {c : Command} {made : List Command} (apart : Apart (c :: made)) :
    Apart made := by
  intro table column ids ids' removed emptied
  exact apart table column ids ids' (List.mem_cons_of_mem c removed)
    (List.mem_cons_of_mem c emptied)

private theorem removes_emptied {table column : String} {ids : List Int64} {made : List Command}
    (apart : Apart (.setNull table column ids :: made)) (r : Cells) :
    made.any (Command.removes table (emptied r column)) = made.any (Command.removes table r) := by
  rw [Bool.eq_iff_iff, List.any_eq_true, List.any_eq_true]
  refine exists_congr fun c => and_congr_right fun member => ?_
  rw [← Bool.eq_iff_iff]
  cases c with
  | setNull other emptiedColumn ids' => rfl
  | delete other removed ids' =>
      by_cases here : other = table
      · have different : removed ≠ column := by
          intro same
          subst here same
          exact apart _ _ ids' ids (List.mem_cons_of_mem _ member) List.mem_cons_self
        simp [Command.removes, emptied, different]
      · have elsewhere : (other == table) = false := beq_false_of_ne here
        simp [Command.removes, elsewhere]

private theorem remaining_emptied {table column : String} {ids : List Int64} (made : List Command)
    {r : Cells} (held : holds ids (r column) = true) :
    remaining made table (emptied r column) =
      remaining (.setNull table column ids :: made) table r := by
  funext other
  by_cases same : other = column
  · subst same
    have gone : emptied r other other = .null := if_pos rfl
    simp [remaining, Command.empties, gone, held]
  · have kept : emptied r column other = r other := if_neg same
    have later : Command.empties table other (emptied r column) =
        Command.empties table other r := by
      funext c
      cases c <;> simp [Command.empties, kept]
    have first : Command.empties table other r (.setNull table column ids) = false := by
      simp [Command.empties, Ne.symm same]
    unfold remaining
    rw [kept, later, List.any_cons, first, Bool.false_or]

/-- A row goes if a command removes it, and else loses the columns that commands empty. -/
theorem fate_eq {made : List Command} (apart : Apart made) (table : String) (r : Cells) :
    fate made table r =
      if made.any (Command.removes table r) then none else some (remaining made table r) := by
  induction made generalizing r with
  | nil => rfl
  | cons c rest ih =>
      rw [fate, List.any_cons]
      have rest_eq := ih apart.tail
      cases c with
      | delete other column ids =>
          have unemptied : remaining (.delete other column ids :: rest) table r =
              remaining rest table r := rfl
          rw [unemptied]
          cases hit : Command.removes table r (.delete other column ids) with
          | true =>
              have met : (Command.delete other column ids).meets table r = true := hit
              rw [Command.onRow, if_pos met]
              rfl
          | false =>
              have unmet : (Command.delete other column ids).meets table r = false := hit
              rw [Command.onRow, unmet, Bool.false_or]
              exact rest_eq r
      | setNull other column ids =>
          have never : Command.removes table r (.setNull other column ids) = false := rfl
          rw [never, Bool.false_or]
          cases met : (Command.setNull other column ids).meets table r with
          | true =>
              obtain ⟨here, found⟩ := Bool.and_eq_true_iff.1 met
              have same : other = table := eq_of_beq here
              have held : holds ids (r column) = true := found
              subst same
              rw [Command.onRow, if_pos met, Option.bind_some, rest_eq, removes_emptied apart,
                ← remaining_emptied rest held]
          | false =>
              have unchanged : remaining (.setNull other column ids :: rest) table r =
                  remaining rest table r := by
                funext asked
                have first : Command.empties table asked r (.setNull other column ids) = false := by
                  by_cases same : column = asked
                  · subst same
                    simpa [Command.empties, Command.meets, Command.table, Command.column,
                      Command.ids] using met
                  · simp [Command.empties, same]
                unfold remaining
                rw [List.any_cons, first, Bool.false_or]
              rw [Command.onRow, met, unchanged]
              exact rest_eq r

end Tables

end EntityStore
