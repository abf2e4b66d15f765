import EntityStore.Proofs.Removal.Reader
import EntityStore.Proofs.Storing.Contents

/-!
Reading changes from statements. The text of a statement that puts rows in, sets columns or removes
rows reads back as the change that it tells, with the values of its parameters.
-/

namespace EntityStore

namespace Change

open Sql Tables

variable {d : Dialect} {q : Statement}

def readNames (d : Dialect) : Nat → List Char → Option (List String × List Char)
  | 0, _ => none
  | fuel + 1, cs => do
    let (name, rest) ← readQuoted d cs
    match following ", ".toList rest with
    | some rest =>
      let (names, rest) ← readNames d fuel rest
      return (name :: names, rest)
    | none => return ([name], rest)

def readInsert? (d : Dialect) (q : Statement) : Option Change := do
  let (table, rest) ← nameAfter d "INSERT INTO " q.sql.toList
  let rest ← following " (".toList rest
  let (columns, rest) ← readNames d q.params.length rest
  let groups := chunksOf columns.length q.params
  if rest = (") VALUES " ++ ", ".intercalate (groups.map placeholderRow)).toList then
    return .insert none table columns (groups.map (·.map (·.value)))
  else none

def readSets (d : Dialect) : List BoundParam → List Char →
    Option (List (String × Value) × List BoundParam × List Char)
  | [], _ => none
  | p :: params, cs => do
    let (column, rest) ← readQuoted d cs
    let rest ← following (" = " ++ p.placeholder).toList rest
    match following ", ".toList rest with
    | some rest =>
      let (sets, params, rest) ← readSets d params rest
      return ((column, p.value) :: sets, params, rest)
    | none => return ([(column, p.value)], params, rest)

def readUpdate? (d : Dialect) (q : Statement) : Option Change := do
  let (table, rest) ← nameAfter d "UPDATE " q.sql.toList
  let rest ← following " SET ".toList rest
  let (set, params, rest) ← readSets d q.params rest
  let (key, rest) ← nameAfter d " WHERE " rest
  return .update table set key (← readIds? ⟨"", params⟩ rest)

def read? (d : Dialect) (q : Statement) : Option Change :=
  readInsert? d q <|> readUpdate? d q <|>
    match readDelete? d q with
    | some (.delete table column ids) => some (.delete table column ids)
    | _ => none

/-! ### Lists of names and of columns that are set -/

theorem following_other {word rest : List Char} {w c : Char} (first : word.head? = some w)
    (starts : rest.head? = some c) (different : w ≠ c) : following word rest = none := by
  cases word with
  | nil => cases first
  | cons w' word =>
      cases rest with
      | nil => cases starts
      | cons c' rest =>
          cases first
          cases starts
          rw [following, if_neg different]

theorem apart_of_head {rest : List Char} (c : Char) (plain : c ∈ [',', ')', ' '])
    (starts : rest.head? = some c) : rest.head? ≠ some d.quotes.2 := by
  rw [starts]
  rcases List.mem_cons.1 plain with rfl | plain
  · cases d <;> decide
  · rcases List.mem_cons.1 plain with rfl | plain
    · cases d <;> decide
    · rw [List.mem_singleton.1 plain]
      cases d <;> decide

private theorem readNames_eq {columns : List String} (filled : columns ≠ []) {fuel : Nat}
    (enough : columns.length ≤ fuel) {rest : List Char} (closes : rest.head? = some ')') :
    readNames d fuel ((quotedList d columns).toList ++ rest) = some (columns, rest) := by
  induction columns generalizing fuel with
  | nil => exact (filled rfl).elim
  | cons column others ih =>
      obtain ⟨fuel, rfl⟩ := Nat.exists_eq_add_of_lt (Nat.lt_of_lt_of_le (Nat.succ_pos _) enough)
      rw [Nat.zero_add]
      cases others with
      | nil =>
          have single : quotedList d [column] = d.quote column := String.intercalate_singleton
          rw [single, readNames, readQuoted_quote d column (apart_of_head ')' (by decide) closes),
            Option.bind_eq_bind, Option.bind_some]
          dsimp only
          rw [following_other rfl closes (by decide)]
          rfl
      | cons next others =>
          have spelled : (quotedList d (column :: next :: others)).toList ++ rest =
              (d.quote column).toList ++
                (", ".toList ++ ((quotedList d (next :: others)).toList ++ rest)) := by
            have parts : quotedList d (column :: next :: others) =
                d.quote column ++ ", " ++ quotedList d (next :: others) :=
              String.intercalate_cons_cons
            rw [parts]
            simp only [String.toList_append, List.append_assoc]
          have later := ih (List.cons_ne_nil _ _) (Nat.le_of_succ_le_succ (Nat.zero_add _ ▸ enough))
          rw [spelled, readNames, readQuoted_quote d column (apart_of_head ',' (by decide) rfl),
            Option.bind_eq_bind, Option.bind_some]
          dsimp only
          rw [following_append]
          dsimp only
          rw [later]
          rfl

/-- A column that is set reads back, and then those behind it if a comma follows. -/
theorem readSets_cons (column : String) (p : BoundParam) (params : List BoundParam)
    (rest : List Char) :
    readSets d (p :: params) ((placeholderAssignment d column p).toList ++ rest) =
      match following ", ".toList rest with
      | some rest => (readSets d params rest).map fun (sets, params, rest) =>
          ((column, p.value) :: sets, params, rest)
      | none => some ([(column, p.value)], params, rest) := by
  have spelled : (placeholderAssignment d column p).toList ++ rest =
      (d.quote column).toList ++ ((" = " ++ p.placeholder).toList ++ rest) := by
    unfold placeholderAssignment
    simp only [String.toList_append, List.append_assoc]
  have blank : ((" = " ++ p.placeholder).toList ++ rest).head? = some ' ' := by
    rw [String.toList_append]
    rfl
  rw [spelled, readSets, readQuoted_quote d column (apart_of_head ' ' (by decide) blank),
    Option.bind_eq_bind, Option.bind_some]
  dsimp only
  rw [following_append, Option.bind_eq_bind, Option.bind_some]
  cases following ", ".toList rest with
  | none => rfl
  | some rest =>
      dsimp only
      cases readSets d params rest <;> rfl

private theorem readSets_eq {set : List (String × Value)} {sets keys : List BoundParam}
    (filled : set ≠ [])
    (valued : sets.map (·.value) = set.map (·.2)) {rest : List Char}
    (blank : rest.head? = some ' ') :
    readSets d (sets ++ keys) ((", ".intercalate (List.zipWith (placeholderAssignment d)
        (set.map (·.1)) sets)).toList ++ rest) = some (set, keys, rest) := by
  induction set generalizing sets with
  | nil => exact (filled rfl).elim
  | cons c others ih =>
      obtain ⟨column, value⟩ := c
      cases sets with
      | nil => cases valued
      | cons p sets =>
          rw [List.map_cons, List.map_cons, List.cons.injEq] at valued
          obtain ⟨rfl, valued⟩ := valued
          cases others with
          | nil =>
              obtain rfl : sets = [] := List.map_eq_nil_iff.1 valued
              show readSets d (p :: keys)
                ((", ".intercalate [placeholderAssignment d column p]).toList ++ rest) = _
              rw [String.intercalate_singleton, readSets_cons, following_other rfl blank
                (by decide)]
          | cons next others =>
              cases sets with
              | nil => cases valued
              | cons p' sets =>
                  have later := ih (List.cons_ne_nil _ _) valued
                  have spelled : (", ".intercalate (List.zipWith (placeholderAssignment d)
                      (((column, p.value) :: next :: others).map (·.1)) (p :: p' :: sets))).toList
                        ++ rest = (placeholderAssignment d column p).toList ++ (", ".toList ++
                          ((", ".intercalate (List.zipWith (placeholderAssignment d)
                            ((next :: others).map (·.1)) (p' :: sets))).toList ++ rest)) := by
                    rw [List.map_cons, List.map_cons, List.zipWith_cons_cons,
                      List.zipWith_cons_cons,
                      String.intercalate_cons_cons]
                    simp only [String.toList_append, List.append_assoc]
                  rw [spelled, List.cons_append, readSets_cons, following_append]
                  dsimp only
                  rw [later]
                  rfl

/-! ### Statements read back -/

private theorem chunksOf_flatten {α : Type} {width : Nat} (positive : 0 < width)
    {groups : List (List α)}
    (even : ∀ group ∈ groups, group.length = width) : chunksOf width groups.flatten = groups := by
  induction groups with
  | nil => rw [List.flatten_nil, chunksOf]
  | cons group rest ih =>
      obtain ⟨first, others⟩ := List.forall_mem_cons.1 even
      cases group with
      | nil => exact absurd first (Nat.ne_of_lt positive)
      | cons a as =>
          have exact : as.length = width - 1 := by
            rw [List.length_cons] at first
            omega
          rw [List.flatten_cons, List.cons_append, chunksOf, ← exact, List.take_left,
            List.drop_left,
            ih others]

private theorem readInsert_eq {table : String} {columns : List String} {rows : List (List Value)}
    (tells : InsertsRows d table columns rows q)
    (full : Full (.insert none table columns rows)) :
    readInsert? d q = some (.insert none table columns rows) := by
  obtain ⟨-, named, filled, even⟩ := full
  obtain ⟨groups, params, valued, sql⟩ := tells.text
  have widths (group : List BoundParam) (member : group ∈ groups) :
      group.length = columns.length := by
    have row : group.map (·.value) ∈ rows := valued ▸ List.mem_map_of_mem member
    rw [← even _ row, List.length_map]
  have positive : 0 < columns.length := List.length_pos_of_ne_nil named
  have enough : columns.length ≤ q.params.length := by
    cases groups with
    | nil => exact (filled valued.symm).elim
    | cons group rest =>
        rw [params, List.flatten_cons, List.length_append, widths group List.mem_cons_self]
        exact Nat.le_add_right _ _
  have text : q.sql.toList = "INSERT INTO ".toList ++ ((d.quote table).toList ++ (" (".toList ++
      ((quotedList d columns).toList ++
        (") VALUES " ++ ", ".intercalate (groups.map placeholderRow)).toList))) := by
    rw [sql]
    simp only [String.toList_append, List.append_assoc]
  have closes : (") VALUES " ++ ", ".intercalate (groups.map placeholderRow)).toList.head? =
      some ')' := by
    rw [String.toList_append]
    rfl
  unfold readInsert?
  rw [text, nameAfter_eq d "INSERT INTO " table " (" _ rfl, Option.bind_eq_bind, Option.bind_some]
  dsimp only
  rw [following_append, Option.bind_eq_bind, Option.bind_some, readNames_eq named enough closes,
    Option.bind_eq_bind, Option.bind_some]
  dsimp only
  rw [params, chunksOf_flatten positive widths, if_pos rfl, valued]
  rfl

private theorem readUpdate_eq {table key : String} {set : List (String × Value)} {ids : List Int64}
    (tells : UpdatesRows d table set key ids q) (full : set ≠ []) :
    readUpdate? d q = some (.update table set key ids) := by
  obtain ⟨sets, keys, params, assigned, valued, sql⟩ := tells.text
  have text : q.sql.toList = "UPDATE ".toList ++ ((d.quote table).toList ++ (" SET ".toList ++
      ((", ".intercalate (List.zipWith (placeholderAssignment d) (set.map (·.1)) sets)).toList ++
        (" WHERE ".toList ++ ((d.quote key).toList ++
          (" IN (".toList ++ (placeholderList keys ++ ")").toList)))))) := by
    rw [sql]
    simp only [String.toList_append, List.append_assoc]
  unfold readUpdate?
  rw [text, nameAfter_eq d "UPDATE " table " SET " _ rfl, Option.bind_eq_bind, Option.bind_some]
  dsimp only
  rw [following_append, Option.bind_eq_bind, Option.bind_some, params,
    readSets_eq full assigned rfl,
    Option.bind_eq_bind, Option.bind_some]
  dsimp only
  rw [nameAfter_eq d " WHERE " key " IN (" _ rfl, Option.bind_some]
  dsimp only
  have read :
      readIds? ⟨"", keys⟩ (" IN (".toList ++ (placeholderList keys ++ ")").toList) = some ids :=
    readIds_eq (s := ⟨"", keys⟩) valued
  rw [read]
  rfl

theorem read_eq {c : Change} (tells : c.Tells d q) (full : c.Full) : read? d q = some c := by
  cases c with
  | insert numbering? table columns rows =>
      obtain rfl := full.1
      rw [read?, readInsert_eq tells full]
      rfl
  | update table set key ids =>
      have skipped : readInsert? d q = none := by
        obtain ⟨sets, keys, -, -, -, sql⟩ := tells.text
        unfold readInsert? nameAfter following
        rw [sql]
        simp only [String.toList_append, List.append_assoc]
        rfl
      rw [read?, skipped, readUpdate_eq tells full]
      rfl
  | delete table column ids =>
      have skipped : readInsert? d q = none := by
        unfold readInsert? nameAfter following
        rw [tells.sql]
        simp only [String.toList_append, List.append_assoc]
        rfl
      have passed : readUpdate? d q = none := by
        unfold readUpdate? nameAfter following
        rw [tells.sql]
        simp only [String.toList_append, List.append_assoc]
        rfl
      rw [read?, skipped, passed, readDelete_eq tells]
      rfl

end Change

end EntityStore
