import Mathlib.Data.List.Infix
import EntityStore.Proofs.Schema.Alterations

/-!
The names of foreign keys and of indexes, read back from the statements that make them. The name of a
foreign key is joined from its column, its table and its target, and cut at a fixed length; that of
an index is joined and not cut. So the first always fit, and two keys of a statement may share one;
the second tell the columns of a level apart, and may be too long.
-/

namespace EntityStore

def EntityModel.indexedColumns (level : EntityModel) : List Column :=
  level.ownColumns.filter fun c => c.indexed && !c.primary

def LinkTable.keyColumns (link : LinkTable) : List (String × EntityModel) :=
  [(link.ownerColumn, link.owner), (link.targetColumn, link.target)]

namespace Sql

open Lexeme

variable {d : Dialect}

/-! ### Foreign keys in a statement -/

def Lexeme.name? : Lexeme → Option String
  | .name s => some s
  | _ => none

/-- A foreign key as a statement has it: its name, its column, and where it leads. -/
structure ForeignKey where
  name : String
  column : String
  table : String
  key : String
  deriving DecidableEq

namespace ForeignKey

/-- What a foreign key is spelled with, up to the column that it leads to. A parenthesis may close the
statement as well, so the last one is left out. -/
def lexemes (k : ForeignKey) : List Lexeme :=
  [.word "CONSTRAINT", .name k.name, .word "FOREIGN", .word "KEY", .opening, .name k.column,
    .closing, .word "REFERENCES", .name k.table, .opening, .name k.key]

def spelledBy? (ls : List Lexeme) : Option ForeignKey :=
  match ls.filterMap name? with
  | [constraint, column, table, key] =>
    if ls = lexemes ⟨constraint, column, table, key⟩ then some ⟨constraint, column, table, key⟩
    else none
  | _ => none

theorem spelledBy_eq_some {ls : List Lexeme} {k : ForeignKey} :
    spelledBy? ls = some k ↔ ls = k.lexemes := by
  constructor
  · intro spelled
    unfold spelledBy? at spelled
    split at spelled
    · split_ifs at spelled with same
      cases spelled
      exact same
    · cases spelled
  · rintro rfl
    exact if_pos rfl

def among : List Lexeme → List ForeignKey
  | [] => []
  | l :: rest => (spelledBy? ((l :: rest).take 11)).toList ++ among rest

@[simp]
theorem among_nil : among [] = [] :=
  rfl

theorem among_cons {l : Lexeme} (other : l ≠ .word "CONSTRAINT") (rest : List Lexeme) :
    among (l :: rest) = among rest := by
  have unspelled : spelledBy? ((l :: rest).take 11) = none := by
    refine Option.eq_none_iff_forall_not_mem.2 fun k spelled => other ?_
    exact (List.cons.inj (spelledBy_eq_some.1 spelled)).1
  rw [among, unspelled]
  rfl

theorem among_nameless {ls : List Lexeme} (nameless : ∀ l ∈ ls, ¬ l.IsName) : among ls = [] := by
  induction ls with
  | nil => rfl
  | cons l rest ih =>
      have unspelled : spelledBy? ((l :: rest).take 11) = none := by
        refine Option.eq_none_iff_forall_not_mem.2 fun k spelled => ?_
        have member : Lexeme.name k.name ∈ (l :: rest).take 11 := by
          rw [spelledBy_eq_some.1 spelled]
          simp [lexemes]
        exact nameless _ (List.mem_of_mem_take member) ⟨k.name, rfl⟩
      rw [among, unspelled, ih fun other member => nameless other (List.mem_cons_of_mem l member)]
      rfl

private theorem among_lexemes (k : ForeignKey) (rest : List Lexeme) :
    among (k.lexemes ++ rest) = k :: among rest := by
  have spelled : spelledBy? ((k.lexemes ++ rest).take 11) = some k := spelledBy_eq_some.2 rfl
  have within : among (k.lexemes ++ rest) = k :: among (k.lexemes.tail ++ rest) := by
    show (spelledBy? ((k.lexemes ++ rest).take 11)).toList ++ among (k.lexemes.tail ++ rest) = _
    rw [spelled]
    rfl
  rw [within]
  simp [lexemes, among_cons]

def Halts (ms : List Lexeme) : Prop :=
  ∀ part, part ≠ [] → part <+: ms → ∀ k : ForeignKey, ¬ part <:+ k.lexemes

private theorem spelledBy_halted {ms : List Lexeme} (halts : Halts ms) (ls : List Lexeme) :
    spelledBy? ((ls ++ ms).take 11) = spelledBy? (ls.take 11) := by
  rw [List.take_append]
  -- If anything of the rest is taken, a foreign key would have to end with it.
  by_cases short : ms.take (11 - ls.length) = []
  · rw [short, List.append_nil]
  · have reached : ls.length < 11 := by
      by_contra long
      rw [Nat.sub_eq_zero_of_le (Nat.le_of_not_lt long)] at short
      exact short rfl
    have whole : spelledBy? (ls.take 11 ++ ms.take (11 - ls.length)) = none := by
      refine Option.eq_none_iff_forall_not_mem.2 fun k spelled => ?_
      exact halts _ short (List.take_prefix _ ms) k ⟨_, spelledBy_eq_some.1 spelled⟩
    have cut : spelledBy? (ls.take 11) = none := by
      refine Option.eq_none_iff_forall_not_mem.2 fun k spelled => ?_
      have lengths := congrArg List.length (spelledBy_eq_some.1 spelled)
      rw [List.length_take] at lengths
      exact absurd (lengths.trans (show k.lexemes.length = 11 from rfl)) (by omega)
    rw [whole, cut]

theorem among_halted {ms : List Lexeme} (halts : Halts ms) (ls : List Lexeme) :
    among (ls ++ ms) = among ls ++ among ms := by
  induction ls with
  | nil => rfl
  | cons l rest ih =>
      have first := spelledBy_halted halts (l :: rest)
      rw [List.cons_append] at first
      rw [List.cons_append, among, among, first, ih, List.append_assoc]

private theorem halts_comma (ms : List Lexeme) : Halts (.comma :: ms) := by
  intro part filled begins k ends
  obtain ⟨l, rest, rfl⟩ := List.exists_cons_of_ne_nil filled
  have comma : l = .comma := (List.cons_prefix_cons.1 begins).1
  have member := ends.subset (List.mem_cons_self : l ∈ l :: rest)
  rw [comma] at member
  simp [lexemes] at member

private theorem halts_closing : Halts [.closing] := by
  intro part filled begins k ends
  obtain ⟨l, rest, rfl⟩ := List.exists_cons_of_ne_nil filled
  obtain ⟨rfl, nothing⟩ := List.cons_prefix_cons.1 begins
  rw [List.prefix_nil.1 nothing] at ends
  obtain ⟨before, spelled⟩ := ends
  have last := congrArg List.getLast? spelled
  rw [List.getLast?_concat] at last
  cases last

private theorem among_comma (ls ms : List Lexeme) :
    among (ls ++ .comma :: ms) = among ls ++ among ms := by
  rw [among_halted (halts_comma ms), among_cons (by decide)]

private theorem among_closed (ls : List Lexeme) : among (ls ++ [.closing]) = among ls := by
  rw [among_halted halts_closing]
  exact List.append_nil _

end ForeignKey

open ForeignKey (among among_nil among_cons among_nameless among_lexemes among_comma among_closed)

def foreignKeys (d : Dialect) (sql : String) : List ForeignKey :=
  among (scan d (letters sql))

def Keys (d : Dialect) (text : String) (keys : List ForeignKey) : Prop :=
  ∃ ls, Scans d (letters text) ls ∧ among ls = keys

theorem Keys.read {text : String} {keys : List ForeignKey} (has : Keys d text keys) :
    foreignKeys d text = keys := by
  obtain ⟨ls, scans, found⟩ := has
  rw [foreignKeys, scans.scan_eq, found]

private theorem Keys.whole {text : String} {keys : List ForeignKey} (has : Keys d text keys) :
    Whole d text := by
  obtain ⟨ls, scans, -⟩ := has
  exact whole_of_scans scans

theorem foreignKeys_tableText {table : String} {parts : List String}
    (each : ∀ part ∈ parts, Whole d part) :
    foreignKeys d (tableText d table parts) = parts.flatMap (foreignKeys d) := by
  have heading (ls : List Lexeme) :
      among ([.word "CREATE", .word "TABLE", .name table, .opening] ++ ls) = among ls := by
    simp [among_cons]
  rw [foreignKeys, scan_tableText each, among_closed, heading, read_intercalate rfl among_comma,
    List.flatMap_map]
  rfl

/-! ### The keys of a table -/

def ForeignKey.ofColumn (table : String) (k : String × EntityModel) : ForeignKey :=
  ⟨unmarked (foreignKeyName k.1 table k.2.table), unmarked k.1, unmarked k.2.table,
    unmarked k.2.primaryKey⟩

theorem keys_typed (d : Dialect) (name : String) {rest : String} (bare : BareText d rest) :
    Keys d (unmarked (d.quote name ++ (" " ++ rest))) [] := by
  obtain ⟨ls, nameless, scans⟩ := scans_typed d name bare
  exact ⟨_, scans, (among_cons (by simp) ls).trans (among_nameless nameless)⟩

private theorem keys_columnDefinition {c : Column} {text : String}
    (defines : columnDefinition? d c = some text) : Keys d (unmarked text) [] := by
  obtain ⟨rest, rfl, bare⟩ := columnDefinition_eq defines
  exact keys_typed d c.name bare

theorem keys_foreignKey (d : Dialect) (table : String) (k : String × EntityModel)
    (onDelete : OnDelete) :
    Keys d (unmarked (foreignKey d table k.1 k.2.table k.2.primaryKey onDelete))
      [.ofColumn table k] := by
  obtain ⟨ls, nameless, scans⟩ :=
    scans_foreignKey d table k.1 k.2.table k.2.primaryKey onDelete
  refine ⟨_, scans, ?_⟩
  have rest : among (.closing :: ls) = [] :=
    (among_cons (by decide) ls).trans (among_nameless nameless)
  exact (among_lexemes (.ofColumn table k) (.closing :: ls)).trans (by rw [rest])

/-- The foreign keys of a level's table are its key columns, each named for itself, its table and its
target. -/
theorem foreignKeys_createTable (schema : Schema) (d : Dialect) (level : EntityModel) :
    foreignKeys d (createTable schema d level).sql =
      (level.keyColumns schema).map (ForeignKey.ofColumn level.table) := by
  rw [sql_createTable, foreignKeys_tableText (whole_tableParts schema d level)]
  exact flatMap_tableParts (fun c text defines => (keys_columnDefinition defines).read)
    fun k onDelete => (keys_foreignKey d level.table k onDelete).read

private theorem keys_primaryKey (d : Dialect) (first second : String) :
    Keys d (unmarked ("PRIMARY KEY (" ++ d.quote first ++ ", " ++ d.quote second ++ ")")) [] := by
  have primary : Closes d (letters "PRIMARY KEY (") [.word "PRIMARY", .word "KEY", .opening] := by
    intro rest
    cases d <;> rfl
  have toSecond := ((primary.followed (scans_quote (unmarked first))).closed parts_comma
    (closes_comma d)).followed (scans_quote (unmarked second))
  have whole := (toSecond.closed parts_closing (closes_closing d)).scans
  have opening : MarkFree "PRIMARY KEY (" := by decide
  have comma : MarkFree ", " := by decide
  have closing : MarkFree ")" := by decide
  rw [← letters_append, ← letters_append, ← letters_append, ← letters_append] at whole
  have sent : unmarked ("PRIMARY KEY (" ++ d.quote first ++ ", " ++ d.quote second ++ ")") =
      "PRIMARY KEY (" ++ d.quote (unmarked first) ++ ", " ++ d.quote (unmarked second) ++ ")" := by
    rw [unmarked_append, unmarked_append, unmarked_append, unmarked_append, unmarked_quote,
      unmarked_quote, unmarked_free opening, unmarked_free comma, unmarked_free closing]
  rw [sent]
  exact ⟨_, whole, by simp [among_cons]⟩

private theorem foreignKeys_createLinkTable (d : Dialect) (link : LinkTable) :
    foreignKeys d (createLinkTable d link).sql =
      link.keyColumns.map (ForeignKey.ofColumn link.table) := by
  have keyType : BareText d (d.columnType .bigInt .maxVarChar ++ " NOT NULL") :=
    bareText_append.2 ⟨bareText_columnType d _ _, bareText_fixed (by decide)⟩
  have typed (name : String) :
      Keys d (unmarked (d.quote name ++ " " ++ d.columnType .bigInt .maxVarChar ++ " NOT NULL"))
        [] := by
    have parts : d.quote name ++ " " ++ d.columnType .bigInt .maxVarChar ++ " NOT NULL" =
        d.quote name ++ (" " ++ (d.columnType .bigInt .maxVarChar ++ " NOT NULL")) := by
      simp only [String.append_assoc]
    exact parts ▸ keys_typed d name keyType
  have owner := typed link.ownerColumn
  have target := typed link.targetColumn
  have primary := keys_primaryKey d link.ownerColumn link.targetColumn
  have toOwner := keys_foreignKey d link.table (link.ownerColumn, link.owner) .cascade
  have toTarget := keys_foreignKey d link.table (link.targetColumn, link.target) .cascade
  rw [createLinkTable, sql_plainTemplate, unmarked_tableText, foreignKeys_tableText]
  · simp only [List.map_cons, List.map_nil, List.flatMap_cons, List.flatMap_nil]
    rw [owner.read, target.read, primary.read, toOwner.read, toTarget.read]
    rfl
  · simp only [List.map_cons, List.map_nil, List.forall_mem_cons]
    exact ⟨owner.whole, target.whole, primary.whole, toOwner.whole, toTarget.whole,
      List.forall_mem_nil _⟩

/-! ### Names of foreign keys -/

def joinedName (table : String) (k : String × EntityModel) : String :=
  k.1 ++ "_" ++ (table ++ "_" ++ k.2.table)

/-- How much of the joined names there is room for behind what every name of a foreign key begins
with. -/
def joinedLength : Nat := 60

def keptName (s : String) : List Char :=
  (s.toList.take joinedLength).filter (· ≠ slotMark)

/-- The columns are told apart before either ends or is cut. -/
def Apart (column other : String) : Prop :=
  ¬ keptName (column ++ "_") <+: keptName (other ++ "_")
    ∧ ¬ keptName (other ++ "_") <+: keptName (column ++ "_")

instance (column other : String) : Decidable (Apart column other) :=
  inferInstanceAs (Decidable (_ ∧ _))

/-- Nothing is cut from the name of the foreign key. -/
def Uncut (table : String) (k : String × EntityModel) : Prop :=
  (joinedName table k).length ≤ joinedLength

instance (table : String) (k : String × EntityModel) : Decidable (Uncut table k) :=
  inferInstanceAs (Decidable (_ ≤ _))

/-- The two columns are told apart early, or they lead to one table and nothing is cut. -/
def Distinguished (table : String) (k other : String × EntityModel) : Prop :=
  Apart k.1 other.1
    ∨ (Uncut table k ∧ Uncut table other ∧ k.2.table = other.2.table
      ∧ unmarked k.1 ≠ unmarked other.1)

instance (table : String) (k other : String × EntityModel) :
    Decidable (Distinguished table k other) :=
  inferInstanceAs (Decidable (_ ∨ _))

private theorem unmarked_foreignKeyName (table : String) (k : String × EntityModel) :
    (unmarked (foreignKeyName k.1 table k.2.table)).toList =
      "FK_".toList ++ keptName (joinedName table k) := by
  have joined : "FK_" ++ k.1 ++ "_" ++ table ++ "_" ++ k.2.table = "FK_" ++ joinedName table k := by
    simp only [joinedName, String.append_assoc]
  have room : constraintLength = "FK_".toList.length + joinedLength := by decide
  have opening : "FK_".toList.filter (· ≠ slotMark) = "FK_".toList := by decide
  rw [foreignKeyName, joined, constraintName, unmarked, String.toList_ofList, String.toList_ofList,
    String.toList_append, room, List.take_length_add_append, List.filter_append, opening, keptName]

private theorem length_unmarked_le (s : String) : (unmarked s).length ≤ s.length := by
  rw [unmarked, String.length_ofList, ← String.length_toList]
  exact List.length_filter_le _ _

private theorem length_constraintName_le (name : String) :
    (constraintName name).length ≤ constraintLength := by
  rw [constraintName, String.length_ofList]
  exact List.length_take_le _ _

private theorem length_foreignKeyName_le (table : String) (k : String × EntityModel) :
    (ForeignKey.ofColumn table k).name.length ≤ constraintLength :=
  Nat.le_trans (length_unmarked_le _) (length_constraintName_le _)

theorem ofColumn_name_eq {table : String} {k other : String × EntityModel} :
    (ForeignKey.ofColumn table k).name = (ForeignKey.ofColumn table other).name ↔
      keptName (joinedName table k) = keptName (joinedName table other) := by
  rw [← String.toList_inj, ForeignKey.ofColumn, ForeignKey.ofColumn, unmarked_foreignKeyName,
    unmarked_foreignKeyName, List.append_right_inj]

private theorem keptName_column (table : String) (k : String × EntityModel) :
    keptName (k.1 ++ "_") <+: keptName (joinedName table k) := by
  have begins : (k.1 ++ "_").toList <+: (joinedName table k).toList :=
    ⟨(table ++ "_" ++ k.2.table).toList, String.toList_append.symm⟩
  exact (begins.take joinedLength).filter _

private theorem keptName_long {s : String} (long : joinedLength ≤ s.length) (t : String) :
    keptName (s ++ t) = keptName s := by
  have room : joinedLength ≤ s.toList.length := String.length_toList ▸ long
  rw [keptName, String.toList_append, List.take_append_of_le_length room, keptName]

private theorem ofColumn_name_cut {s : String} (long : joinedLength ≤ s.length)
    (table more others : String)
    (target other : EntityModel) :
    (ForeignKey.ofColumn table (s ++ more, target)).name =
      (ForeignKey.ofColumn table (s ++ others, other)).name := by
  rw [ofColumn_name_eq, joinedName, joinedName]
  simp only [String.append_assoc]
  rw [keptName_long long, keptName_long long]

theorem keptName_uncut {table : String} {k : String × EntityModel} (uncut : Uncut table k) :
    keptName (joinedName table k) =
      (unmarked k.1).toList ++ "_".toList
        ++ ((unmarked table).toList ++ "_".toList ++ (unmarked k.2.table).toList) := by
  have whole : keptName (joinedName table k) = (unmarked (joinedName table k)).toList := by
    rw [keptName, List.take_of_length_le (String.length_toList ▸ uncut), unmarked,
      String.toList_ofList]
  have bar : MarkFree "_" := by decide
  rw [whole, joinedName]
  simp only [unmarked_append, unmarked_free bar, String.toList_append]

private theorem distinguished_ne {table : String} {k other : String × EntityModel}
    (distinguished : Distinguished table k other) :
    keptName (joinedName table k) ≠ keptName (joinedName table other) := by
  intro same
  -- Both columns begin what is kept, so one of them would begin the other.
  rcases distinguished with ⟨first, second⟩ | ⟨uncut, others, target, columns⟩
  · have begins := keptName_column table k
    rw [same] at begins
    exact (List.prefix_or_prefix_of_prefix begins (keptName_column table other)).elim first second
  · rw [keptName_uncut uncut, keptName_uncut others, target] at same
    exact columns (String.toList_inj.1 (by simpa using same))

/-- What is so of the foreign keys of a statement that makes a table. -/
structure KeyNames (d : Dialect) (table : String) (keys : List (String × EntityModel))
    (sql : String) : Prop where
  read : foreignKeys d sql = keys.map (ForeignKey.ofColumn table)
  fit : ∀ key ∈ foreignKeys d sql, key.name.length ≤ constraintLength
  shared : ((foreignKeys d sql).map ForeignKey.name).Nodup ↔
    (keys.map fun k => keptName (joinedName table k)).Nodup
  distinct : keys.Pairwise (Distinguished table) →
    ((foreignKeys d sql).map ForeignKey.name).Nodup

private theorem keyNames_of_read {table sql : String} {keys : List (String × EntityModel)}
    (read : foreignKeys d sql = keys.map (ForeignKey.ofColumn table)) :
    KeyNames d table keys sql := by
  have shared : ((foreignKeys d sql).map ForeignKey.name).Nodup ↔
      (keys.map fun k => keptName (joinedName table k)).Nodup := by
    rw [read, List.map_map, List.Nodup, List.Nodup, List.pairwise_map, List.pairwise_map]
    exact List.Pairwise.iff fun k other => not_congr ofColumn_name_eq
  refine ⟨read, ?_, shared, fun distinguished => shared.2 ?_⟩
  · rw [read]
    intro key member
    obtain ⟨k, -, rfl⟩ := List.mem_map.1 member
    exact length_foreignKeyName_le table k
  · rw [List.Nodup, List.pairwise_map]
    exact distinguished.imp distinguished_ne

/-- The two columns of a link table are told apart, as long as nothing is cut. -/
theorem distinct_between {table field : String} {owner target : EntityModel}
    (tables : owner.table = target.table ∨ unmarked owner.table ≠ unmarked target.table)
    (uncut : ∀ k ∈ (LinkTable.between table field owner target).keyColumns, Uncut table k) :
    ((LinkTable.between table field owner target).keyColumns.map fun k =>
      keptName (joinedName table k)).Nodup := by
  obtain ⟨first, second, -⟩ := List.forall_mem_cons.1 uncut |>.imp_right List.forall_mem_cons.1
  have id : MarkFree "_id" := by decide
  have targetId : MarkFree "_target_id" := by decide
  rw [LinkTable.keyColumns, List.map_cons, List.map_singleton, List.nodup_cons,
    List.mem_singleton]
  refine ⟨fun same => ?_, List.nodup_singleton _⟩
  rw [keptName_uncut first, keptName_uncut second] at same
  have lengths := congrArg List.length same
  simp only [LinkTable.between, unmarked_append, unmarked_free id, String.toList_append,
    List.length_append] at lengths
  by_cases alike : owner.table = target.table
  · rw [if_pos alike, unmarked_append, unmarked_free targetId, String.toList_append,
      List.length_append, alike] at lengths
    simp at lengths
  · rw [if_neg alike, unmarked_append, unmarked_free id, String.toList_append,
      List.length_append] at lengths
    have even : (unmarked owner.table).toList.length = (unmarked target.table).toList.length := by
      omega
    simp only [LinkTable.between, if_neg alike, unmarked_append, String.toList_append,
      List.append_assoc] at same
    exact tables.resolve_left alike (String.toList_inj.1 (List.append_inj_left same even))

/-! ### Names of indexes -/

def indexName? (d : Dialect) (sql : String) : Option String :=
  match (scan d (letters sql)).dropWhile (· ≠ .word "INDEX") with
  | _ :: .name index :: _ => some index
  | _ => none

def indexNames (d : Dialect) (level : EntityModel) : List (Option String) :=
  (createIndexes d level).map fun t => indexName? d t.sql

theorem unmarked_indexName (table column : String) :
    unmarked (Dialect.indexName table column) =
      Dialect.indexName (unmarked table) (unmarked column) := by
  have opening : MarkFree "IX_" := by decide
  have bar : MarkFree "_" := by decide
  simp only [Dialect.indexName, unmarked_append, unmarked_free opening, unmarked_free bar]

private theorem unmarked_createIndex (d : Dialect) (table column : String) (unique : Bool) :
    unmarked (d.createIndex table column unique) =
      d.createIndex (unmarked table) (unmarked column) unique := by
  have create : MarkFree "CREATE " := by decide
  have kind : MarkFree (if unique then "UNIQUE " else "") := by cases unique <;> decide
  have index : MarkFree "INDEX " := by decide
  have on : MarkFree " ON " := by decide
  have opening : MarkFree " (" := by decide
  have closing : MarkFree ")" := by decide
  unfold Dialect.createIndex
  rw [unmarked_append, unmarked_append, unmarked_append, unmarked_append, unmarked_append,
    unmarked_append, unmarked_append, unmarked_append, unmarked_quote, unmarked_quote,
    unmarked_quote, unmarked_indexName, unmarked_free create, unmarked_free kind,
    unmarked_free index, unmarked_free on, unmarked_free opening, unmarked_free closing]

private theorem indexName_createIndex (d : Dialect) (table column : String) (unique : Bool) :
    indexName? d (d.createIndex table column unique) = some (Dialect.indexName table column) := by
  rw [indexName?, scan_createIndex]
  cases unique <;> rfl

theorem indexNames_eq (d : Dialect) (level : EntityModel) :
    indexNames d level = level.indexedColumns.map fun c =>
      some (unmarked (Dialect.indexName level.table c.name)) := by
  have named (c : Column) : indexName? d (plainTemplate d
      (d.createIndex level.table c.name c.unique)).sql =
      some (unmarked (Dialect.indexName level.table c.name)) := by
    rw [sql_plainTemplate, unmarked_createIndex, indexName_createIndex, unmarked_indexName]
  simp only [indexNames, createIndexes, List.map_map, Function.comp_def, named]
  rfl

theorem length_indexName (table column : String) :
    (unmarked (Dialect.indexName table column)).length =
      (unmarked table).length + (unmarked column).length + 4 := by
  have opening : "IX_".length = 3 := rfl
  have bar : "_".length = 1 := rfl
  rw [unmarked_indexName, Dialect.indexName, String.length_append, String.length_append,
    String.length_append, opening, bar]
  omega

/-- What is so of the indexes of a level. -/
structure IndexNames (d : Dialect) (level : EntityModel) : Prop where
  read : indexNames d level = level.indexedColumns.map fun c =>
    some (unmarked (Dialect.indexName level.table c.name))
  distinct : (level.ownColumns.map fun c => unmarked c.name).Nodup → (indexNames d level).Nodup
  fit : (∀ name, some name ∈ indexNames d level → name.length ≤ constraintLength) ↔
    ∀ c ∈ level.indexedColumns,
      (unmarked level.table).length + (unmarked c.name).length + 4 ≤ constraintLength

private theorem indexNames_of_level (d : Dialect) (level : EntityModel) : IndexNames d level := by
  have read := indexNames_eq d level
  refine ⟨read, fun columns => ?_, ?_⟩
  · have indexed : (level.indexedColumns.map fun c => unmarked c.name).Nodup :=
      columns.sublist (List.filter_sublist.map _)
    rw [List.Nodup, List.pairwise_map] at indexed
    rw [read, List.Nodup, List.pairwise_map]
    refine indexed.imp fun {c other} differ same => differ ?_
    rw [Option.some.injEq, unmarked_indexName, unmarked_indexName] at same
    exact (String.append_right_inj _).1 same
  · rw [read]
    constructor
    · intro fits c member
      rw [← length_indexName]
      exact fits _ (List.mem_map_of_mem member)
    · intro room name member
      obtain ⟨c, indexed, spelled⟩ := List.mem_map.1 member
      rw [← Option.some.inj spelled, length_indexName]
      exact room c indexed

/-! ### Main results -/

/-- The foreign keys of a level's table and those of a link table fit always, and share a name exactly
where what is kept of their joined names is the same; so keys whose columns are told apart early do
not, and neither do the two keys of a link table from which nothing is cut. The indexes of a level
have names of their own, which fit only where the table and the column leave room. -/
theorem constraints_and_indexes_named (schema : Schema) (d : Dialect) (level : EntityModel)
    (link : LinkTable) :
    KeyNames d level.table (level.keyColumns schema) (createTable schema d level).sql
      ∧ KeyNames d link.table link.keyColumns (createLinkTable d link).sql
      ∧ (∀ table field owner target,
        owner.table = target.table ∨ unmarked owner.table ≠ unmarked target.table →
        (∀ k ∈ (LinkTable.between table field owner target).keyColumns, Uncut table k) →
        ((foreignKeys d (createLinkTable d (.between table field owner target)).sql).map
          ForeignKey.name).Nodup)
      ∧ IndexNames d level := by
  have ofLink (link : LinkTable) :
      KeyNames d link.table link.keyColumns (createLinkTable d link).sql :=
    keyNames_of_read (foreignKeys_createLinkTable d link)
  refine ⟨keyNames_of_read (foreignKeys_createTable schema d level), ofLink link, ?_,
    indexNames_of_level d level⟩
  intro table field owner target tables uncut
  exact (ofLink (.between table field owner target)).shared.2 (distinct_between tables uncut)

namespace Parcels

def item : EntityModel where
  own := ⟨"Item", "item", "id", [.generatedKey "id"]⟩

def orderItem : EntityModel where
  own := ⟨"OrderItem", "order_item", "id", [.generatedKey "id"]⟩

def person : EntityModel where
  own := ⟨"Person", "person", "id", [.generatedKey "id"]⟩

def schema : Schema where
  model ref :=
    if ref.name = "Item" then item else if ref.name = "OrderItem" then orderItem else person

def parcel : EntityModel where
  own := ⟨"Parcel", "parcel", "id", [.generatedKey "id",
    .relation "packer_id" "packer" ⟨"Person"⟩ .setNull,
    .relation "sender_id" "sender" ⟨"Person"⟩ .cascade,
    { Column.scalar "weight" .float with indexed := true }]⟩

def order : EntityModel where
  own := ⟨"Order", "order", "id", [.generatedKey "id",
    .relation "ship" "ship" ⟨"OrderItem"⟩ .noAction,
    .relation "ship_order" "shipOrder" ⟨"Item"⟩ .noAction]⟩

def signer : String := "person_who_has_signed_for_the_receipt_of_this_or_an_earlier_delivery_"

def delivery : EntityModel where
  own := ⟨"Delivery", "delivery", "id", [.generatedKey "id",
    { Column.relation (signer ++ "first") "first" ⟨"Person"⟩ .noAction with indexed := true },
    .relation (signer ++ "last") "last" ⟨"Person"⟩ .noAction]⟩

end Parcels

open Parcels in
theorem parcel_names_distinct :
    (parcel.keyColumns schema).Pairwise (Distinguished "parcel")
      ∧ ((foreignKeys .postgres (createTable schema .postgres parcel).sql).map
        ForeignKey.name).Nodup := by
  have apart : (parcel.keyColumns schema).Pairwise (Distinguished "parcel") := by decide
  obtain ⟨keys, -⟩ := constraints_and_indexes_named schema .postgres parcel
    (.between "parcel_person" "readers" parcel person)
  exact ⟨apart, keys.distinct apart⟩

open Parcels in
/-- The columns of these tables have distinct names. Yet two foreign keys share a name, be it that the
joined names are the same or that they are cut, and the name of an index is too long. -/
theorem names_shared_and_too_long :
    (order.ownColumns.map Column.name).Nodup ∧ (delivery.ownColumns.map Column.name).Nodup
      ∧ ¬ ((foreignKeys .postgres (createTable schema .postgres order).sql).map
        ForeignKey.name).Nodup
      ∧ ¬ ((foreignKeys .postgres (createTable schema .postgres delivery).sql).map
        ForeignKey.name).Nodup
      ∧ ∃ name, some name ∈ indexNames .postgres delivery ∧ constraintLength < name.length := by
  have long : joinedLength ≤ signer.length := by decide
  refine ⟨by decide, by decide +kernel, ?_, ?_, ?_⟩
  · rw [foreignKeys_createTable]
    decide +kernel
  · have keys : delivery.keyColumns schema =
        [(signer ++ "first", person), (signer ++ "last", person)] := rfl
    rw [foreignKeys_createTable, keys]
    intro distinct
    exact (List.nodup_cons.1 distinct).1
      (List.mem_singleton.2 (ofColumn_name_cut long "delivery" "first" "last" person person))
  · have free : MarkFree signer := by decide
    refine ⟨unmarked (Dialect.indexName "delivery" (signer ++ "first")), ?_, ?_⟩
    · rw [indexNames_eq]
      exact List.mem_cons_self
    · rw [length_indexName, unmarked_append, unmarked_free free, String.length_append]
      decide

end Sql

end EntityStore
