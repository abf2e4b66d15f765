import EntityStore.Proofs.Sql.Unambiguity
import EntityStore.Sql.Definition

/-!
Statements that make tables, read as lexemes: the table that a statement makes, the tables that its
foreign keys name, and the table that a statement removes. Names stand between quotes, so a name
that looks like a clause is not taken for one. What is sent is a text less the characters that mark
slots, so the names in it are read without them.
-/

namespace EntityStore

def EntityModel.relationTargets (schema : Schema) (level : EntityModel) : List EntityModel :=
  (level.ownColumns.filterMap Column.target?).map schema.model

/-- The models whose tables the foreign keys of a level's table name: the level above, and those
that relations lead to. -/
def EntityModel.keyTargets (schema : Schema) (level : EntityModel) : List EntityModel :=
  level.parent?.toList ++ level.relationTargets schema

def EntityModel.keyColumns (schema : Schema) (level : EntityModel) : List (String × EntityModel) :=
  (level.parent?.map fun parent => (level.primaryKey, parent)).toList
    ++ level.ownColumns.filterMap fun c => c.target?.map fun target => (c.name, schema.model target)

private theorem EntityModel.keyTargets_eq (schema : Schema) (level : EntityModel) :
    level.keyTargets schema = (level.keyColumns schema).map Prod.snd := by
  have above : level.parent?.toList =
      (level.parent?.map fun parent => (level.primaryKey, parent)).toList.map Prod.snd := by
    cases level.parent? <;> rfl
  rw [keyTargets, keyColumns, relationTargets, List.map_append, ← above, List.map_filterMap,
    List.map_filterMap]
  simp only [Option.map_map, Function.comp_def]

namespace Sql

open Lexeme

variable {d : Dialect}

/-! ### Texts as they are sent -/

def unmarked (s : String) : String :=
  String.ofList (s.toList.filter (· ≠ slotMark))

theorem unmarked_append (s t : String) : unmarked (s ++ t) = unmarked s ++ unmarked t := by
  unfold unmarked
  rw [String.toList_append, List.filter_append, String.ofList_append]

theorem unmarked_free {s : String} (free : MarkFree s) : unmarked s = s := by
  have kept : s.toList.filter (· ≠ slotMark) = s.toList :=
    List.filter_eq_self.2 fun c member => decide_eq_true fun same => free (same ▸ member)
  rw [unmarked, kept, String.ofList_toList]

private theorem filter_doubled {quote : Char} {p : Char → Bool} (kept : p quote = true)
    (cs : List Char) :
    (doubled quote cs).filter p = doubled quote (cs.filter p) := by
  induction cs with
  | nil => rfl
  | cons c rest ih =>
      by_cases same : c = quote
      · subst same
        rw [doubled, if_pos rfl, List.filter_cons_of_pos kept, List.filter_cons_of_pos kept, ih,
          List.filter_cons_of_pos kept, doubled, if_pos rfl]
      · rw [doubled, if_neg same, List.filter_cons, List.filter_cons, ih]
        split
        · rw [doubled, if_neg same]
        · rfl

theorem unmarked_quote (d : Dialect) (name : String) :
    unmarked (d.quote name) = d.quote (unmarked name) := by
  have opening : decide (d.quotes.1 ≠ slotMark) = true := by
    cases d <;> decide
  have closing : decide (d.quotes.2 ≠ slotMark) = true := by
    cases d <;> decide
  have inner := filter_doubled (p := fun c => decide (c ≠ slotMark)) closing name.toList
  unfold unmarked Dialect.quote
  simp only [String.toList_ofList, List.cons_append, List.filter_append, List.filter_cons, opening,
    closing, inner, if_true, List.filter_nil]

private theorem unmarked_intercalate {separator : String} (free : MarkFree separator)
    (parts : List String) :
    unmarked (separator.intercalate parts) = separator.intercalate (parts.map unmarked) := by
  induction parts with
  | nil => exact unmarked_free List.not_mem_nil
  | cons part rest ih =>
      cases rest with
      | nil => rw [List.map_singleton, String.intercalate_singleton, String.intercalate_singleton]
      | cons next rest =>
          rw [List.map_cons, List.map_cons, String.intercalate_cons_cons,
            String.intercalate_cons_cons, unmarked_append, unmarked_append, unmarked_free free, ih,
            List.map_cons]

theorem sql_plainTemplate (d : Dialect) (sql : String) :
    (plainTemplate d sql).sql = unmarked sql := by
  have text : Template.fill (pieces 0 (sql.toList ++ [])) [] = unmarked sql := by
    rw [pieces, fill_unslotted, flatten_splitMarks, List.append_nil, unmarked]
  exact text

/-! ### Tables that a statement names -/

/-- The names that follow the word before a foreign key's table; `after` says whether it has just
been read. -/
def namedTables : Bool → List Lexeme → List String
  | _, [] => []
  | after, .name table :: rest =>
    if after then table :: namedTables false rest else namedTables false rest
  | _, l :: rest => namedTables (l = .word "REFERENCES") rest

def referencedTables (d : Dialect) (sql : String) : List String :=
  namedTables false (scan d (letters sql))

def madeTable? (d : Dialect) (sql : String) : Option String :=
  match scan d (letters sql) with
  | .word "CREATE" :: .word "TABLE" :: .name table :: _ => some table
  | _ => none

def droppedTable? (d : Dialect) (sql : String) : Option String :=
  match (scan d (letters sql)).splitAt 4 with
  | (words, [.name table]) =>
    if words = ["DROP", "TABLE", "IF", "EXISTS"].map .word then some table else none
  | _ => none

def Lexeme.IsName (l : Lexeme) : Prop :=
  ∃ name, l = .name name

theorem namedTables_cons {l : Lexeme} (nameless : ¬ l.IsName) (after : Bool) (rest : List Lexeme) :
    namedTables after (l :: rest) = namedTables (l = .word "REFERENCES") rest := by
  cases l with
  | name table => exact absurd ⟨table, rfl⟩ nameless
  | _ => rfl

theorem namedTables_nameless {ls : List Lexeme} (nameless : ∀ l ∈ ls, ¬ l.IsName) (after : Bool) :
    namedTables after ls = [] := by
  induction ls generalizing after with
  | nil => rfl
  | cons l rest ih =>
      rw [namedTables_cons (nameless l List.mem_cons_self)]
      exact ih (fun other member => nameless other (List.mem_cons_of_mem l member)) _

/-- What neither is a name nor announces one parts what stands before it from what follows. -/
theorem namedTables_parted {l : Lexeme} (nameless : ¬ l.IsName) (other : l ≠ .word "REFERENCES")
    (after : Bool) (ls ms : List Lexeme) :
    namedTables after (ls ++ l :: ms) = namedTables after ls ++ namedTables false ms := by
  induction ls generalizing after with
  | nil =>
      rw [List.nil_append, namedTables_cons nameless, decide_eq_false other]
      rfl
  | cons first rest ih =>
      cases first with
      | name table =>
          rw [List.cons_append, namedTables, namedTables, ih]
          split
          · rfl
          · rfl
      | _ => exact ih _

private theorem namedTables_comma (ls ms : List Lexeme) :
    namedTables false (ls ++ .comma :: ms) = namedTables false ls ++ namedTables false ms :=
  namedTables_parted (by simp [IsName]) (by decide) false ls ms

private theorem namedTables_closed (ls : List Lexeme) :
    namedTables false (ls ++ [.closing]) = namedTables false ls :=
  (namedTables_parted (by simp [IsName]) (by decide) false ls []).trans (List.append_nil _)

/-! ### Fixed texts and names -/

def Bare (d : Dialect) (c : Char) : Prop :=
  c ≠ '\'' ∧ c ≠ slotMark ∧ c ≠ d.quotes.1

instance (d : Dialect) (c : Char) : Decidable (Bare d c) :=
  inferInstanceAs (Decidable (_ ∧ _ ∧ _))

def Lexeme.Mode.IsOpen : Mode → Prop
  | .between | .word _ | .sign _ => True
  | _ => False

def ReadsOn (read : List Lexeme × Mode) : Prop :=
  (∀ l ∈ read.1, ¬ l.IsName) ∧ read.2.IsOpen

theorem readsOn_begun {mode : Mode} (isOpen : mode.IsOpen) : ReadsOn ([], mode) :=
  ⟨List.forall_mem_nil _, isOpen⟩

private theorem readsOn_one {l : Lexeme} (nameless : ¬ l.IsName) : ReadsOn ([l], .between) :=
  ⟨List.forall_mem_singleton.2 nameless, trivial⟩

private theorem ReadsOn.after {l : Lexeme} (nameless : ¬ l.IsName) {read : List Lexeme × Mode}
    (readsOn : ReadsOn read) : ReadsOn (l :: read.1, read.2) :=
  ⟨List.forall_mem_cons.2 ⟨nameless, readsOn.1⟩, readsOn.2⟩

private theorem start_bare {c : Char} (bare : Bare d c) : ReadsOn (start d c) := by
  obtain ⟨apostrophe, mark, quote⟩ := bare
  unfold start
  rw [if_neg apostrophe, if_neg mark, if_neg quote]
  -- A blank, four marks that stand for themselves, a word, a sign, and whatever is left.
  refine iteInduction (fun _ => readsOn_begun trivial) fun _ => ?_
  refine iteInduction (fun _ => readsOn_one (by simp [IsName])) fun _ => ?_
  refine iteInduction (fun _ => readsOn_one (by simp [IsName])) fun _ => ?_
  refine iteInduction (fun _ => readsOn_one (by simp [IsName])) fun _ => ?_
  refine iteInduction (fun _ => readsOn_one (by simp [IsName])) fun _ => ?_
  refine iteInduction (fun _ => readsOn_begun trivial) fun _ => ?_
  exact iteInduction (fun _ => readsOn_begun trivial) fun _ => readsOn_one (by simp [IsName])

private theorem next_bare {c : Char} (bare : Bare d c) {mode : Mode} (isOpen : mode.IsOpen) :
    ReadsOn (next d mode (.char c)) := by
  cases mode with
  | between => exact start_bare bare
  | word read =>
      exact iteInduction (fun _ => readsOn_begun trivial) fun _ =>
        (start_bare bare).after (by simp [IsName])
  | sign read =>
      exact iteInduction (fun _ => readsOn_begun trivial) fun _ =>
        (start_bare bare).after (by simp [IsName])
  | inside | ended | slot => cases isOpen

private theorem scanFrom_open {mode : Mode} (isOpen : mode.IsOpen) :
    ∃ ls, (∀ l ∈ ls, ¬ l.IsName) ∧
      ∀ rest, Parted rest → scanFrom d mode rest = ls ++ scan d rest := by
  cases mode with
  | between => exact ⟨[], List.forall_mem_nil _, fun _ _ => rfl⟩
  | word read =>
      exact ⟨[_], by simp [IsName], fun rest parted => scanFrom_word_parted parted read⟩
  | sign read =>
      refine ⟨finish (.sign read), by simp [finish, IsName], fun rest parted => ?_⟩
      refine scanFrom_parted parted ?_
      rintro c (rfl | rfl | rfl) <;> cases d <;> rfl
  | inside | ended | slot => cases isOpen

/-- Text of such characters has lexemes of its own, none of which is a name. -/
theorem scans_bare {cs : List Char} (bare : ∀ c ∈ cs, Bare d c) :
    ∃ ls, (∀ l ∈ ls, ¬ l.IsName) ∧ Scans d (symbols cs) ls := by
  -- What has been begun may go on into the text, so the induction is over all open modes.
  have any (mode : Mode) (isOpen : mode.IsOpen) : ∃ ls, (∀ l ∈ ls, ¬ l.IsName) ∧
      ∀ rest, Parted rest → scanFrom d mode (symbols cs ++ rest) = ls ++ scan d rest := by
    induction cs generalizing mode with
    | nil => exact scanFrom_open isOpen
    | cons c cs ih =>
        obtain ⟨nameless, stays⟩ := next_bare (bare c List.mem_cons_self) isOpen
        obtain ⟨ls, others, scanned⟩ :=
          ih (fun other member => bare other (List.mem_cons_of_mem c member)) _ stays
        refine ⟨(next d mode (.char c)).1 ++ ls, ?_, fun rest parted => ?_⟩
        · intro l member
          exact (List.mem_append.1 member).elim (nameless l) (others l)
        · rw [List.append_assoc, ← scanned rest parted]
          rfl
  exact any .between trivial

def Whole (d : Dialect) (text : String) : Prop :=
  Scans d (letters text) (scan d (letters text))

theorem whole_of_scans {text : String} {ls : List Lexeme} (scans : Scans d (letters text) ls) :
    Whole d text := by
  rw [Whole, scans.scan_eq]
  exact scans

/-- The text is scanned by itself, and its foreign keys name these tables. -/
def Names (d : Dialect) (text : String) (tables : List String) : Prop :=
  ∃ ls, Scans d (letters text) ls ∧ namedTables false ls = tables

/-- Parts with commas between them are scanned one by one. -/
theorem scans_intercalate {parts : List String} (each : ∀ part ∈ parts, Whole d part) :
    Scans d (letters (", ".intercalate parts))
      (List.intercalate [.comma] (parts.map fun part => scan d (letters part))) := by
  induction parts with
  | nil => exact closes_nil.scans
  | cons part rest ih =>
      have first := each part List.mem_cons_self
      cases rest with
      | nil =>
          rw [String.intercalate_singleton, List.map_singleton, List.intercalate_singleton]
          exact first
      | cons next rest =>
          have others := ih fun other member => each other (List.mem_cons_of_mem part member)
          rw [String.intercalate_cons_cons, letters_append, letters_append, List.map_cons,
            List.map_cons, List.intercalate_cons_cons]
          exact (first.closed parts_comma (closes_comma d)).followed others

theorem read_intercalate {α : Type} {read : List Lexeme → List α} (none : read [] = [])
    (parted : ∀ ls ms, read (ls ++ .comma :: ms) = read ls ++ read ms) (parts : List (List Lexeme)) :
    read (List.intercalate [.comma] parts) = parts.flatMap read := by
  induction parts with
  | nil => exact none
  | cons part rest ih =>
      cases rest with
      | nil => rw [List.intercalate_singleton, List.flatMap_singleton]
      | cons next rest =>
          rw [List.intercalate_cons_cons, List.append_assoc, List.singleton_append, parted, ih]
          rfl

/-! ### The parts of a table -/

def BareText (d : Dialect) (s : String) : Prop :=
  ∀ c ∈ s.toList, Bare d c

theorem bareText_append {s t : String} : BareText d (s ++ t) ↔ BareText d s ∧ BareText d t := by
  unfold BareText
  rw [String.toList_append, List.forall_mem_append]

def isBare (c : Char) : Bool :=
  c ≠ '\'' && c ≠ slotMark && c ∉ ['"', '[', Dialect.backquote]

theorem bareText_fixed {s : String} (each : s.toList.all isBare = true) : BareText d s := by
  intro c member
  have bare := List.all_eq_true.1 each c member
  simp only [isBare, Bool.and_eq_true, decide_eq_true_eq] at bare
  obtain ⟨⟨apostrophe, mark⟩, quote⟩ := bare
  refine ⟨apostrophe, mark, fun same => quote ?_⟩
  rw [same]
  cases d <;> decide

private theorem bareText_decimal (n : Nat) : BareText d (decimal n) := by
  refine bareText_fixed (List.all_eq_true.2 fun c member => ?_)
  rw [decimal, String.toList_ofList] at member
  have digit := isDigit_of_mem_digits member
  simp only [isBare, Bool.and_eq_true, decide_eq_true_eq]
  refine ⟨⟨?_, ?_⟩, ?_⟩
  · rintro rfl
    exact absurd digit (by decide)
  · rintro rfl
    exact absurd digit (by decide)
  · intro quote
    simp only [List.mem_cons, List.not_mem_nil, or_false] at quote
    rcases quote with rfl | rfl | rfl <;> exact absurd digit (by decide)

private theorem bareText_boundedText {typeName : String} (bare : BareText d typeName)
    (size : TextSize) :
    BareText d (Dialect.boundedText typeName size) := by
  have opening : BareText d "(" := bareText_fixed (by decide)
  have closing : BareText d ")" := bareText_fixed (by decide)
  cases size <;>
    exact bareText_append.2 ⟨bareText_append.2 ⟨bareText_append.2 ⟨bare, opening⟩,
      bareText_decimal _⟩, closing⟩

private theorem bareText_textType (d : Dialect) (size : TextSize) :
    BareText d (d.columnType .text size) := by
  have bounded (typeName : String) (bare : BareText d typeName) (size : TextSize) :
      BareText d (Dialect.boundedText typeName size) := bareText_boundedText bare size
  cases d with
  | sqlite => exact bareText_fixed (show "TEXT".toList.all isBare = true by decide)
  | generic =>
      cases size with
      | bounded | maxVarChar => exact bounded "varchar" (bareText_fixed (by decide)) _
      | text | mediumText | longText => exact bareText_fixed (by decide)
  | postgres =>
      cases size with
      | bounded | maxVarChar => exact bounded "varchar" (bareText_fixed (by decide)) _
      | text | mediumText | longText => exact bareText_fixed (by decide)
  | mssql =>
      cases size with
      | bounded | maxVarChar => exact bounded "nvarchar" (bareText_fixed (by decide)) _
      | text | mediumText | longText => exact bareText_fixed (by decide)

theorem bareText_columnType (d : Dialect) (type : SqlType) (size : TextSize) :
    BareText d (d.columnType type size) := by
  by_cases text : type = .text
  · rw [text]
    exact bareText_textType d size
  · -- Only texts have sizes, so what is left is a fixed word.
    have unsized : d.columnType type size = d.columnType type .maxVarChar := by
      cases type with
      | text => exact absurd rfl text
      | _ => cases d <;> rfl
    rw [unsized]
    exact bareText_fixed (by cases d <;> cases type <;> decide)

private theorem bareText_generatedKey (d : Dialect) (c : Column) : BareText d (d.generatedKey c) := by
  cases d with
  | generic =>
      exact bareText_append.2 ⟨bareText_columnType .generic _ _, bareText_fixed (by decide)⟩
  | postgres =>
      refine bareText_append.2 ⟨?_, bareText_fixed (by decide)⟩
      split <;> exact bareText_fixed (by decide)
  | sqlite =>
      have fixed : BareText .sqlite "INTEGER PRIMARY KEY AUTOINCREMENT" :=
        bareText_fixed (by decide)
      exact fixed
  | mssql => exact bareText_append.2 ⟨bareText_columnType .mssql _ _, bareText_fixed (by decide)⟩

/-- A column is written as its name and what a dialect says of its type. -/
theorem columnDefinition_eq {c : Column} {text : String}
    (defines : columnDefinition? d c = some text) :
    ∃ rest, text = d.quote c.name ++ (" " ++ rest) ∧ BareText d rest := by
  obtain ⟨type, -, rfl⟩ := Option.map_eq_some_iff.1 defines
  split
  · exact ⟨_, String.append_assoc .., bareText_generatedKey d c⟩
  · refine ⟨d.columnType type c.size ++ ((if c.primary then " PRIMARY KEY" else "")
        ++ ((if c.nullable then "" else " NOT NULL")
          ++ (if c.unique && !c.primary then " UNIQUE" else ""))), ?_, ?_⟩
    · simp only [String.append_assoc]
    · refine bareText_append.2 ⟨bareText_columnType d type c.size, bareText_append.2 ⟨?_,
        bareText_append.2 ⟨?_, ?_⟩⟩⟩
      · split <;> exact bareText_fixed (by decide)
      · split <;> exact bareText_fixed (by decide)
      · split <;> exact bareText_fixed (by decide)

theorem parts_bare {rest : String} : Parts (letters (" " ++ rest)) := by
  refine parts_blank ?_
  rw [String.toList_append]
  rfl

theorem BareText.markFree {s : String} (bare : BareText d s) : MarkFree s :=
  fun member => (bare slotMark member).2.1 rfl

theorem scans_typed (d : Dialect) (name : String) {rest : String} (bare : BareText d rest) :
    ∃ ls, (∀ l ∈ ls, ¬ l.IsName) ∧
      Scans d (letters (unmarked (d.quote name ++ (" " ++ rest)))) (.name (unmarked name) :: ls) := by
  have blank : BareText d " " := bareText_fixed (by decide)
  have spelled : BareText d (" " ++ rest) := bareText_append.2 ⟨blank, bare⟩
  obtain ⟨ls, nameless, scans⟩ := scans_bare spelled
  refine ⟨ls, nameless, ?_⟩
  rw [unmarked_append, unmarked_quote, unmarked_free spelled.markFree, letters_append]
  exact (scans_quote _).followed parts_bare scans

theorem names_columnDefinition {c : Column} {text : String}
    (defines : columnDefinition? d c = some text) : Names d (unmarked text) [] := by
  obtain ⟨rest, rfl, bare⟩ := columnDefinition_eq defines
  obtain ⟨ls, nameless, scans⟩ := scans_typed d c.name bare
  exact ⟨_, scans, namedTables_nameless nameless false⟩

/-- A foreign key is written with the name of its constraint, its column, and the table and the column
that it leads to. -/
theorem scans_foreignKey (d : Dialect) (table column targetTable targetColumn : String)
    (onDelete : OnDelete) :
    ∃ ls, (∀ l ∈ ls, ¬ l.IsName) ∧
      Scans d (letters (unmarked (foreignKey d table column targetTable targetColumn onDelete)))
        ([.word "CONSTRAINT", .name (unmarked (foreignKeyName column table targetTable)),
          .word "FOREIGN", .word "KEY", .opening, .name (unmarked column), .closing,
          .word "REFERENCES", .name (unmarked targetTable), .opening,
          .name (unmarked targetColumn), .closing] ++ ls) := by
  have action :
      BareText d (if onDelete = .noAction then "" else " ON DELETE " ++ onDelete.sql) := by
    cases onDelete <;> exact bareText_fixed (by decide)
  obtain ⟨ls, nameless, scans⟩ := scans_bare action
  have constraint : Closes d (letters "CONSTRAINT ") [.word "CONSTRAINT"] := by
    intro rest
    cases d <;> rfl
  have key : Closes d (letters " FOREIGN KEY (") [.word "FOREIGN", .word "KEY", .opening] := by
    intro rest
    cases d <;> rfl
  have references : Closes d (letters ") REFERENCES ") [.closing, .word "REFERENCES"] := by
    intro rest
    cases d <;> rfl
  have target : Closes d (letters " (") [.opening] := by
    intro rest
    cases d <;> rfl
  have enclosed : Parts (letters ") REFERENCES ") :=
    ⟨by simp [letters, symbols], by simp [Parted, letters, symbols]⟩
  have toColumn :=
    (((constraint.followed
      (scans_quote (unmarked (foreignKeyName column table targetTable)))).closed
      (parts_blank rfl) key).followed (scans_quote (unmarked column))).closed enclosed references
  have toTable :=
    (toColumn.followed (scans_quote (unmarked targetTable))).closed (parts_blank rfl) target
  have whole := ((toTable.followed (scans_quote (unmarked targetColumn))).closed parts_closing
    (closes_closing d)).followed scans
  refine ⟨ls, nameless, ?_⟩
  unfold foreignKey
  simp only [unmarked_append, unmarked_quote, unmarked_free action.markFree, letters_append]
  exact whole

theorem names_foreignKey (d : Dialect) (table column targetTable targetColumn : String)
    (onDelete : OnDelete) :
    Names d (unmarked (foreignKey d table column targetTable targetColumn onDelete))
      [unmarked targetTable] := by
  obtain ⟨ls, nameless, scans⟩ :=
    scans_foreignKey d table column targetTable targetColumn onDelete
  exact ⟨_, scans, by simp [namedTables, namedTables_nameless nameless]⟩

/-! ### Whole statements -/

theorem unmarked_tableText (d : Dialect) (table : String) (parts : List String) :
    unmarked (tableText d table parts) = tableText d (unmarked table) (parts.map unmarked) := by
  have create : MarkFree "CREATE TABLE " := by decide
  have opening : MarkFree " (" := by decide
  have closing : MarkFree ")" := by decide
  have comma : MarkFree ", " := by decide
  unfold tableText
  simp only [unmarked_append, unmarked_quote, unmarked_free create, unmarked_free opening,
    unmarked_free closing, unmarked_intercalate comma]

theorem closes_tableText (d : Dialect) (table : String) :
    Closes d (letters ("CREATE TABLE " ++ d.quote table ++ " ("))
      [.word "CREATE", .word "TABLE", .name table, .opening] := by
  have create : Closes d (letters "CREATE TABLE ") [.word "CREATE", .word "TABLE"] := by
    intro rest
    cases d <;> rfl
  have opening : Closes d (letters " (") [.opening] := by
    intro rest
    cases d <;> rfl
  rw [letters_append, letters_append]
  exact (create.followed (scans_quote table)).closed (parts_blank rfl) opening

theorem madeTable_tableText (d : Dialect) (table : String) (parts : List String) :
    madeTable? d (tableText d table parts) = some table := by
  unfold madeTable? tableText
  rw [String.append_assoc, letters_append, closes_tableText]
  rfl

theorem droppedTable_dropTable (d : Dialect) (table : String) :
    droppedTable? d (plainTemplate d (d.dropTable table)).sql = some (unmarked table) := by
  have drop : Closes d (letters "DROP TABLE IF EXISTS ")
      [.word "DROP", .word "TABLE", .word "IF", .word "EXISTS"] := by
    intro rest
    cases d <;> rfl
  have free : MarkFree "DROP TABLE IF EXISTS " := by decide
  have sent : unmarked (d.dropTable table) = "DROP TABLE IF EXISTS " ++ d.quote (unmarked table) :=
    (unmarked_append _ _).trans (congrArg₂ (· ++ ·) (unmarked_free free) (unmarked_quote d table))
  have read := (drop.followed (scans_quote (unmarked table))).scan_eq
  rw [sql_plainTemplate, sent, droppedTable?, letters_append, read]
  exact if_pos rfl

theorem scan_tableText {table : String} {parts : List String}
    (each : ∀ part ∈ parts, Whole d part) :
    scan d (letters (tableText d table parts)) =
      [.word "CREATE", .word "TABLE", .name table, .opening]
        ++ List.intercalate [.comma] (parts.map fun part => scan d (letters part)) ++ [.closing] := by
  have inside := (closes_tableText d table).followed (scans_intercalate each)
  have whole := (inside.closed parts_closing (closes_closing d)).scans.scan_eq
  unfold tableText
  rw [letters_append, letters_append, whole]

private theorem Names.read {text : String} {tables : List String} (names : Names d text tables) :
    referencedTables d text = tables := by
  obtain ⟨ls, scans, named⟩ := names
  rw [referencedTables, scans.scan_eq, named]

private theorem Names.whole {text : String} {tables : List String} (names : Names d text tables) :
    Whole d text := by
  obtain ⟨ls, scans, -⟩ := names
  exact whole_of_scans scans

private theorem referencedTables_tableText {table : String} {parts : List String}
    (each : ∀ part ∈ parts, Whole d part) :
    referencedTables d (tableText d table parts) = parts.flatMap (referencedTables d) := by
  have parted : namedTables false
      (List.intercalate [.comma] (parts.map fun part => scan d (letters part))) =
      parts.flatMap (referencedTables d) := by
    rw [read_intercalate rfl namedTables_comma, List.flatMap_map]
    rfl
  rw [referencedTables, scan_tableText each, namedTables_closed]
  exact parted

/-! ### Tables of levels -/

def tableParts (schema : Schema) (d : Dialect) (level : EntityModel) : List String :=
  level.ownColumns.filterMap (columnDefinition? d) ++ (parentKey? d level).toList
    ++ level.ownColumns.filterMap (relationKey? schema d level.table)

theorem sql_createTable (schema : Schema) (d : Dialect) (level : EntityModel) :
    (createTable schema d level).sql =
      tableText d (unmarked level.table) ((tableParts schema d level).map unmarked) := by
  rw [createTable, sql_plainTemplate, unmarked_tableText, tableParts]

theorem madeTable_createTable (schema : Schema) (d : Dialect) (level : EntityModel) :
    madeTable? d (createTable schema d level).sql = some (unmarked level.table) := by
  rw [sql_createTable, madeTable_tableText]

theorem relationKey_cases (schema : Schema) (d : Dialect) (table : String) {c : Column}
    (physical : c.isPhysical = true) :
    c.target? = none ∧ relationKey? schema d table c = none ∨
      ∃ target onDelete, c.target? = some target ∧ relationKey? schema d table c =
        some (foreignKey d table c.name (schema.model target).table
          (schema.model target).primaryKey onDelete) := by
  unfold Column.target? relationKey?
  cases kind : c.kind with
  | scalar type size => exact Or.inl ⟨rfl, rfl⟩
  | relation field target onDelete => exact Or.inr ⟨target, onDelete, rfl, rfl⟩
  | many target link =>
      rw [Column.isPhysical, kind] at physical
      cases physical

/-- What is read from no column and from each foreign key is read from the foreign keys of a level's
table, one by one. -/
theorem flatMap_tableParts {α : Type} {read : String → List α} {ofKey : String × EntityModel → α}
    {schema : Schema} {level : EntityModel}
    (column : ∀ c text, columnDefinition? d c = some text → read (unmarked text) = [])
    (key : ∀ (k : String × EntityModel) onDelete, read (unmarked
      (foreignKey d level.table k.1 k.2.table k.2.primaryKey onDelete)) = [ofKey k]) :
    ((tableParts schema d level).map unmarked).flatMap read =
      (level.keyColumns schema).map ofKey := by
  have columns :
      ((level.ownColumns.filterMap (columnDefinition? d)).map unmarked).flatMap read = [] := by
    refine List.flatMap_eq_nil_iff.2 fun part member => ?_
    obtain ⟨text, defined, rfl⟩ := List.mem_map.1 member
    obtain ⟨c, -, defines⟩ := List.mem_filterMap.1 defined
    exact column c text defines
  have parent : ((parentKey? d level).toList.map unmarked).flatMap read =
      (level.parent?.map fun parent => (level.primaryKey, parent)).toList.map ofKey := by
    unfold parentKey?
    cases level.parent? with
    | none => rfl
    | some parent => exact (List.flatMap_singleton _ _).trans (key (level.primaryKey, parent) .cascade)
  have relation (c : Column) (own : c ∈ level.ownColumns) :
      ((relationKey? schema d level.table c).toList.map unmarked).flatMap read =
        (c.target?.map fun target => (c.name, schema.model target)).toList.map ofKey := by
    rcases relationKey_cases schema d level.table (List.mem_filter.1 own).2 with
      ⟨nowhere, none⟩ | ⟨target, onDelete, leads, written⟩
    · rw [nowhere, none]
      rfl
    · rw [leads, written]
      exact (List.flatMap_singleton _ _).trans (key (c.name, schema.model target) onDelete)
  rw [tableParts, EntityModel.keyColumns, List.map_append, List.map_append, List.map_append,
    List.flatMap_append, List.flatMap_append, columns, parent, List.nil_append,
    List.filterMap_eq_flatMap_toList, List.filterMap_eq_flatMap_toList, List.map_flatMap,
    List.map_flatMap, List.flatMap_assoc, List.flatMap_congr relation]

/-- Each part of a level's table is scanned by itself. -/
theorem whole_tableParts (schema : Schema) (d : Dialect) (level : EntityModel) :
    ∀ part ∈ (tableParts schema d level).map unmarked, Whole d part := by
  intro part member
  obtain ⟨text, written, rfl⟩ := List.mem_map.1 member
  rcases List.mem_append.1 written with first | related
  · rcases List.mem_append.1 first with defined | above
    · obtain ⟨c, -, defines⟩ := List.mem_filterMap.1 defined
      exact (names_columnDefinition defines).whole
    · obtain ⟨parent, -, rfl⟩ := Option.map_eq_some_iff.1 (Option.mem_toList.1 above)
      exact (names_foreignKey d _ _ _ _ _).whole
  · obtain ⟨c, own, keyed⟩ := List.mem_filterMap.1 related
    rcases relationKey_cases schema d level.table (List.mem_filter.1 own).2 with
      ⟨-, none⟩ | ⟨target, onDelete, -, spelled⟩
    · cases none.symm.trans keyed
    · cases spelled.symm.trans keyed
      exact (names_foreignKey d _ _ _ _ _).whole

/-- The foreign keys of a level's table name the tables of the level above and of the targets of its
relations, and no other. -/
theorem referencedTables_createTable (schema : Schema) (d : Dialect) (level : EntityModel) :
    referencedTables d (createTable schema d level).sql =
      (level.keyTargets schema).map fun target => unmarked target.table := by
  rw [sql_createTable, referencedTables_tableText (whole_tableParts schema d level),
    level.keyTargets_eq, List.map_map]
  exact flatMap_tableParts (fun c text defines => (names_columnDefinition defines).read)
    fun k onDelete => (names_foreignKey d level.table k.1 k.2.table k.2.primaryKey onDelete).read

end Sql

end EntityStore
