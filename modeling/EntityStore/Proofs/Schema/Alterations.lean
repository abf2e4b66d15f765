import EntityStore.Proofs.Schema.Definitions

/-!
Names in statements that alter a schema. A statement is scanned by the rules of its dialect and read
back: it gives the table, the column and the new name that it was made for, and nothing in a name ends
it early. The procedure that renames by names between apostrophes takes them as they are, so it is
read back only where they have no apostrophe and are not themselves a path.
-/

namespace EntityStore.Sql

open Lexeme

/-- One change of a schema. What follows the name of a new column is its type, in some form. -/
inductive Alteration (α : Type)
  | renameTable (table newName : String)
  | dropTable (table : String)
  | addColumn (table column : String) (type : α)
  | dropColumn (table column : String)
  | renameColumn (table column newName : String)
  | createIndex (table column : String) (unique : Bool)
  deriving DecidableEq

/-! ### Names by a path -/

inductive PathMode
  | start
  | plain (read : List Char)
  | inside (read : List Char)
  | ended (read : List Char)

/-- The names of a path. They are parted by dots, and one in brackets may hold any character. -/
def pathFrom : PathMode → List Char → Option (List String)
  | .start, [] => some [""]
  | .start, c :: rest =>
    if c = '[' then pathFrom (.inside []) rest
    else if c = '.' then (pathFrom .start rest).map ("" :: ·)
    else pathFrom (.plain [c]) rest
  | .plain read, [] => some [String.ofList read.reverse]
  | .plain read, c :: rest =>
    if c = '.' then (pathFrom .start rest).map (String.ofList read.reverse :: ·)
    else pathFrom (.plain (c :: read)) rest
  | .inside _, [] => none
  | .inside read, c :: rest =>
    if c = ']' then pathFrom (.ended read) rest else pathFrom (.inside (c :: read)) rest
  | .ended read, [] => some [String.ofList read.reverse]
  | .ended read, c :: rest =>
    if c = ']' then pathFrom (.inside (c :: read)) rest
    else if c = '.' then (pathFrom .start rest).map (String.ofList read.reverse :: ·)
    else none

def readPath (path : String) : Option (List String) :=
  pathFrom .start path.toList

/-- The name stands in a path for itself. -/
def PathPart (name : String) : Prop :=
  '.' ∉ name.toList ∧ name.toList.head? ≠ some '['

instance (name : String) : Decidable (PathPart name) :=
  inferInstanceAs (Decidable (_ ∧ _))

private theorem pathFrom_plain (cs read : List Char) (free : '.' ∉ cs) :
    pathFrom (.plain read) cs = some [String.ofList (read.reverse ++ cs)] := by
  induction cs generalizing read with
  | nil => rw [pathFrom, List.append_nil]
  | cons c rest ih =>
      have other : c ≠ '.' := fun same => free (same ▸ List.mem_cons_self)
      have later : '.' ∉ rest := fun member => free (List.mem_cons_of_mem c member)
      rw [pathFrom, if_neg other, ih (c :: read) later, List.reverse_cons, List.append_assoc]
      rfl

private theorem pathFrom_dotted (cs read rest : List Char) (free : '.' ∉ cs) :
    pathFrom (.plain read) (cs ++ '.' :: rest) =
      (pathFrom .start rest).map (String.ofList (read.reverse ++ cs) :: ·) := by
  induction cs generalizing read with
  | nil => rw [List.nil_append, pathFrom, if_pos rfl, List.append_nil]
  | cons c cs ih =>
      have other : c ≠ '.' := fun same => free (same ▸ List.mem_cons_self)
      have later : '.' ∉ cs := fun member => free (List.mem_cons_of_mem c member)
      rw [List.cons_append, pathFrom, if_neg other, ih (c :: read) later, List.reverse_cons,
        List.append_assoc]
      rfl

theorem readPath_part {name : String} (part : PathPart name) : readPath name = some [name] := by
  obtain ⟨free, unbracketed⟩ := part
  have whole : String.ofList name.toList = name := String.ofList_toList
  unfold readPath
  cases text : name.toList with
  | nil =>
      rw [text] at whole
      exact congrArg (fun name => some [name]) whole
  | cons c rest =>
      rw [text] at free unbracketed whole
      have bracket : c ≠ '[' := fun same => unbracketed (congrArg some same)
      have dot : c ≠ '.' := fun same => free (same ▸ List.mem_cons_self)
      have later : '.' ∉ rest := fun member => free (List.mem_cons_of_mem c member)
      rw [pathFrom, if_neg bracket, if_neg dot, pathFrom_plain rest [c] later]
      exact congrArg (fun name => some [name]) whole

private theorem readPath_dotted {table column : String} (first : PathPart table)
    (second : PathPart column) :
    readPath (table ++ "." ++ column) = some [table, column] := by
  have rest : pathFrom .start column.toList = some [column] := readPath_part second
  obtain ⟨free, unbracketed⟩ := first
  have whole : String.ofList table.toList = table := String.ofList_toList
  have spelled : (table ++ "." ++ column).toList = table.toList ++ '.' :: column.toList := by
    rw [String.toList_append, String.toList_append, List.append_assoc]
    rfl
  unfold readPath
  rw [spelled]
  cases text : table.toList with
  | nil =>
      rw [text] at whole
      rw [List.nil_append, pathFrom, if_neg (by decide), if_pos rfl, rest, ← whole]
      rfl
  | cons c cs =>
      rw [text] at free unbracketed whole
      have bracket : c ≠ '[' := fun same => unbracketed (congrArg some same)
      have dot : c ≠ '.' := fun same => free (same ▸ List.mem_cons_self)
      have later : '.' ∉ cs := fun member => free (List.mem_cons_of_mem c member)
      rw [List.cons_append, pathFrom, if_neg bracket, if_neg dot, pathFrom_dotted cs [c] _ later, rest,
        ← whole]
      rfl

/-! ### Statements and their readings -/

namespace Alteration

variable {α β : Type}

def map (f : α → β) : Alteration α → Alteration β
  | renameTable table newName => .renameTable table newName
  | dropTable table => .dropTable table
  | addColumn table column type => .addColumn table column (f type)
  | dropColumn table column => .dropColumn table column
  | renameColumn table column newName => .renameColumn table column newName
  | createIndex table column unique => .createIndex table column unique

def names (a : Alteration α) : Alteration Unit :=
  a.map fun _ => ()

def text (d : Dialect) : Alteration String → String
  | renameTable table newName => d.renameTable table newName
  | dropTable table => d.dropTable table
  | addColumn table column type => d.addColumn table (d.quote column ++ (" " ++ type))
  | dropColumn table column => d.dropColumn table column
  | renameColumn table column newName => d.renameColumn table column newName
  | createIndex table column unique => d.createIndex table column unique

def ofLexemes? : List Lexeme → Option (Alteration (List Lexeme))
  | .word "RENAME" :: .word "TABLE" :: .name table :: .word "TO" :: [.name newName] =>
    some (.renameTable table newName)
  | .word "EXEC" :: .word "sp_rename" :: .quoted path :: .comma :: [.quoted newName] =>
    match readPath path with
    | some [table] => some (.renameTable table newName)
    | _ => none
  | [.word "EXEC", .word "sp_rename", .quoted path, .comma, .quoted newName, .comma,
      .quoted "COLUMN"] =>
    match readPath path with
    | some [table, column] => some (.renameColumn table column newName)
    | _ => none
  | .word "DROP" :: .word "TABLE" :: .word "IF" :: .word "EXISTS" :: [.name table] =>
    some (.dropTable table)
  | .word "ALTER" :: .word "TABLE" :: .name table :: change =>
    match change with
    | .word "RENAME" :: .word "TO" :: [.name newName] => some (.renameTable table newName)
    | .word "RENAME" :: .word "COLUMN" :: .name column :: .word "TO" :: [.name newName] =>
      some (.renameColumn table column newName)
    | .word "DROP" :: .word "COLUMN" :: [.name column] => some (.dropColumn table column)
    | .word "ADD" :: .word "COLUMN" :: .name column :: type => some (.addColumn table column type)
    | .word "ADD" :: .name column :: type => some (.addColumn table column type)
    | _ => none
  | .word "CREATE" :: .word "UNIQUE" :: .word "INDEX" :: .name index :: .word "ON" :: .name table
      :: .opening :: .name column :: [.closing] =>
    if index = Dialect.indexName table column then some (.createIndex table column true) else none
  | .word "CREATE" :: .word "INDEX" :: .name index :: .word "ON" :: .name table
      :: .opening :: .name column :: [.closing] =>
    if index = Dialect.indexName table column then some (.createIndex table column false) else none
  | _ => none

def read? (d : Dialect) (statement : String) : Option (Alteration (List Lexeme)) :=
  ofLexemes? (scan d (letters statement))

/-- No apostrophe ends the text of a name, and none of the names in a path is a path. -/
def Plain (d : Dialect) : Alteration α → Prop
  | renameTable table newName =>
    d = .mssql → PathPart table ∧ '\'' ∉ table.toList ∧ '\'' ∉ newName.toList
  | renameColumn table column newName =>
    d = .mssql → PathPart table ∧ PathPart column
      ∧ '\'' ∉ table.toList ∧ '\'' ∉ column.toList ∧ '\'' ∉ newName.toList
  | _ => True

end Alteration

/-! ### Texts between apostrophes -/

variable {d : Dialect}

private theorem doubled_free {quote : Char} {cs : List Char} (free : quote ∉ cs) :
    doubled quote cs = cs := by
  induction cs with
  | nil => rfl
  | cons c rest ih =>
      have other : c ≠ quote := fun same => free (same ▸ List.mem_cons_self)
      rw [doubled, if_neg other, ih fun member => free (List.mem_cons_of_mem c member)]

theorem scans_apostrophes {text : String} (free : '\'' ∉ text.toList) :
    Scans d (letters ("'" ++ text ++ "'")) [.quoted text] := by
  intro rest parted
  have spelled : letters ("'" ++ text ++ "'") ++ rest =
      .char '\'' :: (symbols (doubled '\'' text.toList ++ ['\'']) ++ rest) := by
    rw [doubled_free free]
    simp [letters, symbols]
  have begun : scan d (.char '\'' :: (symbols (doubled '\'' text.toList ++ ['\'']) ++ rest)) =
      scanFrom d (.inside '\'' []) (symbols (doubled '\'' text.toList ++ ['\'']) ++ rest) := by
    cases d <;> rfl
  rw [spelled, begun, scanFrom_inside, scanFrom_quoted_parted parted, List.append_nil,
    List.reverse_reverse, String.ofList_toList]
  rfl

/-! ### The lexemes of each statement -/

theorem closes_heading (d : Dialect) (table : String) {words : String} {ls : List Lexeme}
    (parts : Parts (letters words)) (closes : Closes d (letters words) ls) :
    Closes d (letters ("ALTER TABLE " ++ d.quote table ++ words))
      (.word "ALTER" :: .word "TABLE" :: .name table :: ls) := by
  have alter : Closes d (letters "ALTER TABLE ") [.word "ALTER", .word "TABLE"] := by
    intro rest
    cases d <;> rfl
  rw [letters_append, letters_append]
  exact (alter.followed (scans_quote table)).closed parts closes

theorem scan_named {opening : String} {ls : List Lexeme} (closes : Closes d (letters opening) ls)
    (name : String) : scan d (letters (opening ++ d.quote name)) = ls ++ [.name name] := by
  rw [letters_append]
  exact (closes.followed (scans_quote name)).scan_eq

theorem scan_renaming {opening between : String} {ls ms : List Lexeme}
    (first : Closes d (letters opening) ls) (parts : Parts (letters between))
    (second : Closes d (letters between) ms) (table newName : String) :
    scan d (letters (opening ++ d.quote table ++ between ++ d.quote newName)) =
      ls ++ [.name table] ++ ms ++ [.name newName] := by
  have before : Closes d (letters (opening ++ d.quote table ++ between)) (ls ++ [.name table] ++ ms) := by
    rw [letters_append, letters_append]
    exact (first.followed (scans_quote table)).closed parts second
  exact scan_named before newName

theorem closes_to (d : Dialect) : Closes d (letters " TO ") [.word "TO"] := by
  intro rest
  cases d <;> rfl

private theorem scan_dropTable (d : Dialect) (table : String) :
    scan d (letters (d.dropTable table)) =
      [.word "DROP", .word "TABLE", .word "IF", .word "EXISTS", .name table] := by
  have drop : Closes d (letters "DROP TABLE IF EXISTS ")
      [.word "DROP", .word "TABLE", .word "IF", .word "EXISTS"] := by
    intro rest
    cases d <;> rfl
  exact scan_named drop table

private theorem scan_dropColumn (d : Dialect) (table column : String) :
    scan d (letters (d.dropColumn table column)) =
      [.word "ALTER", .word "TABLE", .name table, .word "DROP", .word "COLUMN", .name column] := by
  have drop : Closes d (letters " DROP COLUMN ") [.word "DROP", .word "COLUMN"] := by
    intro rest
    cases d <;> rfl
  exact scan_named (closes_heading d table (parts_blank rfl) drop) column

private theorem scan_addColumn (d : Dialect) (table column type : String) :
    scan d (letters (d.addColumn table (d.quote column ++ (" " ++ type)))) =
      .word "ALTER" :: .word "TABLE" :: .name table :: .word "ADD"
        :: ((if d = .mssql then [] else [.word "COLUMN"])
          ++ .name column :: scan d (letters type)) := by
  have blank (rest : List Symbol) : scan d (letters " " ++ rest) = scan d rest := by
    cases d <;> rfl
  -- What follows the name begins with a blank, so the type is scanned by itself.
  have named (opening : String) (ls : List Lexeme) (closes : Closes d (letters opening) ls) :
      scan d (letters (opening ++ (d.quote column ++ (" " ++ type)))) =
        ls ++ .name column :: scan d (letters type) := by
    rw [letters_append, letters_append, closes, scans_quote column _ parts_bare.2, letters_append,
      blank]
    rfl
  have other : Closes d (letters " ADD COLUMN ") [.word "ADD", .word "COLUMN"] := by
    intro rest
    cases d <;> rfl
  have added : Closes d (letters " ADD ") [.word "ADD"] := by
    intro rest
    cases d <;> rfl
  have whole := named _ _ (closes_heading d table (parts_blank rfl) other)
  have short := named _ _ (closes_heading d table (parts_blank rfl) added)
  cases d with
  | mssql => exact short
  | generic | postgres | sqlite => exact whole

theorem scan_createIndex (d : Dialect) (table column : String) (unique : Bool) :
    scan d (letters (d.createIndex table column unique)) =
      (if unique then [.word "CREATE", .word "UNIQUE", .word "INDEX"]
        else [.word "CREATE", .word "INDEX"])
      ++ [.name (Dialect.indexName table column), .word "ON", .name table, .opening, .name column,
        .closing] := by
  have create : Closes d (letters ("CREATE " ++ (if unique then "UNIQUE " else "") ++ "INDEX "))
      (if unique then [.word "CREATE", .word "UNIQUE", .word "INDEX"]
        else [.word "CREATE", .word "INDEX"]) := by
    intro rest
    cases unique <;> cases d <;> rfl
  have on : Closes d (letters " ON ") [.word "ON"] := by
    intro rest
    cases d <;> rfl
  have opening : Closes d (letters " (") [.opening] := by
    intro rest
    cases d <;> rfl
  have toTable := ((create.followed (scans_quote (Dialect.indexName table column))).closed
    (parts_blank rfl) on).followed (scans_quote table)
  have toColumn := (toTable.closed (parts_blank rfl) opening).followed (scans_quote column)
  have whole := (toColumn.closed parts_closing (closes_closing d)).scans.scan_eq
  unfold Dialect.createIndex
  simp only [letters_append] at whole ⊢
  rw [whole]
  simp

private theorem scan_renameTable (d : Dialect) (table newName : String) (quoted : d ≠ .mssql) :
    scan d (letters (d.renameTable table newName)) =
      if d = .generic then
        [.word "RENAME", .word "TABLE", .name table, .word "TO", .name newName]
      else [.word "ALTER", .word "TABLE", .name table, .word "RENAME", .word "TO", .name newName] := by
  have rename : Closes d (letters "RENAME TABLE ") [.word "RENAME", .word "TABLE"] := by
    intro rest
    cases d <;> rfl
  have renamed : Closes d (letters " RENAME TO ") [.word "RENAME", .word "TO"] := by
    intro rest
    cases d <;> rfl
  have short := scan_renaming rename (parts_blank rfl) (closes_to d) table newName
  have long := scan_named (closes_heading d table (parts_blank rfl) renamed) newName
  cases d with
  | generic => exact short
  | postgres | sqlite => exact long
  | mssql => exact absurd rfl quoted

private theorem scan_renameColumn (d : Dialect) (table column newName : String) (quoted : d ≠ .mssql) :
    scan d (letters (d.renameColumn table column newName)) =
      [.word "ALTER", .word "TABLE", .name table, .word "RENAME", .word "COLUMN", .name column,
        .word "TO", .name newName] := by
  have rename : Closes d (letters " RENAME COLUMN ") [.word "RENAME", .word "COLUMN"] := by
    intro rest
    cases d <;> rfl
  have long := scan_renaming (closes_heading d table (parts_blank rfl) rename) (parts_blank rfl)
    (closes_to d) column newName
  cases d with
  | generic | postgres | sqlite => exact long
  | mssql => exact absurd rfl quoted

theorem closes_procedure : Closes .mssql (letters "EXEC sp_rename ") [.word "EXEC", .word "sp_rename"] :=
  fun _ => rfl

private theorem scan_renameTable_mssql {table newName : String} (first : '\'' ∉ table.toList)
    (second : '\'' ∉ newName.toList) :
    scan .mssql (letters (Dialect.mssql.renameTable table newName)) =
      [.word "EXEC", .word "sp_rename", .quoted table, .comma, .quoted newName] := by
  have spelled : Dialect.mssql.renameTable table newName =
      "EXEC sp_rename " ++ ("'" ++ table ++ "'") ++ ", " ++ ("'" ++ newName ++ "'") := by
    unfold Dialect.renameTable
    rw [← String.toList_inj]
    simp
  rw [spelled, letters_append, letters_append, letters_append]
  exact (((closes_procedure.followed (scans_apostrophes first)).closed parts_comma
    (closes_comma .mssql)).followed (scans_apostrophes second)).scan_eq

private theorem scan_renameColumn_mssql {table column newName : String} (first : '\'' ∉ table.toList)
    (second : '\'' ∉ column.toList) (third : '\'' ∉ newName.toList) :
    scan .mssql (letters (Dialect.mssql.renameColumn table column newName)) =
      [.word "EXEC", .word "sp_rename", .quoted (table ++ "." ++ column), .comma, .quoted newName,
        .comma, .quoted "COLUMN"] := by
  have path : '\'' ∉ (table ++ "." ++ column).toList := by
    rw [String.toList_append, String.toList_append]
    simp [first, second]
  have spelled : Dialect.mssql.renameColumn table column newName =
      "EXEC sp_rename " ++ ("'" ++ (table ++ "." ++ column) ++ "'") ++ ", " ++ ("'" ++ newName ++ "'")
        ++ ", " ++ ("'" ++ "COLUMN" ++ "'") := by
    unfold Dialect.renameColumn
    rw [← String.toList_inj]
    simp
  have named := ((closes_procedure.followed (scans_apostrophes path)).closed parts_comma
    (closes_comma .mssql)).followed (scans_apostrophes third)
  have word : Scans .mssql (letters ("'" ++ "COLUMN" ++ "'")) [.quoted "COLUMN"] :=
    scans_apostrophes (by decide)
  have whole := ((named.closed parts_comma (closes_comma .mssql)).followed word).scan_eq
  rw [spelled]
  simp only [letters_append] at whole ⊢
  rw [whole]
  rfl

/-! ### Reading back -/

namespace Alteration

private theorem read_text (d : Dialect) (a : Alteration String) (plain : a.Plain d) :
    read? d (a.text d) = some (a.map fun type => scan d (letters type)) := by
  unfold read?
  cases a with
  | dropTable table => rw [text, scan_dropTable]; rfl
  | dropColumn table column => rw [text, scan_dropColumn]; rfl
  | addColumn table column type =>
      rw [text, scan_addColumn]
      cases d <;> rfl
  | createIndex table column unique =>
      rw [text, scan_createIndex]
      cases unique <;> exact if_pos rfl
  | renameTable table newName =>
      by_cases procedure : d = .mssql
      · obtain ⟨part, first, second⟩ := plain procedure
        subst procedure
        rw [text, scan_renameTable_mssql first second]
        show (match readPath table with | some [table] => _ | _ => none) = _
        rw [readPath_part part]
        rfl
      · rw [text, scan_renameTable d table newName procedure]
        split <;> rfl
  | renameColumn table column newName =>
      by_cases procedure : d = .mssql
      · obtain ⟨tablePart, columnPart, first, second, third⟩ := plain procedure
        subst procedure
        rw [text, scan_renameColumn_mssql first second third]
        show (match readPath (table ++ "." ++ column) with | some [table, column] => _ | _ => none) = _
        rw [readPath_dotted tablePart columnPart]
        rfl
      · rw [text, scan_renameColumn d table column newName procedure]
        rfl

private theorem names_map {α β : Type} (f : α → β) (a : Alteration α) : (a.map f).names = a.names := by
  cases a <;> rfl

private theorem text_addColumn {d : Dialect} {c : Column} {definition : String} (table more : String)
    (defines : columnDefinition? d c = some definition) :
    ∃ type, d.addColumn table (definition ++ more) = (addColumn table c.name type).text d := by
  obtain ⟨rest, spelled, -⟩ := columnDefinition_eq defines
  refine ⟨rest ++ more, ?_⟩
  rw [text, spelled, String.append_assoc, String.append_assoc]

/-- The statement for a change is read back as that change, statements that are the same are of the
same names, and a column's definition adds a column of its name. -/
theorem names_survive (d : Dialect) (a : Alteration String) (plain : a.Plain d) :
    read? d (a.text d) = some (a.map fun type => scan d (letters type))
      ∧ (∀ b : Alteration String, b.Plain d → b.text d = a.text d → b.names = a.names)
      ∧ ∀ (table more : String) (c : Column) (definition : String),
        columnDefinition? d c = some definition →
          ∃ type, d.addColumn table (definition ++ more) = (addColumn table c.name type).text d
            ∧ read? d (d.addColumn table (definition ++ more)) =
              some (addColumn table c.name (scan d (letters type))) := by
  refine ⟨read_text d a plain, ?_, ?_⟩
  · intro b others same
    have first := read_text d a plain
    have second := read_text d b others
    rw [same, first, Option.some.injEq] at second
    have named := congrArg names second
    rw [names_map, names_map] at named
    exact named.symm
  · intro table more c definition defines
    obtain ⟨type, spelled⟩ := text_addColumn table more defines
    exact ⟨type, spelled, spelled ▸ read_text d (addColumn table c.name type) trivial⟩

/-- The procedure renames a column whose name is a word of the language. -/
theorem clerk_survives :
    (renameColumn "order" "clerk" "the seller" : Alteration String).Plain .mssql
      ∧ read? .mssql (Dialect.mssql.renameColumn "order" "clerk" "the seller") =
        some (renameColumn "order" "clerk" "the seller") := by
  have plain : (renameColumn "order" "clerk" "the seller" : Alteration String).Plain .mssql :=
    fun _ => by decide
  exact ⟨plain, (names_survive .mssql _ plain).1⟩

/-- A name with an apostrophe ends early, so the call is not for that name, and where a name has a dot
the same call stands for different columns. -/
theorem names_lost :
    read? .mssql (Dialect.mssql.renameTable "person" "it's") ≠ some (renameTable "person" "it's")
      ∧ text .mssql (renameColumn "a.b" "c" "d") = text .mssql (renameColumn "a" "b.c" "d")
      ∧ (renameColumn "a.b" "c" "d" : Alteration String) ≠ renameColumn "a" "b.c" "d" := by
  decide

end Alteration

end EntityStore.Sql
