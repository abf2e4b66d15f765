import EntityStore.Proofs.Filter.History
import EntityStore.Proofs.Sql.Alignment

/-!
Aliases in statements that read rows. A statement is taken apart into words, so that every place is
marked where the alias of a table is introduced or used.
-/

namespace EntityStore.Sql

/-- A part of a statement: an alias where its table is named, an alias before one of its columns, or
anything else. -/
inductive Word
  | text (s : String)
  | introduces (a : TableAlias)
  | uses (a : TableAlias)

namespace Word

@[simp]
def print : Word → String
  | text s => s
  | introduces a | uses a => a.text

def introduced? : Word → Option TableAlias
  | introduces a => some a
  | _ => none

def used? : Word → Option TableAlias
  | uses a => some a
  | _ => none

end Word

def spelled (words : List Word) : String :=
  String.join (words.map Word.print)

def introduced (words : List Word) : List TableAlias :=
  words.filterMap Word.introduced?

def used (words : List Word) : List TableAlias :=
  words.filterMap Word.used?

/-- Reading on after some aliases have been introduced, every alias is introduced before it is
used. -/
def Ordered : List TableAlias → List Word → Prop
  | _, [] => True
  | known, .text _ :: rest => Ordered known rest
  | known, .introduces a :: rest => Ordered (known ++ [a]) rest
  | known, .uses a :: rest => a ∈ known ∧ Ordered known rest

@[simp]
theorem spelled_nil : spelled [] = "" :=
  rfl

@[simp]
theorem spelled_cons (word : Word) (words : List Word) :
    spelled (word :: words) = word.print ++ spelled words := by
  rw [spelled, List.map_cons, String.join_cons, spelled]

@[simp]
theorem spelled_append (words more : List Word) :
    spelled (words ++ more) = spelled words ++ spelled more := by
  rw [spelled, List.map_append, String.join_append, spelled, spelled]

theorem introduced_append (words more : List Word) :
    introduced (words ++ more) = introduced words ++ introduced more :=
  List.filterMap_append

theorem used_append (words more : List Word) : used (words ++ more) = used words ++ used more :=
  List.filterMap_append

private theorem spelled_flatten (parts : List (List Word)) :
    spelled parts.flatten = String.join (parts.map spelled) := by
  induction parts with
  | nil => rfl
  | cons part rest ih =>
      rw [List.flatten_cons, spelled_append, ih, List.map_cons, String.join_cons]

theorem spelled_intercalate (separator : String) (parts : List (List Word)) :
    spelled (List.intercalate [.text separator] parts) =
      separator.intercalate (parts.map spelled) := by
  induction parts with
  | nil => rfl
  | cons part rest ih =>
      cases rest with
      | nil => simp
      | cons next rest =>
          rw [List.intercalate_cons_cons, List.map_cons, List.map_cons,
            String.intercalate_cons_cons, ← List.map_cons, ← ih]
          simp [String.append_assoc]

/-- The words introduce nothing and use only aliases of the given kind. -/
def Reads (known : TableAlias → Prop) (words : List Word) : Prop :=
  introduced words = [] ∧ ∀ a ∈ used words, known a

variable {known : TableAlias → Prop}

@[simp]
theorem reads_nil : Reads known [] :=
  ⟨rfl, fun _ met => (List.not_mem_nil met).elim⟩

@[simp]
theorem reads_text (s : String) (words : List Word) :
    Reads known (.text s :: words) ↔ Reads known words :=
  Iff.rfl

@[simp]
theorem reads_uses (a : TableAlias) (words : List Word) :
    Reads known (.uses a :: words) ↔ known a ∧ Reads known words := by
  have met : used (.uses a :: words) = a :: used words := rfl
  have nothing : introduced (.uses a :: words) = introduced words := rfl
  rw [Reads, met, nothing, List.forall_mem_cons]
  exact and_left_comm

@[simp]
theorem reads_append (words more : List Word) :
    Reads known (words ++ more) ↔ Reads known words ∧ Reads known more := by
  rw [Reads, introduced_append, used_append, List.append_eq_nil_iff, List.forall_mem_append]
  exact and_and_and_comm

theorem reads_intercalate {separator : String} {parts : List (List Word)}
    (each : ∀ part ∈ parts, Reads known part) :
    Reads known (List.intercalate [.text separator] parts) := by
  induction parts with
  | nil => exact reads_nil
  | cons part rest ih =>
      have first := each part List.mem_cons_self
      have others := ih fun other member => each other (List.mem_cons_of_mem part member)
      cases rest with
      | nil =>
          rw [List.intercalate_singleton]
          exact first
      | cons next rest =>
          rw [List.intercalate_cons_cons]
          simp [first, others]

theorem ordered_append {earlier : List TableAlias} {words more : List Word} :
    Ordered earlier (words ++ more) ↔
      Ordered earlier words ∧ Ordered (earlier ++ introduced words) more := by
  induction words generalizing earlier with
  | nil => simp [Ordered, introduced]
  | cons word rest ih =>
      cases word with
      | text s => exact ih
      | introduces a =>
          rw [List.cons_append, Ordered, Ordered, ih, List.append_assoc]
          rfl
      | uses a =>
          rw [List.cons_append, Ordered, Ordered, ih, and_assoc]
          rfl

private theorem introduced_of_used {earlier : List TableAlias} {words : List Word}
    (ordered : Ordered earlier words) {a : TableAlias} (met : a ∈ used words) :
    a ∈ earlier ++ introduced words := by
  induction words generalizing earlier with
  | nil => cases met
  | cons word rest ih =>
      cases word with
      | text s => exact ih ordered met
      | introduces b =>
          have later := ih ordered met
          rwa [List.append_assoc] at later
      | uses b =>
          rcases List.mem_cons.1 met with rfl | later
          · exact List.mem_append_left _ ordered.1
          · exact ih ordered.2 later

/-! ### The words of each clause -/

/-- A statement that reads rows: what stands before its tables, the tables, and what stands after
them. -/
structure Clauses where
  head : List Word
  tables : List Word
  rest : List Word

namespace Clauses

def words (c : Clauses) : List Word :=
  c.head ++ c.tables ++ c.rest

/-- Each alias stands for one table only, those that are used anywhere are introduced among the
tables, and there before their first use. -/
structure Scoped (c : Clauses) : Prop where
  once : ((introduced c.words).map TableAlias.text).Nodup
  known : ∀ a ∈ used c.words, a ∈ introduced c.tables
  ordered : Ordered [] c.tables

variable (spell : Value → String) (bindings : Bindings) (d : Dialect)

def column (c : ColumnRef) : List Word :=
  [.uses c.tableAlias, .text ("." ++ d.quote c.column)]

def selectItem (c : ColumnRef) : List Word :=
  column d c ++ [.text (" AS " ++ d.quote c.column)]

def join (node : JoinNode) : List Word :=
  match node.on? with
  | none => []
  | some on =>
    [.text (" " ++ JoinKind.words node.kind ++ " " ++ d.quote node.table ++ " "),
        .introduces node.tableAlias, .text " ON "]
      ++ column d ⟨on.left, on.leftColumn⟩ ++ [.text " = "]
      ++ column d ⟨node.tableAlias, on.rightColumn⟩

def tablesOf (g : JoinGraph) : List Word :=
  [.text (" FROM " ++ d.quote g.root.table ++ " "), .introduces g.root.tableAlias]
    ++ (g.joins.map (join d)).flatten

def left (l : WhereLeaf) : List Word :=
  let plain :=
    if l.casefold then [.text "LOWER("] ++ column d l.column ++ [.text ")"] else column d l.column
  match l.absent? with
  | some value => [.text "COALESCE("] ++ plain ++ [.text (", " ++ spell value ++ ")")]
  | none => plain

def membership (l : WhereLeaf) (negated : Bool) : List Word :=
  let within (list : String) : List Word :=
    left spell d l ++ [.text ((if negated then " NOT IN (" else " IN (") ++ list ++ ")")]
  match l.operand with
  | .literal (.list items) => within (Inline.values spell items)
  | .variable name =>
    match bindings.lookup name with
    | some (.list []) => [.text (if negated then "1 = 1" else "1 = 0")]
    | some (.list items) => within (Inline.values spell items)
    | _ => []
  | other => within (Inline.operand spell bindings none other)

def comparison (l : WhereLeaf) : List Word :=
  let right := Inline.lowered l.casefold (Inline.operand spell bindings (patternOf? l.op) l.operand)
  left spell d l ++ [.text (" " ++ comparisonSign l.op ++ " " ++ right)]
    ++ (if l.op.isPattern then [.text d.likeEscape] else [])

def leaf (l : WhereLeaf) : List Word :=
  match l.op with
  | .isIn => membership spell bindings d l false
  | .notIn => membership spell bindings d l true
  | _ => comparison spell bindings d l

def bracketed (word : String) : List (List Word) → List Word
  | [single] => single
  | parts => [.text "("] ++ List.intercalate [.text word] parts ++ [.text ")"]

mutual

def group : WhereGroup → List Word
  | .const value => [.text (if value then "1 = 1" else "1 = 0")]
  | .all parts => bracketed " AND " (groups parts)
  | .any parts => bracketed " OR " (groups parts)
  | .not part => [.text "NOT ("] ++ group part ++ [.text ")"]
  | .null c negated => column d c ++ [.text (if negated then " IS NOT NULL" else " IS NULL")]
  | .leaf l => leaf spell bindings d l

def groups : List WhereGroup → List (List Word)
  | [] => []
  | g :: gs => group g :: groups gs

end

def condition : Option WhereGroup → List Word
  | none | some (.const true) => []
  | some g => [.text " WHERE "] ++ group spell bindings d g

def order (terms : List OrderTerm) : List Word :=
  if terms.isEmpty then []
  else [.text " ORDER BY "]
    ++ List.intercalate [.text ", "]
      (terms.map fun t => column d t.column ++ [.text (" " ++ t.direction.word)])

def selection (columns : List ColumnRef) (s : Selection) : Clauses where
  head := [.text ("SELECT " ++ (if s.joins.collection then "DISTINCT " else ""))]
    ++ List.intercalate [.text ", "] (columns.map (selectItem d))
  tables := tablesOf d s.joins
  rest := condition spell bindings d s.filter? ++ order d s.order
    ++ [.text (Inline.paging spell d s.limit? s.offset? (!s.order.isEmpty))]

def count (m : EntityModel) (joins : JoinGraph) (filter? : Option WhereGroup) : Clauses where
  head := [.text "SELECT COUNT("]
    ++ (if joins.collection then [.text "DISTINCT "] ++ column d (idColumn m) else [.text "*"])
    ++ [.text (") AS " ++ countColumn)]
  tables := tablesOf d joins
  rest := condition spell bindings d filter?

/-! ### The words are those of the statement -/

theorem spelled_column (c : ColumnRef) : spelled (column d c) = columnText d c := by
  simp [column, columnText, String.append_assoc]

private theorem spelled_join (node : JoinNode) : spelled (join d node) = joinText d node := by
  unfold join joinText
  cases node.on? with
  | none => rfl
  | some on => simp [spelled_column, String.append_assoc]

theorem spelled_tablesOf (g : JoinGraph) : spelled (tablesOf d g) = fromText d g := by
  have each : (g.joins.map (join d)).map spelled = g.joins.map (joinText d) := by
    rw [List.map_map]
    exact List.map_congr_left fun node _ => spelled_join d node
  rw [tablesOf, spelled_append, spelled_flatten, each]
  simp [fromText, String.append_assoc]

theorem spelled_left (l : WhereLeaf) : spelled (left spell d l) = Inline.column spell d l := by
  unfold left Inline.column Inline.lowered
  cases l.absent? <;> cases l.casefold <;>
    simp [spelled_column, String.append_assoc, -String.reduceAppend]

private theorem spelled_membership (l : WhereLeaf) (negated : Bool) :
    spelled (membership spell bindings d l negated) =
      Inline.membershipLeaf spell bindings d l negated := by
  have within (list : String) :
      spelled (left spell d l ++
        [.text ((if negated then " NOT IN (" else " IN (") ++ list ++ ")")]) =
        Inline.column spell d l ++ (if negated then " NOT IN (" else " IN (") ++ list ++ ")" := by
    simp [spelled_left, String.append_assoc]
  unfold membership Inline.membershipLeaf
  cases l.operand with
  | literal value => cases value <;> exact within _
  | raw sql => exact within _
  | «variable» name =>
      unfold Inline.listVariable
      dsimp only
      cases bindings.lookup name with
      | none => rfl
      | some value =>
          cases value with
          | list items =>
              cases items with
              | nil => cases negated <;> rfl
              | cons item rest => exact within _
          | _ => rfl

private theorem spelled_leaf (l : WhereLeaf) :
    spelled (leaf spell bindings d l) = Inline.leaf spell bindings d l := by
  unfold leaf Inline.leaf
  cases op : l.op with
  | isIn => exact spelled_membership spell bindings d l false
  | notIn => exact spelled_membership spell bindings d l true
  | _ =>
      simp [comparison, Inline.comparison, Inline.like, spelled_left, op, patternOf?,
        comparisonSign, CompareOp.isPattern, String.append_assoc]

private theorem spelled_bracketed (word : String) (parts : List (List Word)) :
    spelled (bracketed word parts) = Inline.bracketed word (parts.map spelled) := by
  have enclosed : spelled ([.text "("] ++ List.intercalate [.text word] parts ++ [.text ")"]) =
      "(" ++ word.intercalate (parts.map spelled) ++ ")" := by
    simp [spelled_intercalate, String.append_assoc]
  match parts with
  | [] => exact enclosed
  | [single] => rfl
  | first :: second :: rest => exact enclosed

mutual

private theorem spelled_group (g : WhereGroup) :
    spelled (group spell bindings d g) = Inline.group spell bindings d g := by
  cases g with
  | const value => cases value <;> rfl
  | all parts => rw [group, Inline.group, spelled_bracketed, spelled_groups parts]
  | any parts => rw [group, Inline.group, spelled_bracketed, spelled_groups parts]
  | not part =>
      rw [group, Inline.group, spelled_append, spelled_append, spelled_group part]
      simp
  | null c negated => cases negated <;> simp [group, Inline.group, spelled_column]
  | leaf l => exact spelled_leaf spell bindings d l

theorem spelled_groups (gs : List WhereGroup) :
    (groups spell bindings d gs).map spelled = Inline.groups spell bindings d gs := by
  cases gs with
  | nil => rfl
  | cons g gs => rw [groups, Inline.groups, List.map_cons, spelled_group g, spelled_groups gs]

end

theorem spelled_condition (filter? : Option WhereGroup) :
    spelled (condition spell bindings d filter?) = Inline.condition spell bindings d filter? := by
  unfold condition Inline.condition
  split
  · rfl
  · rfl
  · simp [spelled_group]

private theorem spelled_order (terms : List OrderTerm) :
    spelled (order d terms) = orderText d terms := by
  unfold order orderText
  split
  · rfl
  · have each : (terms.map fun t => column d t.column ++ [.text (" " ++ t.direction.word)]).map
        spelled = terms.map fun t => columnText d t.column ++ " " ++ t.direction.word := by
      rw [List.map_map]
      refine List.map_congr_left fun t _ => ?_
      simp [spelled_column, String.append_assoc]
    rw [spelled_append, spelled_intercalate, each]
    simp

theorem spelled_selection (columns : List ColumnRef) (s : Selection) :
    spelled (selection spell bindings d columns s).words =
      Inline.selection spell bindings d columns s := by
  have items : (columns.map (selectItem d)).map spelled = columns.map (Sql.selectItem d) := by
    rw [List.map_map]
    refine List.map_congr_left fun c _ => ?_
    simp [selectItem, Sql.selectItem, spelled_column, String.append_assoc]
  simp only [words, selection, Inline.selection, spelled_append, spelled_intercalate, items,
    spelled_tablesOf, spelled_condition, spelled_order]
  simp [String.append_assoc]

theorem spelled_count (m : EntityModel) (joins : JoinGraph) (filter? : Option WhereGroup) :
    spelled (count spell bindings d m joins filter?).words =
      (Emission.count m joins filter?).inline spell bindings d := by
  have counted : spelled (if joins.collection then [.text "DISTINCT "] ++ column d (idColumn m)
      else [.text "*"]) =
      if joins.collection then "DISTINCT " ++ columnText d (idColumn m) else "*" := by
    split <;> simp [spelled_column]
  show _ = "SELECT COUNT("
    ++ (if joins.collection then "DISTINCT " ++ columnText d (idColumn m) else "*")
    ++ ") AS " ++ countColumn ++ fromText d joins ++ Inline.condition spell bindings d filter?
  simp only [words, count, spelled_append, counted, spelled_tablesOf, spelled_condition]
  simp [String.append_assoc]

/-! ### The aliases of each clause -/

variable {spell bindings d}

theorem reads_column {c : ColumnRef} (has : known c.tableAlias) : Reads known (column d c) := by
  simp [column, has]

private theorem reads_left (spell : Value → String) {l : WhereLeaf} (has : known l.column.tableAlias) :
    Reads known (left spell d l) := by
  have plain := reads_column (d := d) has
  unfold left
  cases l.absent? <;> cases l.casefold <;> simp [plain]

private theorem reads_leaf {l : WhereLeaf} (has : known l.column.tableAlias) :
    Reads known (leaf spell bindings d l) := by
  have left := reads_left spell (d := d) has
  have within (s : String) : Reads known (Clauses.left spell d l ++ [.text s]) := by simp [left]
  have member (negated : Bool) : Reads known (membership spell bindings d l negated) := by
    unfold membership
    cases l.operand with
    | literal value => cases value <;> exact within _
    | raw sql => exact within _
    | «variable» name =>
        dsimp only
        split
        · exact reads_nil
        · exact within _
        · exact reads_nil
  unfold leaf
  split
  · exact member false
  · exact member true
  · unfold comparison
    split <;> simp [left]

private theorem reads_bracketed {word : String} {parts : List (List Word)}
    (each : ∀ part ∈ parts, Reads known part) : Reads known (bracketed word parts) := by
  unfold bracketed
  split
  · exact each _ List.mem_cons_self
  · simp [reads_intercalate each]

mutual

private theorem reads_group (g : WhereGroup) (has : ∀ ref ∈ g.refs, known ref.tableAlias) :
    Reads known (group spell bindings d g) := by
  cases g with
  | const value => simp [group]
  | all parts => exact reads_bracketed (reads_groups parts has)
  | any parts => exact reads_bracketed (reads_groups parts has)
  | not part => simp [group, reads_group part has]
  | null c negated => simp [group, reads_column (has c List.mem_cons_self)]
  | leaf l => exact reads_leaf (has l.column List.mem_cons_self)

theorem reads_groups (gs : List WhereGroup)
    (has : ∀ ref ∈ WhereGroup.refsEach gs, known ref.tableAlias) :
    ∀ part ∈ groups spell bindings d gs, Reads known part := by
  cases gs with
  | nil => exact fun part member => (List.not_mem_nil member).elim
  | cons g gs =>
      have both := List.forall_mem_append.1 has
      exact List.forall_mem_cons.2 ⟨reads_group g both.1, reads_groups gs both.2⟩

end

theorem reads_condition {filter? : Option WhereGroup}
    (has : ∀ g ∈ filter?, ∀ ref ∈ g.refs, known ref.tableAlias) :
    Reads known (condition spell bindings d filter?) := by
  unfold condition
  split
  · exact reads_nil
  · exact reads_nil
  · next g _ => simp [reads_group g (has g rfl)]

private theorem reads_order {terms : List OrderTerm} (has : ∀ t ∈ terms, known t.column.tableAlias) :
    Reads known (order d terms) := by
  unfold order
  split
  · exact reads_nil
  · refine (reads_append _ _).2 ⟨by simp, reads_intercalate fun part member => ?_⟩
    obtain ⟨t, given, rfl⟩ := List.mem_map.1 member
    simp [reads_column (has t given)]

/-! ### Tables -/

private theorem introduced_join {node : JoinNode} {on : JoinOn} (joined : node.on? = some on) :
    introduced (join d node) = [node.tableAlias] := by
  rw [join, joined]
  rfl

private theorem ordered_join {earlier : List TableAlias} {node : JoinNode} {on : JoinOn}
    (joined : node.on? = some on) (before : on.left ∈ earlier) :
    Ordered earlier (join d node) := by
  rw [join, joined]
  simp [column, Ordered, before]

/-- Each table is introduced under its number and joined to one with a smaller number. -/
theorem scoped_joins (nodes : List JoinNode) (earlier : List TableAlias)
    (numbered : ∀ i (node : JoinNode), nodes[i]? = some node →
      node.tableAlias = ⟨earlier.length + i⟩ ∧
        ∃ on : JoinOn, node.on? = some on ∧ on.left.number < earlier.length + i)
    (counted : earlier = (List.range earlier.length).map TableAlias.mk) :
    introduced (nodes.map (join d)).flatten = nodes.map (·.tableAlias) ∧
      Ordered earlier (nodes.map (join d)).flatten := by
  induction nodes generalizing earlier with
  | nil => exact ⟨rfl, trivial⟩
  | cons node rest ih =>
      obtain ⟨here, on, joined, before⟩ := numbered 0 node rfl
      have next : (earlier ++ [node.tableAlias]).length = earlier.length + 1 := by simp
      have others := ih (earlier ++ [node.tableAlias])
        (fun i other found => by
          have later := numbered (i + 1) other found
          rwa [next, Nat.add_assoc, Nat.add_comm 1 i])
        (by
          rw [next, List.range_succ, List.map_append, ← counted, here]
          rfl)
      have known : on.left ∈ earlier := by
        rw [counted]
        exact List.mem_map.2 ⟨on.left.number, List.mem_range.2 before, rfl⟩
      rw [List.map_cons, List.flatten_cons, introduced_append, introduced_join joined, others.1]
      refine ⟨rfl, ordered_append.2 ⟨ordered_join joined known, ?_⟩⟩
      rw [introduced_join joined]
      exact others.2

variable {g : JoinGraph}

private theorem scoped_tables (sound : g.Sound) :
    introduced (tablesOf d g) = g.nodes.map (·.tableAlias) ∧ Ordered [] (tablesOf d g) := by
  have root : g.root.tableAlias = JoinGraph.rootAlias := sound.numbered 0 g.root rfl
  have joins := scoped_joins (d := d) g.joins [g.root.tableAlias]
    (fun i node found => by
      obtain ⟨on, joined, before⟩ := sound.joined i node found
      rw [List.length_singleton, Nat.add_comm]
      exact ⟨sound.numbered (i + 1) node found, on, joined, Nat.lt_succ_of_le before⟩)
    (by
      rw [root]
      rfl)
  refine ⟨?_, ordered_append.2 ⟨trivial, joins.2⟩⟩
  rw [tablesOf, introduced_append, joins.1]
  rfl

theorem text_injective : Function.Injective TableAlias.text := by
  intro a b same
  have letters := congrArg String.toList same
  rw [TableAlias.text, TableAlias.text, String.toList_append, String.toList_append] at letters
  have numbers : a.number = b.number :=
    decimal_injective (String.toList_inj.1 (List.append_cancel_left letters))
  cases a
  cases b
  cases numbers
  rfl

/-- A statement on a sound graph that uses only its tables is scoped. -/
theorem scoped_of_reads {c : Clauses} (sound : g.Sound) (tables : c.tables = tablesOf d g)
    (head : Reads g.Has c.head) (rest : Reads g.Has c.rest) : c.Scoped := by
  obtain ⟨introduces, ordered⟩ := scoped_tables (d := d) sound
  rw [← tables] at introduces ordered
  refine ⟨?_, fun a met => ?_, ordered⟩
  · rw [words, introduced_append, introduced_append, head.1, rest.1, List.nil_append,
      List.append_nil, introduces, sound.aliases, List.map_map]
    refine List.nodup_range.map fun i j same => ?_
    cases text_injective same
    rfl
  · rw [words, used_append, used_append, List.mem_append, List.mem_append] at met
    rw [introduces]
    rcases met with (met | met) | met
    · exact sound.mem_aliases.2 (head.2 a met)
    · exact introduces ▸ introduced_of_used ordered met
    · exact sound.mem_aliases.2 (rest.2 a met)

theorem scoped_selection {columns : List ColumnRef} {s : Selection} (sound : s.joins.Sound)
    (items : ∀ c ∈ columns, s.joins.Has c.tableAlias)
    (filter : ∀ w ∈ s.filter?, ∀ ref ∈ w.refs, s.joins.Has ref.tableAlias)
    (order : ∀ t ∈ s.order, s.joins.Has t.column.tableAlias) :
    (selection spell bindings d columns s).Scoped := by
  refine scoped_of_reads (d := d) sound rfl ?_ ?_
  · refine (reads_append _ _).2 ⟨by simp, reads_intercalate fun part member => ?_⟩
    obtain ⟨c, given, rfl⟩ := List.mem_map.1 member
    simp [selectItem, reads_column (items c given)]
  · simp [selection, reads_condition filter, reads_order order]

theorem scoped_count {m : EntityModel} {joins : JoinGraph} {filter? : Option WhereGroup}
    (sound : joins.Sound) (filter : ∀ w ∈ filter?, ∀ ref ∈ w.refs, joins.Has ref.tableAlias) :
    (count spell bindings d m joins filter?).Scoped := by
  refine scoped_of_reads (d := d) sound rfl ?_ (reads_condition filter)
  have key := reads_column (d := d) (c := idColumn m) sound.has_root
  unfold count
  split <;> simp [key]

end Clauses

end EntityStore.Sql
