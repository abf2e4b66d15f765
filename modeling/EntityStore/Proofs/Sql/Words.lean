import EntityStore.Proofs.Sql.Inline
import EntityStore.Proofs.Sql.Marks

/-!
The words that a statement is spelled with: its identifiers and raw fragments. All other text in it
is fixed, so a statement brings marks of its own only where one of its words does.
-/

namespace EntityStore.Sql

/-! ### Text without marks -/

@[simp]
theorem markFree_append {s t : String} : MarkFree (s ++ t) ↔ MarkFree s ∧ MarkFree t := by
  unfold MarkFree
  rw [String.toList_append, List.mem_append, not_or]

private theorem markFree_decimal (n : Nat) : MarkFree (decimal n) := by
  unfold MarkFree decimal
  rw [String.toList_ofList]
  exact mark_not_mem_digits n

theorem markFree_intercalate {separator : String} {parts : List String}
    (free : MarkFree separator) (each : ∀ part ∈ parts, MarkFree part) :
    MarkFree (separator.intercalate parts) := by
  induction parts with
  | nil => exact List.not_mem_nil
  | cons part rest ih =>
      have first := each part List.mem_cons_self
      have others : ∀ other ∈ rest, MarkFree other := fun other member =>
        each other (List.mem_cons_of_mem part member)
      cases rest with
      | nil =>
          rw [String.intercalate_singleton]
          exact first
      | cons next rest =>
          rw [String.intercalate_cons_cons, markFree_append, markFree_append]
          exact ⟨⟨first, free⟩, ih others⟩

private theorem markFree_join {parts : List String} (each : ∀ part ∈ parts, MarkFree part) :
    MarkFree (String.join parts) := by
  induction parts with
  | nil => decide
  | cons part rest ih =>
      rw [String.join_cons, markFree_append]
      exact ⟨each part List.mem_cons_self,
        ih fun other member => each other (List.mem_cons_of_mem part member)⟩

private theorem mem_doubled {quote c : Char} {cs : List Char} (member : c ∈ doubled quote cs) :
    c ∈ cs := by
  induction cs with
  | nil => exact member
  | cons first rest ih =>
      unfold doubled at member
      split at member
      · grind
      · grind

theorem markFree_quote (d : Dialect) {name : String} (free : MarkFree name) :
    MarkFree (d.quote name) := by
  have inner : slotMark ∉ doubled d.quotes.2 name.toList := fun member => free (mem_doubled member)
  unfold MarkFree Dialect.quote
  rw [String.toList_ofList]
  cases d <;> simp_all [Dialect.quotes, Dialect.backquote, slotMark]

theorem markFree_quotedList (d : Dialect) {names : List String}
    (free : ∀ name ∈ names, MarkFree name) : MarkFree (quotedList d names) := by
  refine markFree_intercalate (by decide) fun part member => ?_
  obtain ⟨name, known, rfl⟩ := List.mem_map.1 member
  exact markFree_quote d (free name known)

theorem markFree_alias (a : TableAlias) : MarkFree a.text :=
  markFree_append.2 ⟨by decide, markFree_decimal a.number⟩

theorem markFree_columnText (d : Dialect) {c : ColumnRef} (free : MarkFree c.column) :
    MarkFree (columnText d c) := by
  have dot : MarkFree "." := by decide
  simp [columnText, markFree_alias, markFree_quote d free, dot]

/-! ### The words of a statement -/

namespace Words

def node (n : JoinNode) : List String :=
  match n.on? with
  | none => [n.table]
  | some on => [n.table, on.leftColumn, on.rightColumn]

def graph (g : JoinGraph) : List String :=
  g.root.table :: g.joins.flatMap node

def operand : Operand → List String
  | .raw sql => [sql]
  | _ => []

def leaf (l : WhereLeaf) : List String :=
  l.column.column :: operand l.operand

mutual

def group : WhereGroup → List String
  | .const _ => []
  | .all parts | .any parts => groups parts
  | .not part => group part
  | .leaf l => leaf l
  | .null column _ => [column.column]

def groups : List WhereGroup → List String
  | [] => []
  | g :: gs => group g ++ groups gs

end

def condition (filter? : Option WhereGroup) : List String :=
  (filter?.map group).getD []

def selection (columns : List ColumnRef) (s : Selection) : List String :=
  columns.map (·.column) ++ graph s.joins ++ condition s.filter?
    ++ s.order.map (·.column.column)

end Words

/-- The identifiers and raw fragments that a statement is spelled with. -/
def Emission.words : Emission → List String
  | select m s => Words.selection (entityColumns m s.joins) s
  | selectIds m s => Words.selection [idColumn m] s
  | count m joins filter? =>
    (idColumn m).column :: Words.graph joins ++ Words.condition filter?
  | insert table columns _ => table :: columns
  | update table set key _ => table :: key :: set.map (·.1)
  | setNull table column _ | delete table column _ => [table, column]
  | selectWhereIn table columns column _ => table :: column :: columns

/-- The words are free of marks. -/
def AllFree (words : List String) : Prop :=
  ∀ word ∈ words, MarkFree word

instance (words : List String) : Decidable (AllFree words) :=
  inferInstanceAs (Decidable (∀ word ∈ words, MarkFree word))

@[simp]
theorem allFree_nil : AllFree [] := by
  intro word member
  cases member

@[simp]
theorem allFree_cons {word : String} {words : List String} :
    AllFree (word :: words) ↔ MarkFree word ∧ AllFree words :=
  List.forall_mem_cons

@[simp]
theorem allFree_append {words others : List String} :
    AllFree (words ++ others) ↔ AllFree words ∧ AllFree others :=
  List.forall_mem_append

private theorem markFree_joinText (d : Dialect) {node : JoinNode} (free : AllFree (Words.node node)) :
    MarkFree (joinText d node) := by
  unfold joinText
  unfold Words.node at free
  cases joined : node.on? with
  | none => exact List.not_mem_nil
  | some on =>
      rw [joined] at free
      simp only [allFree_cons, allFree_nil, and_true] at free
      obtain ⟨table, left, right⟩ := free
      have kind : MarkFree (JoinKind.words node.kind) := by
        cases node.kind <;> decide
      simp only [markFree_append]
      have first := markFree_columnText d (c := ⟨on.left, on.leftColumn⟩) left
      have second := markFree_columnText d (c := ⟨node.tableAlias, on.rightColumn⟩) right
      exact ⟨⟨⟨⟨⟨⟨⟨⟨⟨by decide, kind⟩, by decide⟩, markFree_quote d table⟩, by decide⟩,
        markFree_alias _⟩, by decide⟩, first⟩, by decide⟩, second⟩

theorem markFree_fromText (d : Dialect) {g : JoinGraph} (free : AllFree (Words.graph g)) :
    MarkFree (fromText d g) := by
  unfold Words.graph at free
  rw [allFree_cons] at free
  unfold fromText
  simp only [markFree_append]
  refine ⟨⟨⟨⟨by decide, markFree_quote d free.1⟩, by decide⟩, markFree_alias _⟩, ?_⟩
  refine markFree_join fun part member => ?_
  obtain ⟨node, known, rfl⟩ := List.mem_map.1 member
  exact markFree_joinText d fun word spelled =>
    free.2 word (List.mem_flatMap.2 ⟨node, known, spelled⟩)

theorem markFree_orderText (d : Dialect) {order : List OrderTerm}
    (free : AllFree (order.map (·.column.column))) : MarkFree (orderText d order) := by
  unfold orderText
  split
  · decide
  · refine markFree_append.2 ⟨by decide, markFree_intercalate (by decide) fun part member => ?_⟩
    obtain ⟨term, known, rfl⟩ := List.mem_map.1 member
    have column := markFree_columnText d (free _ (List.mem_map.2 ⟨term, known, rfl⟩))
    have direction : MarkFree term.direction.word := by
      cases term.direction <;> decide
    exact markFree_append.2 ⟨markFree_append.2 ⟨column, by decide⟩, direction⟩

end EntityStore.Sql
