import EntityStore.Proofs.Filter.Resolution
import EntityStore.Proofs.Sql.Words
import EntityStore.Proofs.Sql.Writing

/-!
What each statement writes is its inline text, as long as its words bring no marks of their own. A
filter is rendered part by part. A variable in a list is one slot for the whole condition, so what
stands for a missing value would be lost there; a resolved filter has nothing that does.
-/

namespace EntityStore.Sql

variable (spell : Value → String) (bindings : Bindings) (d : Dialect)

def Inline.source (spell : Value → String) (bindings : Bindings) : SlotSource → String
  | .literal value => spell value
  | .variable name pattern? => Inline.scalarVariable spell bindings name pattern?
  | .list name column negated => Inline.listVariable spell bindings column negated name

/-! ### Values -/

theorem writes_literal (value : Value) :
    Writes (Inline.source spell bindings) (Writer.literal value) (spell value) :=
  writes_push (.literal value)

private theorem writesEach_literals (values : List Value) :
    WritesEach (Inline.source spell bindings) (values.mapM Writer.literal) (values.map spell) :=
  writesEach_mapM values fun value _ => writes_literal spell bindings value

theorem writes_literals (values : List Value) :
    Writes (Inline.source spell bindings) (Writer.literals values) (Inline.values spell values) :=
  WritesEach.arranged (writesEach_literals spell bindings values) fun each => each.joined (by decide)

theorem writes_ids (ids : List Int64) :
    Writes (Inline.source spell bindings) (Writer.ids ids) (Inline.ids spell ids) :=
  writes_literals spell bindings (ids.map .int)

private theorem writes_row (values : List Value) :
    Writes (Inline.source spell bindings) (rowFragment values) (Inline.row spell values) :=
  Writes.arranged (writes_literals spell bindings values) fun rendered =>
    Rendered.followed (Rendered.after (plain_raw (by decide)) rendered) (plain_raw (by decide))

private theorem writes_assignment (set : String × Value) (free : MarkFree set.1) :
    Writes (Inline.source spell bindings) (assignment d set) (Inline.assignment spell d set) :=
  have column : MarkFree (d.quote set.1 ++ " = ") :=
    markFree_append.2 ⟨markFree_quote d free, by decide⟩
  Writes.arranged (writes_literal spell bindings set.2) fun rendered => Rendered.after (plain_raw column) rendered

/-! ### Comparisons -/

private theorem patterned_eq (pattern? : Option PatternKind) (value : Value) :
    operandValue pattern? value = Inline.patterned pattern? value := by
  cases pattern? with
  | none => cases value <;> rfl
  | some kind =>
      cases value with
      | text text => cases kind <;> rfl
      | _ => cases kind <;> rfl

theorem writes_operand (pattern? : Option PatternKind) (operand : Operand)
    (free : AllFree (Words.operand operand)) :
    Writes (Inline.source spell bindings) (operandFragment pattern? operand)
      (Inline.operand spell bindings pattern? operand) := by
  cases operand with
  | literal value =>
      rw [operandFragment, Inline.operand, patterned_eq]
      exact writes_literal spell bindings _
  | «variable» name => exact writes_push (.variable name pattern?)
  | raw sql => exact writes_pure (plain_raw (free sql List.mem_cons_self))

private theorem rendered_lowered {inline : SlotSource → String} {before added : List SlotSource}
    {f : Fragment} {t : String} (casefold : Bool) (rendered : Rendered inline before added f t) :
    Rendered inline before added (lowered casefold f) (Inline.lowered casefold t) := by
  cases casefold with
  | false => exact rendered
  | true =>
      exact Rendered.followed (Rendered.after (plain_raw (by decide)) rendered)
        (plain_raw (by decide))

theorem leafColumnText_eq (leaf : WhereLeaf) :
    leafColumnText d leaf = Inline.lowered leaf.casefold (columnText d leaf.column) := by
  unfold leafColumnText Inline.lowered
  rfl

private theorem markFree_leafColumnText {leaf : WhereLeaf} (free : MarkFree leaf.column.column) :
    MarkFree (leafColumnText d leaf) := by
  have column := markFree_columnText d free
  unfold leafColumnText
  split
  · exact markFree_append.2 ⟨markFree_append.2 ⟨by decide, column⟩, by decide⟩
  · exact column

theorem writes_leafColumn {leaf : WhereLeaf} (free : MarkFree leaf.column.column) :
    Writes (Inline.source spell bindings) (leafColumn d leaf) (Inline.column spell d leaf) := by
  have column : Plain (raw (leafColumnText d leaf)) (leafColumnText d leaf) :=
    plain_raw (markFree_leafColumnText d free)
  unfold leafColumn Inline.column
  rw [← leafColumnText_eq d]
  cases leaf.absent? with
  | none => exact writes_pure column
  | some value =>
      have head := ((plain_raw (t := "COALESCE(") (by decide)).append column).append
        (plain_raw (t := ", ") (by decide))
      exact Writes.arranged (writes_literal spell bindings value) fun rendered =>
        Rendered.followed (Rendered.after head rendered) (plain_raw (by decide))

private theorem writes_within {leaf : WhereLeaf} {list : Writer Fragment} {t : String} (negated : Bool)
    (free : MarkFree leaf.column.column)
    (inner : Writes (Inline.source spell bindings) list t) :
    Writes (Inline.source spell bindings)
      (do
        let column ← leafColumn d leaf
        let items ← list
        return column ++ raw (" " ++ membershipWord negated ++ " (") ++ items ++ raw ")")
      (Inline.column spell d leaf ++ (if negated then " NOT IN (" else " IN (") ++ t ++ ")") := by
  have word : Plain (raw (" " ++ membershipWord negated ++ " ("))
      (if negated then " NOT IN (" else " IN (") := by
    cases negated <;> exact plain_raw (by decide)
  refine Writes.both (writes_leafColumn spell bindings d free) inner fun column items => ?_
  exact Rendered.followed (Rendered.append (column.followed word) items) (plain_raw (by decide))

private theorem writes_membership {leaf : WhereLeaf} (free : AllFree (Words.leaf leaf))
    (settled : leaf.Settled) (member : leaf.op.isMembership = true) :
    Writes (Inline.source spell bindings) (leafColumn d leaf >>= membership d leaf)
      (Inline.membershipLeaf spell bindings d leaf (leaf.op == .notIn)) := by
  have column : MarkFree leaf.column.column := free _ List.mem_cons_self
  have operandFree : AllFree (Words.operand leaf.operand) := fun word spelled =>
    free word (List.mem_cons_of_mem _ spelled)
  have single := writes_operand spell bindings none leaf.operand
    operandFree
  unfold membership Inline.membershipLeaf
  cases operandEq : leaf.operand with
  | «variable» name =>
      have absent := settled member
      let source := SlotSource.list name (leafColumnText d leaf) (leaf.op == .notIn)
      have slot : Writes (Inline.source spell bindings) (Writer.push source)
          (Inline.source spell bindings source) := writes_push source
      rw [leafColumn, absent, Inline.column, absent, ← leafColumnText_eq d]
      exact slot
  | raw sql =>
      rw [operandEq] at single
      exact writes_within spell bindings d _ column single
  | literal value =>
      rw [operandEq] at single
      cases value with
      | list items => exact writes_within spell bindings d _ column (writes_literals spell bindings items)
      | _ => exact writes_within spell bindings d _ column single

private theorem plain_likeEscape : Plain (raw d.likeEscape) d.likeEscape := by
  cases d <;> exact plain_raw (by decide)

private theorem writes_comparison {leaf : WhereLeaf} (free : AllFree (Words.leaf leaf)) (sign : String)
    (signFree : MarkFree sign) {escape : Fragment} {escapeText : String}
    (plain : Plain escape escapeText) (pattern? : Option PatternKind) :
    Writes (Inline.source spell bindings)
      (do
        let column ← leafColumn d leaf
        let right ← operandFragment pattern? leaf.operand
        return column ++ raw (" " ++ sign ++ " ") ++ lowered leaf.casefold right ++ escape)
      (Inline.comparison spell bindings d leaf sign pattern? ++ escapeText) := by
  have column : MarkFree leaf.column.column := free _ List.mem_cons_self
  have operandFree : AllFree (Words.operand leaf.operand) := fun word spelled =>
    free word (List.mem_cons_of_mem _ spelled)
  have signPlain : Plain (raw (" " ++ sign ++ " ")) (" " ++ sign ++ " ") :=
    plain_raw (by simp only [markFree_append]; exact ⟨⟨by decide, signFree⟩, by decide⟩)
  unfold Inline.comparison
  refine Writes.both (writes_leafColumn spell bindings d column) (writes_operand spell bindings pattern? leaf.operand operandFree)
    fun left right => ?_
  have whole := Rendered.followed
    (Rendered.append (left.followed signPlain) (rendered_lowered leaf.casefold right)) plain
  simp only [← String.append_assoc] at whole ⊢
  exact whole

private theorem writes_leaf {leaf : WhereLeaf} (free : AllFree (Words.leaf leaf))
    (settled : leaf.Settled) :
    Writes (Inline.source spell bindings) (leafFragment d leaf)
      (Inline.leaf spell bindings d leaf) := by
  have compared (sign : String) (signFree : MarkFree sign) :=
    writes_comparison spell bindings d free sign signFree plain_nil
  have patterned := writes_comparison spell bindings d free "LIKE" (by decide)
    (plain_likeEscape d)
  have within := writes_membership spell bindings d free settled
  simp only [String.append_empty] at compared
  unfold leafFragment Inline.leaf
  cases opEq : leaf.op with
  | isIn =>
      rw [opEq] at within
      exact within rfl
  | notIn =>
      rw [opEq] at within
      exact within rfl
  | contains => exact patterned (some .contains)
  | startsWith => exact patterned (some .startsWith)
  | endsWith => exact patterned (some .endsWith)
  | eq => exact compared "=" (by decide) none
  | ne => exact compared "<>" (by decide) none
  | lt => exact compared "<" (by decide) none
  | lte => exact compared "<=" (by decide) none
  | gt => exact compared ">" (by decide) none
  | gte => exact compared ">=" (by decide) none

/-! ### Conditions -/

mutual

private theorem writes_group (g : WhereGroup) (free : AllFree (Words.group g)) (settled : g.Settled) :
    Writes (Inline.source spell bindings) (groupFragment d g)
      (Inline.group spell bindings d g) := by
  cases g with
  | const value =>
      cases value <;> exact writes_pure (plain_raw (by decide))
  | all parts =>
      exact WritesEach.arranged (writes_groups parts free settled) fun each =>
        each.bracketed (by decide)
  | any parts =>
      exact WritesEach.arranged (writes_groups parts free settled) fun each =>
        each.bracketed (by decide)
  | not part =>
      refine Writes.arranged (writes_group part free settled) fun inner => ?_
      exact Rendered.followed (Rendered.after (plain_raw (by decide)) inner) (plain_raw (by decide))
  | leaf l => exact writes_leaf spell bindings d free (settled l List.mem_cons_self)
  | null column negated =>
      have name := markFree_columnText d (free column.column List.mem_cons_self)
      cases negated <;> exact writes_pure (plain_raw (markFree_append.2 ⟨name, by decide⟩))

theorem writes_groups (gs : List WhereGroup) (free : AllFree (Words.groups gs))
    (settled : WhereGroup.EachSettled gs) :
    WritesEach (Inline.source spell bindings) (groupFragments d gs)
      (Inline.groups spell bindings d gs) := by
  cases gs with
  | nil => exact writesEach_nil
  | cons g gs =>
      have words := allFree_append.1 free
      have first : g.Settled := fun leaf member =>
        settled leaf (List.mem_append_left _ member)
      have rest : WhereGroup.EachSettled gs := fun leaf member =>
        settled leaf (List.mem_append_right _ member)
      exact WritesEach.cons (writes_group g words.1 first) (writes_groups gs words.2 rest)

end

def ConditionSettled (filter? : Option WhereGroup) : Prop :=
  ∀ g ∈ filter?, g.Settled

theorem writes_condition (filter? : Option WhereGroup) (free : AllFree (Words.condition filter?))
    (settled : ConditionSettled filter?) :
    Writes (Inline.source spell bindings) (whereFragment d filter?)
      (Inline.condition spell bindings d filter?) := by
  cases filter? with
  | none => exact writes_pure plain_nil
  | some g =>
      have inner := writes_group spell bindings d g free
        (settled g rfl)
      have whole : Writes (Inline.source spell bindings)
          (do return raw " WHERE " ++ (← groupFragment d g))
          (" WHERE " ++ Inline.group spell bindings d g) :=
        Writes.arranged inner fun rendered => Rendered.after (plain_raw (by decide)) rendered
      cases g with
      | const value =>
          cases value with
          | true => exact writes_pure plain_nil
          | false => exact whole
      | _ => exact whole

/-! ### Pages -/

theorem rowCount_eq (n : UInt64) : spell (rowCount n) = Inline.rowCount spell n := by
  have greatest : Int64.maxValue.toNatClampNeg = 9223372036854775807 := by decide
  unfold rowCount Inline.rowCount
  rw [greatest]
  split
  · next within => rw [Nat.min_eq_left within]
  · next beyond =>
      rw [Nat.min_eq_right (by omega)]
      rfl

def pageFragment (d : Dialect) (limit? offset? : Option UInt64) (ordered : Bool) :
    Writer Fragment := do
  let limit ← rowCountSlot limit?
  let offset ← rowCountSlot offset?
  return d.paging limit offset ordered

private theorem writes_rowCount (n : UInt64) :
    Writes (Inline.source spell bindings) (Writer.literal (rowCount n))
      (Inline.rowCount spell n) := by
  rw [← rowCount_eq spell]
  exact writes_literal spell bindings _

private theorem plain_madeUpOrder (ordered : Bool) :
    Plain ((if ordered then [] else raw " ORDER BY (SELECT NULL)") ++ raw " OFFSET ")
      ((if ordered then "" else " ORDER BY (SELECT NULL)") ++ " OFFSET ") := by
  cases ordered with
  | false => exact (plain_raw (by decide)).append (plain_raw (by decide))
  | true => exact plain_nil.append (plain_raw (by decide))

private theorem writes_page (limit? offset? : Option UInt64) (ordered : Bool) :
    Writes (Inline.source spell bindings) (pageFragment d limit? offset? ordered)
      (Inline.paging spell d limit? offset? ordered) := by
  have text {s : String} (free : MarkFree s) : Plain (raw s) s := plain_raw free
  cases limit? with
  | none =>
      cases offset? with
      | none => cases d <;> exact writes_pure plain_nil
      | some k =>
          show Writes _ (do return d.paging none (some (← Writer.literal (rowCount k))) ordered) _
          refine Writes.arranged (writes_rowCount spell bindings k) fun offset => ?_
          cases d with
          | generic => exact Rendered.after (text (by decide)) offset
          | sqlite => exact Rendered.after (text (by decide)) offset
          | postgres => exact Rendered.after (text (by decide)) offset
          | mssql =>
              exact ((Rendered.after (plain_madeUpOrder ordered) offset).followed
                (text (by decide))).followed plain_nil
  | some n =>
      cases offset? with
      | none =>
          show Writes _ (do return d.paging (some (← Writer.literal (rowCount n))) none ordered) _
          refine Writes.arranged (writes_rowCount spell bindings n) fun limit => ?_
          cases d with
          | generic => exact Rendered.after (text (by decide)) limit
          | sqlite => exact Rendered.after (text (by decide)) limit
          | postgres => exact Rendered.after (text (by decide)) limit
          | mssql =>
              have head := ((plain_madeUpOrder ordered).append
                (text (s := "0") (by decide))).append (text (s := " ROWS") (by decide))
              exact Rendered.after head
                ((Rendered.after (text (by decide)) limit).followed (text (by decide)))
      | some k =>
          show Writes _
            (do
              let limit ← Writer.literal (rowCount n)
              let offset ← Writer.literal (rowCount k)
              return d.paging (some limit) (some offset) ordered) _
          refine Writes.both (writes_rowCount spell bindings n) (writes_rowCount spell bindings k) fun limit offset => ?_
          cases d with
          | mssql =>
              -- The limit is asked for first and printed last.
              exact Rendered.append_swapped
                ((Rendered.after (text (by decide)) limit).followed (text (by decide)))
                ((Rendered.after (plain_madeUpOrder ordered) offset).followed (text (by decide)))
          | _ =>
              exact Rendered.append
                ((Rendered.after (text (by decide)) limit).followed (text (by decide))) offset

/-! ### Statements -/

def selectionFragment (d : Dialect) (columns : List ColumnRef) (s : Selection) :
    Writer Fragment := do
  let condition ← whereFragment d s.filter?
  let page ← pageFragment d s.limit? s.offset? (!s.order.isEmpty)
  return raw ("SELECT " ++ (if s.joins.collection then "DISTINCT " else "")
      ++ ", ".intercalate (columns.map (selectItem d)) ++ fromText d s.joins)
    ++ condition ++ raw (orderText d s.order) ++ page

private theorem markFree_selectItem {c : ColumnRef} (free : MarkFree c.column) :
    MarkFree (selectItem d c) :=
  markFree_append.2 ⟨markFree_append.2 ⟨markFree_columnText d free, by decide⟩,
    markFree_quote d free⟩

private theorem writes_selection {columns : List ColumnRef} {s : Selection}
    (free : AllFree (Words.selection columns s)) (settled : ConditionSettled s.filter?) :
    Writes (Inline.source spell bindings) (selectionFragment d columns s)
      (Inline.selection spell bindings d columns s) := by
  unfold Words.selection at free
  simp only [allFree_append] at free
  obtain ⟨⟨⟨names, tables⟩, condition⟩, order⟩ := free
  have items : MarkFree (", ".intercalate (columns.map (selectItem d))) := by
    refine markFree_intercalate (by decide) fun part member => ?_
    obtain ⟨c, known, rfl⟩ := List.mem_map.1 member
    exact markFree_selectItem d (names _ (List.mem_map.2 ⟨c, known, rfl⟩))
  have distinct : MarkFree (if s.joins.collection then "DISTINCT " else "") := by
    split <;> decide
  have head : MarkFree ("SELECT " ++ (if s.joins.collection then "DISTINCT " else "")
      ++ ", ".intercalate (columns.map (selectItem d)) ++ fromText d s.joins) := by
    simp only [markFree_append]
    exact ⟨⟨⟨by decide, distinct⟩, items⟩, markFree_fromText d tables⟩
  refine Writes.both (writes_condition spell bindings d s.filter? condition settled)
    (writes_page spell bindings d s.limit? s.offset? (!s.order.isEmpty))
    fun condition page => ?_
  exact Rendered.append
    ((Rendered.after (plain_raw head) condition).followed (plain_raw (markFree_orderText d order)))
    page

namespace Emission

def writer (d : Dialect) : Emission → Writer Fragment
  | select m s => selectionFragment d (entityColumns m s.joins) s
  | selectIds m s => selectionFragment d [idColumn m] s
  | count m joins filter? => do
    let counted := if joins.collection then "DISTINCT " ++ columnText d (idColumn m) else "*"
    let head := "SELECT COUNT(" ++ counted ++ ") AS " ++ countColumn ++ fromText d joins
    return raw head ++ (← whereFragment d filter?)
  | insert table columns rows => do
    let groups ← rows.mapM rowFragment
    return raw ("INSERT INTO " ++ d.quote table ++ " (" ++ quotedList d columns ++ ") VALUES ")
      ++ joined ", " groups
  | update table set key ids => do
    let sets ← set.mapM (assignment d)
    let list ← Writer.ids ids
    return raw ("UPDATE " ++ d.quote table ++ " SET ") ++ joined ", " sets
      ++ raw (" WHERE " ++ d.quote key ++ " IN (") ++ list ++ raw ")"
  | setNull table column ids => do
    let list ← Writer.ids ids
    return raw ("UPDATE " ++ d.quote table ++ " SET " ++ d.quote column ++ " = NULL WHERE "
      ++ d.quote column ++ " IN (") ++ list ++ raw ")"
  | delete table column ids => do
    let list ← Writer.ids ids
    return raw ("DELETE FROM " ++ d.quote table ++ " WHERE " ++ d.quote column ++ " IN (") ++ list
      ++ raw ")"
  | selectWhereIn table columns column ids => do
    let list ← Writer.ids ids
    return raw ("SELECT " ++ quotedList d columns ++ " FROM " ++ d.quote table ++ " WHERE "
      ++ d.quote column ++ " IN (") ++ list ++ raw ")"

theorem template_eq (e : Emission) : e.template d = Writer.finish d (e.writer d) := by
  cases e <;> rfl

/-- The filter of the statement is settled. -/
def Settled : Emission → Prop
  | select _ s | selectIds _ s => ConditionSettled s.filter?
  | count _ _ filter? => ConditionSettled filter?
  | _ => True

private theorem writes_around (opening : String) (free : MarkFree opening) (ids : List Int64) :
    Writes (Inline.source spell bindings)
      (do return raw opening ++ (← Writer.ids ids) ++ raw ")")
      (opening ++ Inline.ids spell ids ++ ")") :=
  Writes.arranged (writes_ids spell bindings ids) fun list =>
    Rendered.followed (Rendered.after (plain_raw free) list) (plain_raw (by decide))

section

variable {table key : String} {columns : List String} {ids : List Int64}

private theorem writes_count {m : EntityModel} {joins : JoinGraph} {filter? : Option WhereGroup}
    (free : AllFree (count m joins filter?).words) (settled : (count m joins filter?).Settled) :
    Writes (Inline.source spell bindings) ((count m joins filter?).writer d)
      ((count m joins filter?).inline spell bindings d) := by
  rw [words, List.cons_append, allFree_cons, allFree_append] at free
  obtain ⟨key, tables, condition⟩ := free
  have counted : MarkFree (if joins.collection then
      "DISTINCT " ++ columnText d (idColumn m) else "*") := by
    split
    · exact markFree_append.2 ⟨by decide, markFree_columnText d key⟩
    · decide
  have head : MarkFree ("SELECT COUNT(" ++ (if joins.collection then
      "DISTINCT " ++ columnText d (idColumn m) else "*") ++ ") AS " ++ countColumn
      ++ fromText d joins) := by
    simp only [markFree_append]
    exact ⟨⟨⟨⟨by decide, counted⟩, by decide⟩, by decide⟩, markFree_fromText d tables⟩
  exact Writes.arranged (writes_condition spell bindings d filter? condition settled)
    fun rendered => Rendered.after (plain_raw head) rendered

private theorem writes_insert {rows : List (List Value)}
    (free : AllFree (insert table columns rows).words) :
    Writes (Inline.source spell bindings) ((insert table columns rows).writer d)
      ((insert table columns rows).inline spell bindings d) := by
  rw [words, allFree_cons] at free
  have head : MarkFree
      ("INSERT INTO " ++ d.quote table ++ " (" ++ quotedList d columns ++ ") VALUES ") := by
    simp only [markFree_append]
    exact ⟨⟨⟨⟨by decide, markFree_quote d free.1⟩, by decide⟩,
      markFree_quotedList d free.2⟩, by decide⟩
  have groups : WritesEach (Inline.source spell bindings) (rows.mapM rowFragment)
      (rows.map (Inline.row spell)) :=
    writesEach_mapM rows fun values _ => writes_row spell bindings values
  exact WritesEach.arranged groups fun each =>
    Rendered.after (plain_raw head) (each.joined (by decide))

private theorem writes_assignments {set : List (String × Value)} (free : AllFree (set.map (·.1))) :
    Writes (Inline.source spell bindings)
      (do return joined ", " (← set.mapM (assignment d)))
      (", ".intercalate (set.map (Inline.assignment spell d))) := by
  have each : WritesEach (Inline.source spell bindings) (set.mapM (assignment d))
      (set.map (Inline.assignment spell d)) :=
    writesEach_mapM set fun pair member => writes_assignment spell bindings d pair
      (free _ (List.mem_map.2 ⟨pair, member, rfl⟩))
  exact WritesEach.arranged each fun parts => parts.joined (by decide)

private theorem writes_update {set : List (String × Value)}
    (free : AllFree (update table set key ids).words) :
    Writes (Inline.source spell bindings) ((update table set key ids).writer d)
      ((update table set key ids).inline spell bindings d) := by
  rw [words, allFree_cons, allFree_cons] at free
  obtain ⟨tableFree, keyFree, columns⟩ := free
  have head : MarkFree ("UPDATE " ++ d.quote table ++ " SET ") := by
    simp only [markFree_append]
    exact ⟨⟨by decide, markFree_quote d tableFree⟩, by decide⟩
  have middle : MarkFree (" WHERE " ++ d.quote key ++ " IN (") := by
    simp only [markFree_append]
    exact ⟨⟨by decide, markFree_quote d keyFree⟩, by decide⟩
  have whole : Writes (Inline.source spell bindings)
      (do
        let sets ← (do return joined ", " (← set.mapM (assignment d)))
        let list ← Writer.ids ids
        return raw ("UPDATE " ++ d.quote table ++ " SET ") ++ sets
          ++ raw (" WHERE " ++ d.quote key ++ " IN (") ++ list ++ raw ")")
      ("UPDATE " ++ d.quote table ++ " SET "
        ++ ", ".intercalate (set.map (Inline.assignment spell d))
        ++ (" WHERE " ++ d.quote key ++ " IN (") ++ Inline.ids spell ids ++ ")") :=
    Writes.both (writes_assignments spell bindings d columns) (writes_ids spell bindings ids)
      fun left right =>
        (Rendered.append ((Rendered.after (plain_raw head) left).followed (plain_raw middle))
          right).followed (plain_raw (by decide))
  simp only [← String.append_assoc] at whole
  exact whole

end

theorem writes (e : Emission) (free : AllFree e.words) (settled : e.Settled) :
    Writes (Inline.source spell bindings) (e.writer d) (e.inline spell bindings d) := by
  cases e with
  | select m s => exact writes_selection spell bindings d free settled
  | selectIds m s => exact writes_selection spell bindings d free settled
  | count m joins filter? => exact writes_count spell bindings d free settled
  | insert table columns rows => exact writes_insert spell bindings d free
  | update table set key ids => exact writes_update spell bindings d free
  | setNull table column ids =>
      refine writes_around spell bindings _ ?_ ids
      have names := (allFree_cons.1 free)
      have columnFree := markFree_quote d (allFree_cons.1 names.2).1
      simp only [markFree_append]
      exact ⟨⟨⟨⟨⟨⟨by decide, markFree_quote d names.1⟩, by decide⟩, columnFree⟩, by decide⟩,
        columnFree⟩, by decide⟩
  | delete table column ids =>
      refine writes_around spell bindings _ ?_ ids
      have names := (allFree_cons.1 free)
      have columnFree := markFree_quote d (allFree_cons.1 names.2).1
      simp only [markFree_append]
      exact ⟨⟨⟨⟨by decide, markFree_quote d names.1⟩, by decide⟩, columnFree⟩, by decide⟩
  | selectWhereIn table columns column ids =>
      refine writes_around spell bindings _ ?_ ids
      rw [words, allFree_cons, allFree_cons] at free
      obtain ⟨tableFree, columnFree, columnsFree⟩ := free
      simp only [markFree_append]
      exact ⟨⟨⟨⟨⟨⟨by decide, markFree_quotedList d columnsFree⟩, by decide⟩,
        markFree_quote d tableFree⟩, by decide⟩, markFree_quote d columnFree⟩, by decide⟩

end Emission

end EntityStore.Sql
