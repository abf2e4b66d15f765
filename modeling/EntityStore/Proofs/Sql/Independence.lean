import EntityStore.Builder.Query
import EntityStore.Proofs.Filter.Shape
import EntityStore.Proofs.Sql.Rendering
import EntityStore.Sql.Definition
import Mathlib.Data.List.Forall2

/-!
No value has a part in the text of a statement. Two runs of a writer whose values differ print the
same; only the literals among the sources of their slots tell them apart. So statements of the same
shape have the same text, before their variables are bound and after.
-/

namespace EntityStore.Sql

variable {α β : Type}

/-! ### Two runs of a writer -/

inductive SlotSource.Alike : SlotSource → SlotSource → Prop
  | literal (value other : Value) : Alike (.literal value) (.literal other)
  | same (source : SlotSource) : Alike source source

abbrev AlikeEach (sources others : List SlotSource) : Prop :=
  List.Forall₂ SlotSource.Alike sources others

/-- The writers return the same and ask for slots alike, after slots alike. -/
def Mirrors (w v : Writer α) : Prop :=
  ∀ before other, AlikeEach before other →
    (w.run before).1 = (v.run other).1 ∧ AlikeEach (w.run before).2 (v.run other).2

theorem mirrors_pure (a : α) : Mirrors (pure a) (pure a) := by
  intro before other alike
  exact ⟨rfl, alike⟩

theorem mirrors_push {source other : SlotSource} (alike : source.Alike other) :
    Mirrors (Writer.push source) (Writer.push other) := by
  intro before others each
  rw [Writer.run_push, Writer.run_push, each.length_eq]
  exact ⟨rfl, List.rel_append each (List.Forall₂.cons alike List.Forall₂.nil)⟩

theorem Mirrors.bind {w v : Writer α} {next last : α → Writer β} (first : Mirrors w v)
    (second : ∀ a, Mirrors (next a) (last a)) : Mirrors (w >>= next) (v >>= last) := by
  intro before other alike
  obtain ⟨same, reached⟩ := first before other alike
  rw [Writer.run_bind, Writer.run_bind, same]
  exact second _ _ _ reached

theorem Mirrors.arranged {w v : Writer α} (next : α → β) (first : Mirrors w v) :
    Mirrors (w >>= fun a => pure (next a)) (v >>= fun a => pure (next a)) :=
  Mirrors.bind first fun a => mirrors_pure (next a)

theorem mirrors_mapM {γ : Type} {w : α → Writer γ} {v : β → Writer γ} {items : List α}
    {others : List β} (each : List.Forall₂ (fun a b => Mirrors (w a) (v b)) items others) :
    Mirrors (items.mapM w) (others.mapM v) := by
  induction each with
  | nil => exact mirrors_pure []
  | cons first rest ih =>
      rw [List.mapM_cons, List.mapM_cons]
      exact Mirrors.bind first fun a => Mirrors.arranged _ ih

theorem mirrors_literal (value other : Value) :
    Mirrors (Writer.literal value) (Writer.literal other) :=
  mirrors_push (.literal value other)

theorem mirrors_literals {values others : List Value} (count : values.length = others.length) :
    Mirrors (Writer.literals values) (Writer.literals others) :=
  Mirrors.arranged _ (mirrors_mapM (List.forall₂_iff_get.2
    ⟨count, fun _ _ _ => mirrors_literal _ _⟩))

private theorem mirrors_ids {ids others : List Int64} (count : ids.length = others.length) :
    Mirrors (Writer.ids ids) (Writer.ids others) :=
  mirrors_literals (by rw [List.length_map, List.length_map, count])

/-! ### Filters -/

variable (d : Dialect)

private theorem mirrors_operand (pattern? : Option PatternKind) (operand : Operand) :
    Mirrors (operandFragment pattern? operand) (operandFragment pattern? operand.shape) := by
  cases operand with
  | literal value => exact mirrors_literal _ _
  | «variable» name => exact mirrors_push (.same _)
  | raw sql => exact mirrors_pure _

private theorem mirrors_leafColumn (leaf : WhereLeaf) :
    Mirrors (leafColumn d leaf) (leafColumn d leaf.shape) := by
  unfold leafColumn
  have absent : leaf.shape.absent? = leaf.absent? := rfl
  rw [absent]
  cases leaf.absent? with
  | none => exact mirrors_pure _
  | some value => exact Mirrors.arranged _ (mirrors_literal value value)

private theorem mirrors_membership (leaf : WhereLeaf) (column : Fragment) :
    Mirrors (membership d leaf column) (membership d leaf.shape column) := by
  obtain ⟨ref, op, operand, absent?, casefold⟩ := leaf
  cases operand with
  | literal value =>
      cases value with
      | list items => exact Mirrors.arranged _ (mirrors_literals (List.length_map _).symm)
      | _ => exact Mirrors.arranged _ (mirrors_literal _ _)
  | «variable» name => exact mirrors_push (.same _)
  | raw sql => exact mirrors_pure _

private theorem mirrors_leaf (leaf : WhereLeaf) :
    Mirrors (leafFragment d leaf) (leafFragment d leaf.shape) := by
  refine Mirrors.bind (mirrors_leafColumn d leaf) fun column => ?_
  have op : leaf.shape.op = leaf.op := rfl
  rw [op]
  split
  · exact mirrors_membership d leaf column
  · exact Mirrors.arranged _ (mirrors_operand (patternOf? leaf.op) leaf.operand)

mutual

private theorem mirrors_group (g : WhereGroup) :
    Mirrors (groupFragment d g) (groupFragment d g.shape) := by
  cases g with
  | const value => cases value <;> exact mirrors_pure _
  | all parts => exact Mirrors.arranged _ (mirrors_groups parts)
  | any parts => exact Mirrors.arranged _ (mirrors_groups parts)
  | not part => exact Mirrors.arranged _ (mirrors_group part)
  | leaf l => exact mirrors_leaf d l
  | null column negated => exact mirrors_pure _

theorem mirrors_groups (gs : List WhereGroup) :
    Mirrors (groupFragments d gs) (groupFragments d (WhereGroup.shapes gs)) := by
  cases gs with
  | nil => exact mirrors_pure []
  | cons g gs => exact Mirrors.bind (mirrors_group g) fun f => Mirrors.arranged _ (mirrors_groups gs)

end

theorem mirrors_condition (filter? : Option WhereGroup) :
    Mirrors (whereFragment d filter?) (whereFragment d (filter?.map WhereGroup.shape)) := by
  cases filter? with
  | none => exact mirrors_pure []
  | some g =>
      have whole := Mirrors.arranged (raw " WHERE " ++ ·) (mirrors_group d g)
      cases g with
      | const value =>
          cases value with
          | true => exact mirrors_pure []
          | false => exact whole
      | _ => exact whole

private theorem mirrors_rowCount (n? : Option UInt64) :
    Mirrors (rowCountSlot n?) (rowCountSlot (n?.map fun _ => 0)) := by
  cases n? with
  | none => exact mirrors_pure none
  | some n => exact Mirrors.arranged some (mirrors_literal _ _)

/-! ### Statements of one shape -/

def Selection.shape (s : Selection) : Selection :=
  { s with
    filter? := s.filter?.map WhereGroup.shape
    limit? := s.limit?.map fun _ => 0
    offset? := s.offset?.map fun _ => 0 }

def Emission.shape : Emission → Emission
  | .select m s => .select m s.shape
  | .selectIds m s => .selectIds m s.shape
  | .count m joins filter? => .count m joins (filter?.map WhereGroup.shape)
  | .insert table columns rows =>
    .insert table columns (rows.map fun row => row.map fun _ => .blank)
  | .update table set key ids =>
    .update table (set.map fun assigned => (assigned.1, .blank)) key (ids.map fun _ => 0)
  | .setNull table column ids => .setNull table column (ids.map fun _ => 0)
  | .delete table column ids => .delete table column (ids.map fun _ => 0)
  | .selectWhereIn table columns column ids =>
    .selectWhereIn table columns column (ids.map fun _ => 0)

private theorem mirrors_selection (columns : List ColumnRef) (s : Selection) :
    Mirrors (selectionFragment d columns s) (selectionFragment d columns s.shape) := by
  refine Mirrors.bind (mirrors_condition d s.filter?) fun condition => ?_
  refine Mirrors.arranged _ ?_
  refine Mirrors.bind (mirrors_rowCount s.limit?) fun limit => ?_
  exact Mirrors.arranged _ (mirrors_rowCount s.offset?)

private theorem forall₂_map_right {r : α → β → Prop} {f : α → β} (items : List α)
    (each : ∀ item, r item (f item)) : List.Forall₂ r items (items.map f) := by
  induction items with
  | nil => exact List.Forall₂.nil
  | cons item rest ih => exact List.Forall₂.cons (each item) ih

private theorem Emission.mirrors_shape (e : Emission) : Mirrors (e.writer d) (e.shape.writer d) := by
  have idsMirror (ids : List Int64) : Mirrors (Writer.ids ids) (Writer.ids (ids.map fun _ => 0)) :=
    mirrors_ids (List.length_map _).symm
  cases e with
  | select m s => exact mirrors_selection d _ s
  | selectIds m s => exact mirrors_selection d _ s
  | count m joins filter? => exact Mirrors.arranged _ (mirrors_condition d filter?)
  | insert table columns rows =>
      refine Mirrors.arranged _ (mirrors_mapM (forall₂_map_right rows fun row => ?_))
      exact Mirrors.arranged _ (mirrors_literals (List.length_map _).symm)
  | update table set key ids =>
      refine Mirrors.bind (mirrors_mapM (forall₂_map_right set fun assigned => ?_)) fun sets => ?_
      · exact Mirrors.arranged _ (mirrors_literal _ _)
      · exact Mirrors.arranged _ (idsMirror ids)
  | setNull table column ids => exact Mirrors.arranged _ (idsMirror ids)
  | delete table column ids => exact Mirrors.arranged _ (idsMirror ids)
  | selectWhereIn table columns column ids => exact Mirrors.arranged _ (idsMirror ids)

/-! ### Templates of the same text -/

def Template.slotNames (t : Template) : List (String × String) :=
  (List.range t.sources.length).map fun index =>
    (slotName index, Template.slotPlaceholder t.placeholders index)

/-- The templates cannot be told apart by their text, nor can the statements that the same bindings
make of them. -/
structure SameText (t u : Template) : Prop where
  sql : t.sql = u.sql
  slots : t.slotNames = u.slotNames
  bound : ∀ bindings, (t.bind bindings).map (·.sql) = (u.bind bindings).map (·.sql)

private theorem SameText.symm {t u : Template} (same : SameText t u) : SameText u t where
  sql := same.sql.symm
  slots := same.slots.symm
  bound bindings := (same.bound bindings).symm

private theorem SameText.trans {t u v : Template} (first : SameText t u) (second : SameText u v) :
    SameText t v where
  sql := first.sql.trans second.sql
  slots := first.slots.trans second.slots
  bound bindings := (first.bound bindings).trans (second.bound bindings)

private theorem slotTexts_alike {sources others : List SlotSource} (each : AlikeEach sources others)
    (style : Placeholders) (index : Nat) :
    Template.slotTexts style index sources = Template.slotTexts style index others := by
  induction each generalizing index with
  | nil => rfl
  | cons first rest ih =>
      rw [Template.slotTexts, Template.slotTexts, ih]
      cases first <;> rfl

theorem map_bind_congr {ε γ δ : Type} {x y : Except ε α} {shown : α → β}
    {next last : α → Except ε γ} {seen : γ → δ} (same : x.map shown = y.map shown)
    (rest : ∀ a b, shown a = shown b → (next a).map seen = (last b).map seen) :
    (x >>= next).map seen = (y >>= last).map seen := by
  cases x with
  | error e =>
      cases y with
      | error e' =>
          cases same
          rfl
      | ok b => cases same
  | ok a =>
      cases y with
      | error e' => cases same
      | ok b => exact rest a b (Except.ok.inj same)

def BoundSlot.outside (slot : BoundSlot) : String × Nat :=
  (slot.text, slot.params.length)

private theorem bindSlot_alike {source other : SlotSource} (alike : source.Alike other)
    (style : Placeholders) (bindings : Bindings) (index position : Nat) :
    (Template.bindSlot style bindings index position source).map BoundSlot.outside =
      (Template.bindSlot style bindings index position other).map BoundSlot.outside := by
  cases alike <;> rfl

/-- Bound slots alike have the same texts; their parameters are counted alike, so later ones have
the same numbers. -/
theorem bindSlots_alike {sources others : List SlotSource} (each : AlikeEach sources others)
    (style : Placeholders) (bindings : Bindings) (index position : Nat) :
    (Template.bindSlots style bindings index position sources).map (·.map (·.text)) =
      (Template.bindSlots style bindings index position others).map (·.map (·.text)) := by
  induction each generalizing index position with
  | nil => rfl
  | cons first rest ih =>
      refine map_bind_congr (bindSlot_alike first style bindings index position)
        fun slot slot' outside => ?_
      have text : slot.text = slot'.text := congrArg Prod.fst outside
      have count : slot.params.length = slot'.params.length := congrArg Prod.snd outside
      rw [count]
      refine map_bind_congr (ih (index + 1) (position + slot'.params.length))
        fun slots slots' texts => ?_
      exact congrArg Except.ok (congrArg₂ List.cons text texts)

private theorem sameText_of_alike {style : Placeholders} {sources others : List SlotSource}
    (each : AlikeEach sources others) (pieces : List Piece) :
    SameText ⟨style, sources, pieces⟩ ⟨style, others, pieces⟩ where
  sql := congrArg (Template.fill pieces) (slotTexts_alike each style 0)
  slots := by
    unfold Template.slotNames
    rw [each.length_eq]
  bound bindings := by
    refine map_bind_congr (bindSlots_alike each style bindings 0 1) fun slots slots' texts => ?_
    exact congrArg Except.ok (congrArg (Template.fill pieces) texts)

theorem Mirrors.sameText {w v : Writer Fragment} (mirrors : Mirrors w v) :
    SameText (Writer.finish d w) (Writer.finish d v) := by
  obtain ⟨same, each⟩ := mirrors [] [] List.Forall₂.nil
  show SameText ⟨d.placeholders, (w.run []).2, pieces (w.run []).2.length (marked (w.run []).1)⟩
    ⟨d.placeholders, (v.run []).2, pieces (v.run []).2.length (marked (v.run []).1)⟩
  rw [same, ← each.length_eq]
  exact sameText_of_alike each _

private theorem Emission.sameText_of_shape {e f : Emission} (same : e.shape = f.shape) :
    SameText (e.template d) (f.template d) := by
  have first := (e.mirrors_shape d).sameText d
  have second := (f.mirrors_shape d).sameText d
  rw [← template_eq] at first second
  rw [same] at first
  exact first.trans second.symm

/-! ### Selections from predicates -/

def orderClause (schema : Schema) (model : EntityModel) (order : List (String × Direction)) :
    Resolve (List OrderTerm) :=
  order.mapM fun (path, direction) => do
    let (column, _) ← Resolve.column schema model path
    return ({ column, direction } : OrderTerm)

def clauses (schema : Schema) (model : EntityModel) (p : Predicate)
    (order : List (String × Direction)) : Resolve (WhereGroup × List OrderTerm) := do
  let filter ← Resolve.filter schema model p
  let terms ← orderClause schema model order
  return (filter, terms)

def Selection.resolve (schema : Schema) (model : EntityModel) (p : Predicate)
    (order : List (String × Direction)) (limit? offset? : Option UInt64) :
    Except TranslateError Selection :=
  match Resolve.runOn model (clauses schema model p order) with
  | (.ok (filter, order), joins) => .ok { joins, filter? := some filter, order, limit?, offset? }
  | (.error e, _) => .error e

theorem compile_eq {σ ε : Type} (env : Setting σ) (q : Query ε) (p : Predicate)
    (given : q.filter? = some p) :
    q.compile env =
      (Selection.resolve env.schema q.type.model p q.order q.limit? q.offset?).map
        (select (Storage.dialect env q.storage) q.type.model) := by
  have resolved : q.resolve env = (do
      let filter ← Resolve.filter env.schema q.type.model p
      let terms ← orderClause env.schema q.type.model q.order
      return (some filter, terms)) := by
    unfold Query.resolve Builder.resolveFilter
    rw [given]
    simp only [bind_assoc, pure_bind]
    rfl
  have ran {α : Type} (r : Resolve α) : Resolve.runOn q.type.model r =
      r.answer (JoinGraph.ofModel q.type.model) := rfl
  unfold Query.compile Selection.resolve clauses
  rw [resolved, ran, ran, Resolve.answer_bind, Resolve.answer_bind]
  obtain ⟨filtered, reached⟩ :=
    (Resolve.filter env.schema q.type.model p).answer (JoinGraph.ofModel q.type.model)
  cases filtered with
  | error e => rfl
  | ok g =>
      dsimp only
      rw [Resolve.answer_bind, Resolve.answer_bind]
      obtain ⟨ordered, after⟩ := (orderClause env.schema q.type.model q.order).answer reached
      cases ordered <;> rfl

/-- A resolved selection has the filter of the predicate, and then the order. -/
theorem Selection.resolve_ok {schema : Schema} {model : EntityModel} {p : Predicate}
    {order : List (String × Direction)} {limit? offset? : Option UInt64} {s : Selection}
    (resolved : resolve schema model p order limit? offset? = .ok s) :
    ∃ g reached terms after,
      (Resolve.filter schema model p).answer (JoinGraph.ofModel model) = (.ok g, reached)
        ∧ (orderClause schema model order).answer reached = (.ok terms, after)
        ∧ s = { joins := after, filter? := some g, order := terms, limit?, offset? } := by
  unfold resolve at resolved
  split at resolved
  · next filter terms joins answered =>
      obtain ⟨g, reached, first, answered⟩ := Resolve.of_bind answered
      obtain ⟨others, after, second, answered⟩ := Resolve.of_bind answered
      cases answered
      cases resolved
      exact ⟨_, _, _, _, first, second, rfl⟩
  · cases resolved

private theorem Selection.resolve_shape {schema : Schema} {model : EntityModel} {p q : Predicate}
    {order : List (String × Direction)} {limit? offset? limit'? offset'? : Option UInt64}
    {s t : Selection} (same : p.shape = q.shape) (limits : limit?.isSome = limit'?.isSome)
    (offsets : offset?.isSome = offset'?.isSome)
    (first : resolve schema model p order limit? offset? = .ok s)
    (second : resolve schema model q order limit'? offset'? = .ok t) :
    s.joins = t.joins ∧ s.shape = t.shape := by
  obtain ⟨g, reached, terms, after, filtered, ordered, rfl⟩ := resolve_ok first
  obtain ⟨g', reached', terms', after', filtered', ordered', rfl⟩ := resolve_ok second
  have shaped := Resolve.filter_shape p filtered
  have shaped' := Resolve.filter_shape q filtered'
  rw [same, shaped'] at shaped
  injection shaped with groups tables
  rw [← tables, ordered'] at ordered
  cases ordered
  have blank {n? m? : Option UInt64} (present : n?.isSome = m?.isSome) :
      n?.map (fun _ => (0 : UInt64)) = m?.map fun _ => 0 := by
    cases n? <;> cases m? <;> first | rfl | cases present
  refine ⟨rfl, ?_⟩
  unfold shape
  dsimp only
  rw [blank limits, blank offsets, Option.map_some, Option.map_some, Except.ok.inj groups]

/-! ### Values and text -/

private theorem blank_ids {ids ids' : List Int64} (count : ids.length = ids'.length) :
    ids.map (fun _ => (0 : Int64)) = ids'.map fun _ => 0 := by
  rw [List.map_const', List.map_const', count]

private theorem blank_rows {rows rows' : List (List Value)}
    (lengths : rows.map List.length = rows'.map List.length) :
    rows.map (fun row => row.map fun _ => Value.blank) =
      rows'.map fun row => row.map fun _ => Value.blank := by
  have each (rows : List (List Value)) : rows.map (fun row => row.map fun _ => Value.blank) =
      (rows.map List.length).map fun n => List.replicate n Value.blank := by
    rw [List.map_map]
    exact List.map_congr_left fun row _ => List.map_const'
  rw [each, each, lengths]

private theorem blank_assigned {set set' : List (String × Value)}
    (columns : set.map Prod.fst = set'.map Prod.fst) :
    set.map (fun assigned => (assigned.1, Value.blank)) =
      set'.map fun assigned => (assigned.1, Value.blank) := by
  have each (set : List (String × Value)) : set.map (fun assigned => (assigned.1, Value.blank)) =
      (set.map Prod.fst).map fun column => (column, Value.blank) := by
    rw [List.map_map]
    rfl
  rw [each, each, columns]

/-- No literal, id, number of rows or name of a table that is looked for has a part in the text of a
statement. -/
theorem text_independent_of_values (d : Dialect) :
    (∀ (schema : Schema) (model : EntityModel) (p q : Predicate)
        (order : List (String × Direction)) (limit? offset? limit'? offset'? : Option UInt64)
        (s t : Selection), p.shape = q.shape → limit?.isSome = limit'?.isSome →
        offset?.isSome = offset'?.isSome →
        Selection.resolve schema model p order limit? offset? = .ok s →
        Selection.resolve schema model q order limit'? offset'? = .ok t →
        s.joins = t.joins
          ∧ SameText (select d model s) (select d model t)
          ∧ SameText (selectIds d model s) (selectIds d model t)
          ∧ SameText (count d model s.joins s.filter?) (count d model t.joins t.filter?))
      ∧ (∀ table columns rows rows', rows.map List.length = rows'.map List.length →
          SameText (insert d table columns rows) (insert d table columns rows'))
      ∧ (∀ table set set' key ids ids', set.map Prod.fst = set'.map Prod.fst →
          ids.length = ids'.length →
          SameText (update d table set key ids) (update d table set' key ids'))
      ∧ (∀ table column ids ids', ids.length = ids'.length →
          SameText (setNull d table column ids) (setNull d table column ids')
            ∧ SameText (delete d table column ids) (delete d table column ids')
            ∧ ∀ columns, SameText (selectWhereIn d table columns column ids)
                (selectWhereIn d table columns column ids'))
      ∧ ∀ table table', SameText (tableProbe d table) (tableProbe d table') := by
  refine ⟨?_, ?_, ?_, ?_, ?_⟩
  · intro schema model p q order limit? offset? limit'? offset'? s t same limits offsets first second
    obtain ⟨joins, shapes⟩ := Selection.resolve_shape same limits offsets first second
    have filters : s.filter?.map WhereGroup.shape = t.filter?.map WhereGroup.shape :=
      congrArg Selection.filter? shapes
    refine ⟨joins, ?_, ?_, ?_⟩
    · exact Emission.sameText_of_shape d (e := .select model s) (f := .select model t)
        (congrArg (Emission.select model) shapes)
    · exact Emission.sameText_of_shape d (e := .selectIds model s) (f := .selectIds model t)
        (congrArg (Emission.selectIds model) shapes)
    · exact Emission.sameText_of_shape d (e := .count model s.joins s.filter?)
        (f := .count model t.joins t.filter?) (congrArg₂ (Emission.count model) joins filters)
  · intro table columns rows rows' lengths
    exact Emission.sameText_of_shape d (e := .insert table columns rows)
      (f := .insert table columns rows')
      (congrArg (Emission.insert table columns) (blank_rows lengths))
  · intro table set set' key ids ids' columns count
    exact Emission.sameText_of_shape d (e := .update table set key ids)
      (f := .update table set' key ids')
      (congrArg₂ (Emission.update table · key) (blank_assigned columns) (blank_ids count))
  · intro table column ids ids' count
    refine ⟨?_, ?_, fun columns => ?_⟩
    · exact Emission.sameText_of_shape d (e := .setNull table column ids)
        (f := .setNull table column ids')
        (congrArg (Emission.setNull table column) (blank_ids count))
    · exact Emission.sameText_of_shape d (e := .delete table column ids)
        (f := .delete table column ids') (congrArg (Emission.delete table column) (blank_ids count))
    · exact Emission.sameText_of_shape d (e := .selectWhereIn table columns column ids)
        (f := .selectWhereIn table columns column ids')
        (congrArg (Emission.selectWhereIn table columns column) (blank_ids count))
  · intro table table'
    exact Mirrors.sameText d (Mirrors.arranged _ (mirrors_literal _ _))

def notes : EntityModel where
  own :=
    { path := "Note"
      table := "notes"
      primaryKey := "id"
      columns := [Column.generatedKey "id", Column.text "body" .text] }

def notesOf (body : String) (others : List Value) : Predicate :=
  .all [.compare { field := "body", op := .eq, operand := .literal (.text body) },
    .compare { field := "id", op := .notIn, operand := .literal (.list others) }]

def notesSelection (body : String) (others : List Value) (limit : UInt64) : Selection where
  joins := JoinGraph.ofModel notes
  filter? := some (.all
    [.leaf ⟨⟨⟨0⟩, "body"⟩, .eq, .literal (.text body), none, false⟩,
      .leaf ⟨⟨⟨0⟩, "id"⟩, .notIn, .literal (.list others), none, false⟩])
  order := [⟨⟨⟨0⟩, "id"⟩, .descending⟩]
  limit? := some limit

/-- A text that would be SQL is no more than another text. -/
theorem text_independent_of_notes :
    Selection.resolve ⟨fun _ => notes⟩ notes (notesOf "milk" [.int 1, .int 2])
        [("id", .descending)] (some 5) none = .ok (notesSelection "milk" [.int 1, .int 2] 5)
      ∧ Selection.resolve ⟨fun _ => notes⟩ notes (notesOf "' OR 1 = 1 --" [.text "x", .int 7])
          [("id", .descending)] (some 9) none =
        .ok (notesSelection "' OR 1 = 1 --" [.text "x", .int 7] 9)
      ∧ SameText (select .postgres notes (notesSelection "milk" [.int 1, .int 2] 5))
          (select .postgres notes (notesSelection "' OR 1 = 1 --" [.text "x", .int 7] 9))
      ∧ SameText (delete .sqlite "notes" "id" [1, 2]) (delete .sqlite "notes" "id" [3, 4]) := by
  have first : Selection.resolve ⟨fun _ => notes⟩ notes (notesOf "milk" [.int 1, .int 2])
      [("id", .descending)] (some 5) none = .ok (notesSelection "milk" [.int 1, .int 2] 5) := rfl
  have second : Selection.resolve ⟨fun _ => notes⟩ notes
      (notesOf "' OR 1 = 1 --" [.text "x", .int 7]) [("id", .descending)] (some 9) none =
        .ok (notesSelection "' OR 1 = 1 --" [.text "x", .int 7] 9) := rfl
  have selected := (text_independent_of_values .postgres).1 ⟨fun _ => notes⟩ notes
    (notesOf "milk" [.int 1, .int 2]) (notesOf "' OR 1 = 1 --" [.text "x", .int 7])
    [("id", .descending)] (some 5) none (some 9) none _ _ rfl rfl rfl first second
  have deleted := (text_independent_of_values .sqlite).2.2.2.1 "notes" "id" [1, 2] [3, 4] rfl
  exact ⟨first, second, selected.2.1, deleted.2.1⟩

end EntityStore.Sql
