import EntityStore.Proofs.Filter.Instance
import EntityStore.Proofs.Sql.Decoding
import EntityStore.Proofs.Sql.Independence

/-!
Prepared statements. A statement whose variables are bound when it is run fails just if the statement
with the values in their places cannot be made, and else the two are the same: the same text and the
same values. The one difference is a filter that is nothing but the exclusion of an empty list.
-/

namespace EntityStore.Sql

variable {α β : Type} {bindings : Bindings}

/-! ### Slots that can be bound -/

def SlotSource.fits (bindings : Bindings) : SlotSource → Bool
  | .literal _ => true
  | .variable name pattern? =>
    (bindings.lookup name).any fun value => (Template.scalarValue name pattern? value).isOk
  | .list name _ _ => (bindings.lookup name).any fun value => (Template.listItems name value).isOk

theorem isOk_iff {ε : Type} {x : Except ε α} : x.isOk = true ↔ ∃ a, x = .ok a := by
  cases x with
  | ok a => exact ⟨fun _ => ⟨a, rfl⟩, fun _ => rfl⟩
  | error e => exact ⟨fun h => (Bool.noConfusion h), fun ⟨a, h⟩ => by cases h⟩

theorem isOk_bind {ε : Type} {x : Except ε α} {next : α → Except ε β} {rest : Bool}
    (later : ∀ a, (next a).isOk = rest) : (x >>= next).isOk = (x.isOk && rest) := by
  cases x with
  | ok a => exact later a
  | error e => rfl

theorem isOk_returning {ε : Type} {x : Except ε α} {next : α → Except ε β}
    (done : ∀ a, (next a).isOk = true) : (x >>= next).isOk = x.isOk := by
  rw [isOk_bind done, Bool.and_true]

private theorem bindSlot_isOk (style : Placeholders) (index position : Nat) (source : SlotSource) :
    (Template.bindSlot style bindings index position source).isOk = source.fits bindings := by
  cases source with
  | literal value => rfl
  | «variable» name pattern? =>
      rw [SlotSource.fits, Template.bindSlot, Template.lookup]
      cases bindings.lookup name with
      | none => rfl
      | some value =>
          exact isOk_returning (x := Template.scalarValue name pattern? value) fun _ => rfl
  | list name column negated =>
      rw [SlotSource.fits, Template.bindSlot, Template.lookup]
      cases bindings.lookup name with
      | none => rfl
      | some value =>
          refine isOk_returning (x := Template.listItems name value) fun items => ?_
          cases items <;> rfl

private theorem bindSlots_isOk (style : Placeholders) (index position : Nat)
    (sources : List SlotSource) :
    (Template.bindSlots style bindings index position sources).isOk =
      sources.all (·.fits bindings) := by
  induction sources generalizing index position with
  | nil => rfl
  | cons source rest ih =>
      rw [List.all_cons, ← bindSlot_isOk style index position source, Template.bindSlots]
      refine isOk_bind fun slot => ?_
      rw [← ih (index + 1) (position + slot.params.length)]
      exact isOk_returning fun _ => rfl

theorem bind_isOk (t : Template) : (t.bind bindings).isOk = t.sources.all (·.fits bindings) := by
  rw [← bindSlots_isOk t.placeholders 0 1 t.sources]
  exact isOk_returning fun _ => rfl

/-! ### What a writer asks for -/

def Asks (bindings : Bindings) (w : Writer α) (fit : Bool) : Prop :=
  ∀ before, ∃ added, (w.run before).2 = before ++ added ∧ added.all (·.fits bindings) = fit

theorem asks_pure (a : α) : Asks bindings (pure a) true :=
  fun before => ⟨[], (List.append_nil before).symm, rfl⟩

theorem asks_push (source : SlotSource) :
    Asks bindings (Writer.push source) (source.fits bindings) :=
  fun _ => ⟨[source], rfl, Bool.and_true _⟩

theorem Asks.bind {w : Writer α} {next : α → Writer β} {fit rest : Bool}
    (first : Asks bindings w fit) (second : ∀ a, Asks bindings (next a) rest) :
    Asks bindings (w >>= next) (fit && rest) := by
  intro before
  obtain ⟨added, ran, fits⟩ := first before
  obtain ⟨more, ranNext, fitsNext⟩ := second (w.run before).1 (w.run before).2
  refine ⟨added ++ more, ?_, ?_⟩
  · rw [← List.append_assoc, ← ran]
    exact ranNext
  · rw [List.all_append, fits, fitsNext]

theorem Asks.arranged {w : Writer α} {fit : Bool} (first : Asks bindings w fit) (next : α → β) :
    Asks bindings (w >>= fun a => pure (next a)) fit := by
  have whole := first.bind fun a => asks_pure (next a)
  rwa [Bool.and_true] at whole

theorem Asks.followed {w : Writer α} {next : α → Writer β} {fit : Bool} (first : Asks bindings w true)
    (second : ∀ a, Asks bindings (next a) fit) : Asks bindings (w >>= next) fit := by
  have whole := first.bind second
  rwa [Bool.true_and] at whole

private theorem asks_literals (values : List Value) : Asks bindings (Writer.literals values) true := by
  have each : Asks bindings (values.mapM Writer.literal) true := by
    induction values with
    | nil => exact asks_pure []
    | cons value rest ih =>
        rw [List.mapM_cons]
        exact (asks_push (.literal value)).followed fun f => ih.arranged (f :: ·)
  exact each.arranged _

private theorem asks_leafColumn (d : Dialect) (leaf : WhereLeaf) :
    Asks bindings (leafColumn d leaf) true := by
  unfold leafColumn
  cases leaf.absent? with
  | none => exact asks_pure _
  | some value => exact (asks_push (.literal value)).arranged _

private theorem takes_patterned {op : CompareOp} (member : op.isMembership = false) (name : String)
    (value : Value) :
    (Template.scalarValue name (patternOf? op) value).isOk = op.takes value := by
  cases op <;> cases value <;> first | rfl | cases member

private theorem takes_listed {op : CompareOp} (member : op.isMembership = true) (name : String)
    (value : Value) : (Template.listItems name value).isOk = op.takes value := by
  cases value with
  | list items =>
      rw [Template.listItems, CompareOp.takes, member, Bool.true_and]
      cases bad : items.find? fun v => v.isNull || v.isList with
      | none =>
          rw [List.find?_eq_none] at bad
          rw [List.any_eq_false.2 bad]
          rfl
      | some v =>
          rw [List.any_eq_true.2 ⟨v, List.mem_of_find?_eq_some bad, List.find?_some bad⟩]
          rfl
  | _ => cases op <;> first | rfl | cases member

private theorem asks_leaf (d : Dialect) (leaf : WhereLeaf) :
    Asks bindings (leafFragment d leaf) (leaf.fits bindings) := by
  unfold leafFragment WhereLeaf.fits
  refine (asks_leafColumn d leaf).followed fun column => ?_
  cases member : leaf.op.isMembership with
  | true =>
      rw [if_pos rfl, membership]
      cases leaf.operand with
      | raw sql => exact (asks_pure (raw sql)).arranged _
      | «variable» name =>
          have slot : Asks bindings _ _ :=
            asks_push (.list name (leafColumnText d leaf) (leaf.op == .notIn))
          simp only [SlotSource.fits, takes_listed member] at slot
          exact slot
      | literal value =>
          cases value with
          | list items => exact (asks_literals items).arranged _
          | _ => exact (asks_push (.literal _)).arranged _
  | false =>
      rw [if_neg Bool.false_ne_true]
      refine Asks.arranged ?_ _
      cases leaf.operand with
      | raw sql => exact asks_pure (raw sql)
      | literal value => exact asks_push (.literal _)
      | «variable» name =>
          have slot : Asks bindings _ _ := asks_push (.variable name (patternOf? leaf.op))
          simp only [SlotSource.fits, takes_patterned member] at slot
          exact slot

mutual

private theorem asks_group (d : Dialect) (g : WhereGroup) :
    Asks bindings (groupFragment d g) (g.fits bindings) := by
  cases g with
  | const value => cases value <;> exact asks_pure _
  | all parts => exact (asks_groups d parts).arranged _
  | any parts => exact (asks_groups d parts).arranged _
  | not part => exact (asks_group d part).arranged _
  | leaf l =>
      rw [WhereGroup.fits, WhereGroup.leaves, List.all_cons, List.all_nil, Bool.and_true]
      exact asks_leaf d l
  | null column negated => exact asks_pure _

theorem asks_groups (d : Dialect) (gs : List WhereGroup) :
    Asks bindings (groupFragments d gs) (WhereGroup.fitsEach bindings gs) := by
  cases gs with
  | nil => exact asks_pure []
  | cons g gs =>
      rw [WhereGroup.fitsEach, WhereGroup.leavesEach, List.all_append]
      exact (asks_group d g).bind fun f => (asks_groups d gs).arranged (f :: ·)

end

theorem asks_condition (d : Dialect) (g : WhereGroup) :
    Asks bindings (whereFragment d (some g)) (g.fits bindings) := by
  have whole : Asks bindings _ _ := (asks_group d g).arranged (raw " WHERE " ++ ·)
  cases g with
  | const value =>
      cases value with
      | true => exact asks_pure []
      | false => exact whole
  | _ => exact whole

private theorem asks_rowCount (n? : Option UInt64) : Asks bindings (rowCountSlot n?) true := by
  cases n? with
  | none => exact asks_pure none
  | some n => exact (asks_push (.literal (rowCount n))).arranged some

private theorem asks_selection (d : Dialect) (columns : List ColumnRef) {s : Selection}
    {g : WhereGroup}
    (filtered : s.filter? = some g) :
    Asks bindings (selectionFragment d columns s) (g.fits bindings) := by
  have page : Asks bindings (pageFragment d s.limit? s.offset? (!s.order.isEmpty)) true :=
    (asks_rowCount s.limit?).followed fun limit => (asks_rowCount s.offset?).arranged _
  rw [selectionFragment, filtered, ← Bool.and_true (g.fits bindings)]
  exact (asks_condition d g).bind fun condition => page.arranged _

/-! ### Filters with values in place of variables -/

section

variable (spell : Value → String) (d : Dialect)

private theorem inline_closed {l : WhereLeaf} (closed : ∀ name, l.operand ≠ .variable name) :
    Inline.leaf spell bindings d l = Inline.leaf spell [] d l := by
  obtain ⟨ref, op, operand, absent?, casefold⟩ := l
  cases operand with
  | «variable» name => exact (closed name rfl).elim
  | literal value => cases value <;> cases op <;> rfl
  | raw sql => cases op <;> rfl

private theorem inline_empty {l : WhereLeaf} {name : String} (opened : l.operand = .variable name)
    (known : bindings.lookup name = some (.list [])) (negated : Bool) :
    Inline.membershipLeaf spell bindings d l negated = if negated then "1 = 1" else "1 = 0" := by
  unfold Inline.membershipLeaf
  rw [opened]
  dsimp only
  rw [Inline.listVariable, known]
  rfl

private theorem inline_listed {l : WhereLeaf} {name : String} {item : Value} {rest : List Value}
    (opened : l.operand = .variable name)
    (known : bindings.lookup name = some (.list (item :: rest))) (negated : Bool) :
    Inline.membershipLeaf spell bindings d l negated =
      Inline.membershipLeaf spell [] d { l with operand := .literal (.list (item :: rest)) }
        negated := by
  unfold Inline.membershipLeaf
  rw [opened]
  dsimp only
  rw [Inline.listVariable, known]
  rfl

private theorem inline_scalar {l : WhereLeaf} {name : String} {value : Value}
    (opened : l.operand = .variable name) (known : bindings.lookup name = some value)
    (sign : String) (pattern? : Option PatternKind) :
    Inline.comparison spell bindings d l sign pattern? =
      Inline.comparison spell [] d { l with operand := .literal value } sign pattern? := by
  have operand : Inline.operand spell bindings pattern? (.variable name) =
      Inline.operand spell [] pattern? (.literal value) := by
    unfold Inline.operand Inline.scalarVariable
    dsimp only
    rw [known]
  unfold Inline.comparison
  rw [opened, operand]
  rfl

/-- A leaf reads the same with the value of its variable. -/
theorem inline_leaf_given {l : WhereLeaf} {g : WhereGroup} (instantiated : l.Instance bindings g) :
    Inline.leaf spell bindings d l = Inline.group spell [] d g := by
  cases instantiated with
  | closed closed => exact inline_closed spell d closed
  -- A leaf with the empty list has become a constant, all others are leaves still.
  | empty opened member known =>
      rw [Inline.leaf]
      cases op : l.op with
      | isIn => exact inline_empty spell d opened known false
      | notIn => exact inline_empty spell d opened known true
      | _ =>
          rw [op] at member
          cases member
  | listed opened member known =>
      rw [Inline.group, Inline.leaf, Inline.leaf]
      cases op : l.op with
      | isIn => exact inline_listed spell d opened known false
      | notIn => exact inline_listed spell d opened known true
      | _ =>
          rw [op] at member
          cases member
  | scalar opened single known =>
      have compared := inline_scalar spell d opened known
      rw [Inline.group, Inline.leaf, Inline.leaf]
      cases op : l.op with
      | isIn =>
          rw [op] at single
          cases single
      | notIn =>
          rw [op] at single
          cases single
      | contains => exact congrArg (· ++ d.likeEscape) (compared "LIKE" (some .contains))
      | startsWith => exact congrArg (· ++ d.likeEscape) (compared "LIKE" (some .startsWith))
      | endsWith => exact congrArg (· ++ d.likeEscape) (compared "LIKE" (some .endsWith))
      | _ => exact compared _ none

mutual

theorem inline_group_given (g : WhereGroup) (fits : g.fits bindings = true) :
    Inline.group spell bindings d g = Inline.group spell [] d (g.given bindings) := by
  cases g with
  | const value => cases value <;> rfl
  | all parts =>
      exact congrArg (Inline.bracketed " AND ") (inline_groups_given parts fits)
  | any parts =>
      exact congrArg (Inline.bracketed " OR ") (inline_groups_given parts fits)
  | not part =>
      exact congrArg (fun text => "NOT (" ++ text ++ ")") (inline_group_given part fits)
  | leaf l =>
      rw [WhereGroup.fits, WhereGroup.leaves, List.all_cons, List.all_nil, Bool.and_true] at fits
      exact inline_leaf_given spell d (WhereLeaf.given_instance fits)
  | null column negated => cases negated <;> rfl

theorem inline_groups_given (gs : List WhereGroup) (fits : WhereGroup.fitsEach bindings gs = true) :
    Inline.groups spell bindings d gs =
      Inline.groups spell [] d (WhereGroup.givenEach bindings gs) := by
  cases gs with
  | nil => rfl
  | cons g gs =>
      rw [WhereGroup.fitsEach, WhereGroup.leavesEach, List.all_append, Bool.and_eq_true] at fits
      exact congrArg₂ List.cons (inline_group_given g fits.1) (inline_groups_given gs fits.2)

end

theorem inline_condition_some {g : WhereGroup} (holds : g ≠ .const true) :
    Inline.condition spell bindings d (some g) = " WHERE " ++ Inline.group spell bindings d g := by
  cases g with
  | const value =>
      cases value with
      | true => exact (holds rfl).elim
      | false => rfl
  | _ => rfl

end

private theorem instance_closed {l : WhereLeaf} {g : WhereGroup}
    (instantiated : l.Instance bindings g) :
    g.fits [] = true := by
  cases instantiated with
  | closed closed =>
      rw [WhereGroup.fits, WhereGroup.leaves, List.all_cons, List.all_nil, Bool.and_true,
        WhereLeaf.fits]
      cases operand : l.operand with
      | «variable» name => exact (closed name operand).elim
      | _ => rfl
  | _ => rfl

mutual

private theorem given_closed (g : WhereGroup) (fits : g.fits bindings = true) :
    (g.given bindings).fits [] = true := by
  cases g with
  | const value => rfl
  | all parts => exact givenEach_closed parts fits
  | any parts => exact givenEach_closed parts fits
  | not part => exact given_closed part fits
  | leaf l =>
      rw [WhereGroup.fits, WhereGroup.leaves, List.all_cons, List.all_nil, Bool.and_true] at fits
      exact instance_closed (WhereLeaf.given_instance fits)
  | null column negated => rfl

theorem givenEach_closed (gs : List WhereGroup) (fits : WhereGroup.fitsEach bindings gs = true) :
    WhereGroup.fitsEach [] (WhereGroup.givenEach bindings gs) = true := by
  cases gs with
  | nil => rfl
  | cons g gs =>
      rw [WhereGroup.fitsEach, WhereGroup.leavesEach, List.all_append, Bool.and_eq_true] at fits
      rw [WhereGroup.givenEach, WhereGroup.fitsEach, WhereGroup.leavesEach, List.all_append,
        Bool.and_eq_true]
      exact ⟨given_closed g fits.1, givenEach_closed gs fits.2⟩

end

private theorem allFree_instance {l : WhereLeaf} {g : WhereGroup}
    (instantiated : l.Instance bindings g)
    (free : AllFree (Words.leaf l)) : AllFree (Words.group g) := by
  have column : AllFree [l.column.column] := fun word spelled =>
    free word (List.mem_singleton.1 spelled ▸ List.mem_cons_self)
  cases instantiated with
  | closed closed => exact free
  | empty opened member known => exact allFree_nil
  | listed opened member known => exact column
  | scalar opened single known => exact column

mutual

private theorem allFree_given (g : WhereGroup) (fits : g.fits bindings = true)
    (free : AllFree (Words.group g)) : AllFree (Words.group (g.given bindings)) := by
  cases g with
  | const value => exact free
  | all parts => exact allFree_givenEach parts fits free
  | any parts => exact allFree_givenEach parts fits free
  | not part => exact allFree_given part fits free
  | leaf l =>
      rw [WhereGroup.fits, WhereGroup.leaves, List.all_cons, List.all_nil, Bool.and_true] at fits
      exact allFree_instance (WhereLeaf.given_instance fits) free
  | null column negated => exact free

theorem allFree_givenEach (gs : List WhereGroup) (fits : WhereGroup.fitsEach bindings gs = true)
    (free : AllFree (Words.groups gs)) :
    AllFree (Words.groups (WhereGroup.givenEach bindings gs)) := by
  cases gs with
  | nil => exact free
  | cons g gs =>
      rw [WhereGroup.fitsEach, WhereGroup.leavesEach, List.all_append, Bool.and_eq_true] at fits
      obtain ⟨first, rest⟩ := allFree_append.1 free
      exact allFree_append.2 ⟨allFree_given g fits.1 first, allFree_givenEach gs fits.2 rest⟩

end

/-! ### Readings -/

inductive Reading
  | entities
  | ids
  | number
  deriving DecidableEq, Repr

namespace Reading

variable (d : Dialect) (m : EntityModel) (s : Selection)

def template : Reading → Template
  | entities => select d m s
  | ids => selectIds d m s
  | number => count d m s.joins s.filter?

def emission : Reading → Emission
  | entities => .select m s
  | ids => .selectIds m s
  | number => .count m s.joins s.filter?

def opening : Reading → String
  | entities => selectOpening (entityColumns m s.joins)
  | ids => selectOpening [idColumn m]
  | number =>
    "SELECT COUNT(" ++ (if s.joins.collection then "DISTINCT " ++ columnText d (idColumn m) else "*")
      ++ ") AS " ++ countColumn ++ fromText d s.joins
where
  selectOpening (columns : List ColumnRef) : String :=
    "SELECT " ++ (if s.joins.collection then "DISTINCT " else "")
      ++ ", ".intercalate (columns.map (selectItem d)) ++ fromText d s.joins

def closing (spell : Value → String) : Reading → String
  | number => ""
  | _ => orderText d s.order ++ Inline.paging spell d s.limit? s.offset? (!s.order.isEmpty)

variable {d m s}

theorem template_eq (r : Reading) : r.template d m s = (r.emission m s).template d := by
  cases r <;> rfl

private theorem inline_eq (r : Reading) (spell : Value → String) (bindings : Bindings) :
    (r.emission m s).inline spell bindings d =
      r.opening d m s ++ Inline.condition spell bindings d s.filter? ++ r.closing d s spell := by
  cases r with
  | number => exact String.append_empty.symm
  | _ => exact String.append_assoc

private theorem settled (r : Reading) (conditions : ConditionSettled s.filter?) :
    (r.emission m s).Settled := by
  cases r <;> exact conditions

theorem isOk {bindings : Bindings} (r : Reading) {g : WhereGroup} (filtered : s.filter? = some g) :
    ((r.template d m s).bind bindings).isOk = g.fits bindings := by
  have asks : Asks bindings ((r.emission m s).writer d) (g.fits bindings) := by
    cases r with
    | entities => exact asks_selection d _ filtered
    | ids => exact asks_selection d _ filtered
    | number =>
        rw [emission, Emission.writer, filtered]
        exact (asks_condition d g).arranged _
  obtain ⟨added, ran, fits⟩ := asks []
  rw [List.nil_append] at ran
  rw [template_eq, Emission.template_eq, bind_isOk, ← fits, ← ran]
  rfl

/-- The words of a filter with values are those of the filter. -/
theorem words_given {t : Selection} {bindings : Bindings} {g : WhereGroup} (r : Reading)
    (filtered : s.filter? = some g) (fits : g.fits bindings = true)
    (given : t = { s with filter? := some (g.given bindings) })
    (free : AllFree (r.emission m s).words) : AllFree (r.emission m t).words := by
  subst given
  have condition (words : List String) (free : AllFree (words ++ Words.condition s.filter?)) :
      AllFree (words ++ Words.condition (some (g.given bindings))) := by
    rw [filtered] at free
    obtain ⟨rest, own⟩ := allFree_append.1 free
    exact allFree_append.2 ⟨rest, allFree_given g fits own⟩
  cases r with
  | number => exact condition (_ :: Words.graph s.joins) free
  | _ =>
      obtain ⟨front, order⟩ := allFree_append.1 free
      exact allFree_append.2 ⟨condition _ front, order⟩

/-- What stands behind a condition are texts and the numbers of a page. -/
theorem closing_tokens (r : Reading) (s : Selection) :
    ∃ tokens, ∀ spell : Value → String,
      printed (fun p => spell p.value) tokens = r.closing .postgres s spell := by
  have page : ∃ tokens, ∀ spell : Value → String, printed (fun p => spell p.value) tokens =
      Inline.paging spell .postgres s.limit? s.offset? (!s.order.isEmpty) := by
    have number (spell : Value → String) (n : UInt64) : Inline.rowCount spell n = spell (rowCount n) :=
      (rowCount_eq spell n).symm
    cases limits : s.limit? with
    | none =>
        cases offsets : s.offset? with
        | none => exact ⟨[], fun spell => rfl⟩
        | some k =>
            refine ⟨[.text " OFFSET ", .param ⟨"", "", rowCount k⟩], fun spell => ?_⟩
            simp [printed_text, printed_param, printed_nil, Inline.paging, number]
    | some n =>
        cases offsets : s.offset? with
        | none =>
            refine ⟨[.text " LIMIT ", .param ⟨"", "", rowCount n⟩], fun spell => ?_⟩
            simp [printed_text, printed_param, printed_nil, Inline.paging, number]
        | some k =>
            refine ⟨[.text " LIMIT ", .param ⟨"", "", rowCount n⟩, .text " OFFSET ",
              .param ⟨"", "", rowCount k⟩], fun spell => ?_⟩
            simp [printed_text, printed_param, printed_nil, Inline.paging, number,
              String.append_assoc]
  obtain ⟨tokens, prints⟩ := page
  have ordered (spell : Value → String) :
      printed (fun p => spell p.value) (.text (orderText .postgres s.order) :: tokens) =
        orderText .postgres s.order
          ++ Inline.paging spell .postgres s.limit? s.offset? (!s.order.isEmpty) := by
    rw [printed_text, prints]
  cases r with
  | number => exact ⟨[], fun spell => rfl⟩
  | _ => exact ⟨_, ordered⟩

end Reading

/-! ### Prepared and direct statements -/

section

variable {schema : Schema} {model : EntityModel} {p : Predicate}
  {order : List (String × Direction)} {limit? offset? : Option UInt64} {s : Selection}

/-- A selection with values is the selection with variables, given the values; or there is none. -/
theorem resolve_given (bindable : Bindable schema model bindings p.comparisons)
    (resolved : Selection.resolve schema model p order limit? offset? = .ok s) :
    ∃ g reached, (Resolve.filter schema model p).answer (JoinGraph.ofModel model) = (.ok g, reached)
      ∧ s.filter? = some g
      ∧ (g.fits bindings = true →
          (g.given bindings).Settled
            ∧ Selection.resolve schema model (p.given bindings) order limit? offset? =
              .ok { s with filter? := some (g.given bindings) })
      ∧ (g.fits bindings = false →
          ∃ e, Selection.resolve schema model (p.given bindings) order limit? offset? =
            .error e) := by
  obtain ⟨g, reached, terms, after, filtered, ordered, rfl⟩ := Selection.resolve_ok resolved
  have gives := Resolve.filter_given_values p bindable filtered
  refine ⟨g, reached, filtered, rfl, fun fits => ?_, fun unfit => ?_⟩
  · have given := gives.fitting fits
    refine ⟨Resolve.filter_settled _ given, ?_⟩
    have whole : Resolve.runOn model (clauses schema model (p.given bindings) order) =
        (.ok (g.given bindings, terms), after) := by
      show (clauses schema model (p.given bindings) order).answer (JoinGraph.ofModel model) = _
      rw [clauses, Resolve.answer_bind, given]
      dsimp only
      rw [Resolve.answer_bind, ordered]
      rfl
    rw [Selection.resolve, whole]
  · obtain ⟨e, failedAt, failed⟩ := gives.failing unfit
    have whole : Resolve.runOn model (clauses schema model (p.given bindings) order) =
        (.error e, failedAt) := by
      show (clauses schema model (p.given bindings) order).answer (JoinGraph.ofModel model) = _
      rw [clauses, Resolve.answer_bind, failed]
    exact ⟨e, by rw [Selection.resolve, whole]⟩

/-- Unless an empty list is all that is excluded, a condition reads the same with values. -/
theorem inline_condition_given {before after : JoinGraph} {g : WhereGroup}
    (fits : g.fits bindings = true)
    (resolved : (Resolve.filter schema model p).answer before = (.ok g, after))
    (other : ¬ p.ExcludesNone bindings) (spell : Value → String) (d : Dialect) :
    Inline.condition spell bindings d (some g) =
      Inline.condition spell [] d (some (g.given bindings)) := by
  -- With values in it, a condition that always holds is left out, and no text stands for it.
  by_cases whole : g.given bindings = .const true
  · rcases Resolve.excludesNone_of_given fits resolved whole with rfl | excludes
    · rfl
    · exact (other excludes).elim
  · have conditional : g ≠ .const true := by
      rintro rfl
      exact whole rfl
    rw [inline_condition_some spell d conditional, inline_condition_some spell d whole,
      inline_group_given spell d g fits]

/-- Tokens that read as a reading whose condition has variables, or values in their places. -/
def ReadsAs (r : Reading) (model : EntityModel) (s : Selection) (bindings : Bindings)
    (g : WhereGroup) (tokens : List Token) : Prop :=
  ∀ spell : Value → String, printed (fun p => spell p.value) tokens =
    r.opening .postgres model s ++ Inline.condition spell bindings .postgres (some g)
      ++ r.closing .postgres s spell

section

variable {r : Reading} {reached : JoinGraph} {g : WhereGroup} {tokens others : List Token}
  (fits : g.fits bindings = true)
  (filtered : (Resolve.filter schema model p).answer (JoinGraph.ofModel model) = (.ok g, reached))
  (reads : ReadsAs r model s bindings g tokens)
  (readsOthers : ReadsAs r model s [] (g.given bindings) others)

include fits filtered reads readsOthers

private theorem tokens_agree (other : ¬ p.ExcludesNone bindings) :
    (paramsOf tokens).map (·.value) = (paramsOf others).map (·.value)
      ∧ completed (positions (paramsOf tokens).length) tokens =
        completed (positions (paramsOf others).length) others := by
  have alike := positional_known "" "" tokens others fun spell => by
    rw [reads, readsOthers, inline_condition_given fits filtered other spell .postgres]
  rwa [String.empty_append, String.empty_append] at alike

private theorem tokens_agree_excluding (excludes : p.ExcludesNone bindings) :
    (paramsOf tokens).map (·.value) = (paramsOf others).map (·.value)
      ∧ ∃ closing,
        completed (positions (paramsOf tokens).length) tokens =
            r.opening .postgres model s ++ " WHERE 1 = 1" ++ closing
          ∧ completed (positions (paramsOf others).length) others =
            r.opening .postgres model s ++ closing := by
  obtain ⟨conditional, whole⟩ := Resolve.given_of_excludesNone excludes filtered
  obtain ⟨rest, readsRest⟩ := r.closing_tokens s
  -- Behind the condition both read as the same tokens, so these have the values of either side.
  have first := positional_known "" (r.opening .postgres model s ++ " WHERE 1 = 1") tokens rest
    fun spell => by
      rw [String.empty_append, reads, readsRest, inline_condition_some spell .postgres conditional,
        inline_group_given spell .postgres g fits, whole]
      rfl
  have second := positional_known "" (r.opening .postgres model s) others rest fun spell => by
    rw [String.empty_append, readsOthers, readsRest, whole]
    exact congrArg (· ++ r.closing .postgres s spell) String.append_empty
  rw [String.empty_append] at first second
  exact ⟨first.1.trans second.1.symm, _, first.2, second.2⟩

end

/-- Binding fails just if the selection with values cannot be resolved. -/
theorem fails_together (bindable : Bindable schema model bindings p.comparisons)
    (resolved : Selection.resolve schema model p order limit? offset? = .ok s) (r : Reading)
    (d : Dialect) :
    (∃ e, (r.template d model s).bind bindings = .error e) ↔
      ∃ e, Selection.resolve schema model (p.given bindings) order limit? offset? = .error e := by
  obtain ⟨g, reached, filtered, condition, fitting, failing⟩ := resolve_given bindable resolved
  have binds : ((r.template d model s).bind bindings).isOk = g.fits bindings := r.isOk condition
  cases fits : g.fits bindings with
  | true =>
      rw [fits, isOk_iff] at binds
      obtain ⟨bound, binds⟩ := binds
      rw [binds, (fitting fits).2]
      exact ⟨nofun, nofun⟩
  | false =>
      refine ⟨fun _ => failing fits, fun _ => ?_⟩
      rw [fits] at binds
      cases bound : (r.template d model s).bind bindings with
      | ok statement =>
          rw [bound] at binds
          cases binds
      | error e => exact ⟨e, rfl⟩

/-- Binding a prepared statement fails just if the statement with the values in their places cannot
be made. Else the two have the same values and, with positional placeholders, the same text; but
where an empty list is all that is excluded, the prepared one has a condition that always holds. -/
theorem prepared_agrees_with_direct (bindable : Bindable schema model bindings p.comparisons)
    (resolved : Selection.resolve schema model p order limit? offset? = .ok s) (r : Reading) :
    (∀ d, (∃ e, (r.template d model s).bind bindings = .error e) ↔
        ∃ e, Selection.resolve schema model (p.given bindings) order limit? offset? = .error e)
      ∧ ∀ t prepared,
          Selection.resolve schema model (p.given bindings) order limit? offset? = .ok t →
          (r.template .postgres model s).bind bindings = .ok prepared →
          AllFree (r.emission model s).words →
          ∃ direct, (r.template .postgres model t).bind [] = .ok direct
            ∧ prepared.values = direct.values
            ∧ (¬ p.ExcludesNone bindings → prepared.sql = direct.sql)
            ∧ (p.ExcludesNone bindings → ∃ closing,
                prepared.sql = r.opening .postgres model s ++ " WHERE 1 = 1" ++ closing
                  ∧ direct.sql = r.opening .postgres model s ++ closing) := by
  refine ⟨fails_together bindable resolved r, fun t prepared made bound free => ?_⟩
  obtain ⟨g, reached, filtered, condition, fitting, -⟩ := resolve_given bindable resolved
  have fits : g.fits bindings = true := by
    rw [← r.isOk (d := .postgres) (m := model) condition, bound]
    rfl
  obtain ⟨settled, given⟩ := fitting fits
  rw [given] at made
  cases made
  have closed : ((r.template .postgres model { s with filter? := some (g.given bindings) }).bind
      []).isOk = true := (r.isOk rfl).trans (given_closed g fits)
  obtain ⟨direct, directBound⟩ := isOk_iff.1 closed
  have conditions : ConditionSettled s.filter? := by
    rw [condition]
    rintro w ⟨⟩
    exact Resolve.filter_settled p filtered
  have conditionsGiven : ConditionSettled (some (g.given bindings)) := by
    rintro w ⟨⟩
    exact settled
  have known := directBound
  rw [Reading.template_eq] at bound known
  -- Both statements are known by tokens, and those by how they read in every spelling.
  obtain ⟨tokens, reads, values, text⟩ :=
    Emission.positional_tokens free (r.settled conditions) bound
  obtain ⟨others, readsOthers, valuesOthers, textOthers⟩ :=
    Emission.positional_tokens (r.words_given condition fits rfl free)
      (r.settled conditionsGiven) known
  simp only [Reading.inline_eq, condition] at reads readsOthers
  refine ⟨direct, directBound, ?_⟩
  rw [values, valuesOthers, text, textOthers]
  by_cases excludes : p.ExcludesNone bindings
  · obtain ⟨same, texts⟩ := tokens_agree_excluding fits filtered reads readsOthers excludes
    exact ⟨same, fun other => (other excludes).elim, fun _ => texts⟩
  · obtain ⟨same, texts⟩ := tokens_agree fits filtered reads readsOthers excludes
    exact ⟨same, fun _ => texts, fun only => (excludes only).elim⟩

end

def openNotes : Predicate :=
  .all [.compare { field := "id", op := .isIn, operand := .variable "ids" },
    .compare { field := "body", op := .startsWith, operand := .variable "begin" }]

def openNotesSelection : Selection where
  joins := JoinGraph.ofModel notes
  filter? := some (.all
    [.leaf ⟨⟨⟨0⟩, "id"⟩, .isIn, .variable "ids", none, false⟩,
      .leaf ⟨⟨⟨0⟩, "body"⟩, .startsWith, .variable "begin", none, false⟩])
  limit? := some 5

def noteValues : Bindings :=
  [("ids", .list [.int 4, .int 9]), ("begin", .text "milk")]

def noteStatement : Statement where
  sql := "SELECT t0.\"id\" AS \"id\" FROM \"notes\" t0 WHERE (t0.\"id\" IN ($1, $2) AND "
    ++ "t0.\"body\" LIKE $3 ESCAPE '\\') LIMIT $4"
  params := [⟨"p0_0", "$1", .int 4⟩, ⟨"p0_1", "$2", .int 9⟩, ⟨"p1", "$3", .text "milk%"⟩,
    ⟨"p2", "$4", .int 5⟩]

private theorem openNotes_bindable :
    Bindable ⟨fun _ => notes⟩ notes noteValues openNotes.comparisons where
  bound := by
    refine List.forall_mem_cons.2 ⟨?_, List.forall_mem_cons.2 ⟨?_, nofun⟩⟩
    · rintro name ⟨⟩
      exact ⟨_, rfl, rfl⟩
    · rintro name ⟨⟩
      exact ⟨_, rfl, rfl⟩
  settled := List.forall_mem_cons.2 ⟨nofun, List.forall_mem_cons.2 ⟨nofun, nofun⟩⟩

set_option maxRecDepth 4000 in
/-- Prepared or not, the notes are asked for alike. -/
theorem prepared_notes :
    Selection.resolve ⟨fun _ => notes⟩ notes openNotes [] (some 5) none = .ok openNotesSelection
      ∧ (Reading.ids.template .postgres notes openNotesSelection).bind noteValues =
        .ok noteStatement
      ∧ ∃ t direct, Selection.resolve ⟨fun _ => notes⟩ notes (openNotes.given noteValues) []
          (some 5) none = .ok t
        ∧ (Reading.ids.template .postgres notes t).bind [] = .ok direct
        ∧ noteStatement.values = direct.values ∧ noteStatement.sql = direct.sql := by
  have resolved : Selection.resolve ⟨fun _ => notes⟩ notes openNotes [] (some 5) none =
      .ok openNotesSelection := rfl
  have bound : (Reading.ids.template .postgres notes openNotesSelection).bind noteValues =
      .ok noteStatement := rfl
  have several : ¬ openNotes.ExcludesNone noteValues := by
    rintro ⟨field, name, casefold, single, -⟩
    cases single
  obtain ⟨direct, directBound, values, text, -⟩ :=
    (prepared_agrees_with_direct openNotes_bindable resolved .ids).2 _ _ rfl bound (by decide)
  exact ⟨resolved, bound, _, direct, rfl, directBound, values, text several⟩

def markedNotes : Predicate :=
  .all [.compare { field := "id", op := .isIn, operand := .variable "ids" },
    .compare { field := "id", op := .eq, operand := .raw "\x010\x01" }]

def markedNotesSelection (ids : Operand) : Selection where
  joins := JoinGraph.ofModel notes
  filter? := some (.all
    [.leaf ⟨⟨⟨0⟩, "id"⟩, .isIn, ids, none, false⟩,
      .leaf ⟨⟨⟨0⟩, "id"⟩, .eq, .raw "\x010\x01", none, false⟩])

def markedText (marked : String) : String :=
  "SELECT t0.\"id\" AS \"id\" FROM \"notes\" t0 WHERE (t0.\"id\" IN ($1, $2) AND t0.\"id\" = "
    ++ marked ++ ")"

set_option maxRecDepth 4000 in
/-- A fragment with the marks of a slot is not the same beside a variable and beside its value: the
slot is the whole membership there, and its first value here. -/
theorem marks_tell_prepared :
    Selection.resolve ⟨fun _ => notes⟩ notes markedNotes [] none none =
        .ok (markedNotesSelection (.variable "ids"))
      ∧ Bindable ⟨fun _ => notes⟩ notes noteValues markedNotes.comparisons
      ∧ Selection.resolve ⟨fun _ => notes⟩ notes (markedNotes.given noteValues) [] none none =
        .ok (markedNotesSelection (.literal (.list [.int 4, .int 9])))
      ∧ ((selectIds .postgres notes (markedNotesSelection (.variable "ids"))).bind noteValues).map
          (·.sql) = .ok (markedText "t0.\"id\" IN ($1, $2)")
      ∧ ((selectIds .postgres notes
          (markedNotesSelection (.literal (.list [.int 4, .int 9])))).bind []).map (·.sql) =
        .ok (markedText "$1")
      ∧ markedText "t0.\"id\" IN ($1, $2)" ≠ markedText "$1" := by
  refine ⟨rfl, ⟨?_, ?_⟩, rfl, rfl, rfl, by decide +kernel⟩
  · refine List.forall_mem_cons.2 ⟨?_, List.forall_mem_cons.2 ⟨nofun, nofun⟩⟩
    rintro name ⟨⟩
    exact ⟨_, rfl, rfl⟩
  · exact List.forall_mem_cons.2 ⟨nofun, List.forall_mem_cons.2 ⟨nofun, nofun⟩⟩

end EntityStore.Sql
