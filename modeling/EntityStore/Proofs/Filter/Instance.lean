import EntityStore.Proofs.Filter.History
import EntityStore.Sql.Template

/-!
Predicates with values in place of their variables. A predicate that resolves while its variables are
open resolves with values as well, to the same filter with the values in place, on the same tables;
unless a value does not fit the comparison that it is given to, and then it fails.
-/

namespace EntityStore

open Sql (Bindings)

/-! ### Values in place of variables -/

def Operand.given (bindings : Bindings) : Operand → Operand
  | .variable name => ((bindings.lookup name).map Operand.literal).getD (.variable name)
  | other => other

def Comparison.given (bindings : Bindings) (c : Comparison) : Comparison :=
  { c with operand := c.operand.given bindings }

namespace Predicate

mutual

def given (bindings : Bindings) : Predicate → Predicate
  | all parts => all (givenEach bindings parts)
  | any parts => any (givenEach bindings parts)
  | not part => not (given bindings part)
  | compare c => compare (c.given bindings)
  | other => other

def givenEach (bindings : Bindings) : List Predicate → List Predicate
  | [] => []
  | p :: ps => given bindings p :: givenEach bindings ps

end

mutual

def comparisons : Predicate → List Comparison
  | all parts | any parts => comparisonsEach parts
  | not part => comparisons part
  | compare c => [c]
  | _ => []

def comparisonsEach : List Predicate → List Comparison
  | [] => []
  | p :: ps => comparisons p ++ comparisonsEach ps

end

/-- The predicate is nothing but the exclusion of a list that is empty. -/
def ExcludesNone (bindings : Bindings) (p : Predicate) : Prop :=
  ∃ field name casefold, p = .compare ⟨field, .notIn, .variable name, casefold⟩
    ∧ bindings.lookup name = some (.list [])

end Predicate

def CompareOp.takes (op : CompareOp) : Value → Bool
  | .list items => op.isMembership && !items.any fun v => v.isNull || v.isList
  | value => !op.isMembership && (!op.isPattern || value.isText)

namespace WhereLeaf

def fits (bindings : Bindings) (l : WhereLeaf) : Bool :=
  match l.operand with
  | .variable name => (bindings.lookup name).any l.op.takes
  | _ => true

def emptyMembership? (op : CompareOp) : Operand → Option WhereGroup
  | .literal (.list []) =>
    match op with
    | .isIn => some (.const false)
    | .notIn => some (.const true)
    | _ => none
  | _ => none

def given (bindings : Bindings) (l : WhereLeaf) : WhereGroup :=
  match l.operand with
  | .variable _ =>
    (emptyMembership? l.op (l.operand.given bindings)).getD
      (.leaf { l with operand := l.operand.given bindings })
  | _ => .leaf l

inductive Instance (bindings : Bindings) (l : WhereLeaf) : WhereGroup → Prop
  | closed (closed : ∀ name, l.operand ≠ .variable name) : Instance bindings l (.leaf l)
  | empty {name : String} (opened : l.operand = .variable name) (member : l.op.isMembership = true)
      (known : bindings.lookup name = some (.list [])) :
      Instance bindings l (.const (l.op == .notIn))
  | listed {name : String} {item : Value} {rest : List Value} (opened : l.operand = .variable name)
      (member : l.op.isMembership = true)
      (known : bindings.lookup name = some (.list (item :: rest))) :
      Instance bindings l (.leaf { l with operand := .literal (.list (item :: rest)) })
  | scalar {name : String} {value : Value} (opened : l.operand = .variable name)
      (single : l.op.isMembership = false) (known : bindings.lookup name = some value) :
      Instance bindings l (.leaf { l with operand := .literal value })

theorem given_variable {bindings : Bindings} {l : WhereLeaf} {name : String} {value : Value}
    (opened : l.operand = .variable name) (known : bindings.lookup name = some value) :
    l.given bindings = (emptyMembership? l.op (.literal value)).getD
      (.leaf { l with operand := .literal value }) := by
  rw [given, opened, Operand.given, known]
  rfl

/-- A leaf that its value fits is given it. -/
theorem given_instance {bindings : Bindings} {l : WhereLeaf} (fits : l.fits bindings = true) :
    l.Instance bindings (l.given bindings) := by
  cases opened : l.operand with
  | «variable» name =>
      rw [WhereLeaf.fits, opened] at fits
      obtain ⟨value, known, takes⟩ := (Option.any_eq_true _ _).1 fits
      rw [given_variable opened known]
      cases value with
      | list items =>
          rw [CompareOp.takes, Bool.and_eq_true] at takes
          cases items with
          | nil =>
              have none := Instance.empty opened takes.1 known
              cases op : l.op with
              | isIn => rwa [op] at none
              | notIn => rwa [op] at none
              | _ =>
                  rw [op] at takes
                  cases takes.1
          | cons item rest => exact .listed opened takes.1 known
      | _ =>
          rw [CompareOp.takes, Bool.and_eq_true, Bool.not_eq_true'] at takes
          · exact .scalar opened takes.1 known
          · exact fun _ same => by cases same
  | literal value =>
      rw [given, opened]
      exact .closed fun name same => by
        rw [opened] at same
        cases same
  | raw sql =>
      rw [given, opened]
      exact .closed fun name same => by
        rw [opened] at same
        cases same

end WhereLeaf

namespace WhereGroup

def fits (bindings : Bindings) (w : WhereGroup) : Bool :=
  w.leaves.all (·.fits bindings)

def fitsEach (bindings : Bindings) (ws : List WhereGroup) : Bool :=
  (leavesEach ws).all (·.fits bindings)

mutual

def given (bindings : Bindings) : WhereGroup → WhereGroup
  | all parts => all (givenEach bindings parts)
  | any parts => any (givenEach bindings parts)
  | not part => not (given bindings part)
  | leaf l => l.given bindings
  | other => other

def givenEach (bindings : Bindings) : List WhereGroup → List WhereGroup
  | [] => []
  | w :: ws => given bindings w :: givenEach bindings ws

end

end WhereGroup

/-! ### Columns at the ends of paths -/

/-- The column that names lead to from a model, over its relations. -/
def EntityModel.columnAt? (schema : Schema) (m : EntityModel) : List String → Option Column
  | [] => none
  | name :: rest =>
    match m.findColumn? name with
    | none => none
    | some (_, column) =>
      if rest.isEmpty then some column
      else
        match column.target? with
        | some target => columnAt? schema (schema.model target) rest
        | none => none

def CompareOp.mayCoalesce (op : CompareOp) : Bool :=
  op.isOrdering || op == .eq || op == .ne

/-- Every variable of the comparisons has a value, and where a literal would have a missing value
count as another, the column has none missing or is a text. -/
structure Bindable (schema : Schema) (model : EntityModel) (bindings : Bindings)
    (comparisons : List Comparison) : Prop where
  bound : ∀ c ∈ comparisons, ∀ name, c.operand = .variable name →
    ∃ value, bindings.lookup name = some value ∧ value.isNull = false
  settled : ∀ c ∈ comparisons, ∀ name, c.operand = .variable name → c.op.mayCoalesce = true →
    ∀ column, model.columnAt? schema (Resolve.segments c.field) = some column →
      column.nullable = true → column.sqlType? = some .text

namespace Resolve

open JoinGraph

variable {α β : Type} {schema : Schema} {model : EntityModel} {bindings : Bindings}

/-- A path that resolves ends at the column that its names lead to on the models alone. -/
theorem walk_columnAt {path : String} {names : List String} {key : String} {m : EntityModel}
    {before after : JoinGraph} {ref : ColumnRef} {found : Column}
    (ran : (walk schema path key m names).answer before = (.ok (ref, found), after)) :
    m.columnAt? schema names = some found := by
  induction names generalizing key m before with
  | nil => cases ran
  | cons name rest ih =>
      unfold walk at ran
      rw [EntityModel.columnAt?]
      cases finds : m.findColumn? name with
      | none =>
          rw [finds] at ran
          cases ran
      | some hit =>
          obtain ⟨level, column⟩ := hit
          rw [finds] at ran
          dsimp only at ran ⊢
          obtain ⟨here, reached, -, ran⟩ := of_bind ran
          split at ran
          · next last =>
              rw [if_pos last]
              split at ran
              · cases of_pure ran
                rfl
              · cases ran
          · next further =>
              rw [if_neg further]
              split at ran
              · next field target _ kind =>
                  obtain ⟨next, met, -, ran⟩ := of_bind ran
                  rw [Column.target?, kind]
                  exact ih ran
              · next target table kind =>
                  obtain ⟨link, met, -, ran⟩ := of_bind ran
                  obtain ⟨next, met', -, ran⟩ := of_bind ran
                  obtain ⟨-, marked, -, ran⟩ := of_bind ran
                  rw [Column.target?, kind]
                  exact ih ran
              · cases ran

/-! ### Comparisons -/

structure Gives (r : Resolve α) (before : JoinGraph) (fit : Bool) (a : α) (after : JoinGraph) :
    Prop where
  fitting : fit = true → r.answer before = (.ok a, after)
  failing : fit = false → ∃ e reached, r.answer before = (.error e, reached)

theorem Gives.of_ok {r : Resolve α} {before after : JoinGraph} {a : α}
    (ran : r.answer before = (.ok a, after)) : Gives r before true a after :=
  ⟨fun _ => ran, fun unfit => by cases unfit⟩

theorem Gives.bind {r : Resolve α} {next : α → Resolve β} {before mid after : JoinGraph} {a : α}
    {b : β} {fit rest : Bool} (first : Gives r before fit a mid)
    (second : Gives (next a) mid rest b after) : Gives (r >>= next) before (fit && rest) b after := by
  constructor
  · intro both
    rw [Bool.and_eq_true] at both
    rw [answer_bind, first.fitting both.1]
    exact second.fitting both.2
  · intro unfit
    rw [answer_bind]
    cases fits : fit with
    | true =>
        rw [fits, Bool.true_and] at unfit
        rw [first.fitting fits]
        exact second.failing unfit
    | false =>
        obtain ⟨e, reached, failed⟩ := first.failing fits
        rw [failed]
        exact ⟨e, reached, rfl⟩

theorem Gives.returning {r : Resolve α} {before after : JoinGraph} {a : α} {fit : Bool}
    (first : Gives r before fit a after) (done : α → β) :
    Gives (do return done (← r)) before fit (done a) after := by
  have whole : Gives (r >>= fun a => pure (done a)) before (fit && true) (done a) after :=
    first.bind (.of_ok rfl)
  rwa [Bool.and_true] at whole

private theorem operandFault_takes {type : SqlType} {op : CompareOp} {value : Value}
    (textual : op.isPattern = true → type.isText = true) (present : value.isNull = false) :
    operandFault? type op (.literal value) = none ↔ op.takes value = true := by
  cases value with
  | null => cases present
  | list items =>
      cases member : op.isMembership <;>
        simp [operandFault?, CompareOp.takes, member]
  | _ =>
      cases member : op.isMembership <;> cases pattern : op.isPattern <;>
        simp_all [operandFault?, CompareOp.takes, Value.isText]

private theorem constant_membership (ref : ColumnRef) (op : CompareOp) {value : Value}
    (present : value.isNull = false) :
    constantComparison? ref op (.literal value) =
      WhereLeaf.emptyMembership? op (.literal value) := by
  cases value with
  | null => cases present
  | list items => cases items <;> rfl
  | _ => rfl

private theorem takes_of_empty {op : CompareOp} {value : Value} {w : WhereGroup}
    (empty : WhereLeaf.emptyMembership? op (.literal value) = some w) : op.takes value = true := by
  unfold WhereLeaf.emptyMembership? at empty
  split at empty
  · next same =>
      cases same
      split at empty <;> first | rfl | cases empty
  · cases empty

/-- What a comparison with a variable resolves to. -/
theorem comparison_variable {c : Comparison} {name : String} {before after : JoinGraph}
    {w : WhereGroup} (opened : c.operand = .variable name)
    (resolved : (comparison schema model c).answer before = (.ok w, after)) :
    ∃ ref found type, (column schema model c.field).answer before = (.ok (ref, found), after) ∧
      found.sqlType? = some type ∧ (c.op.isPattern = true → type.isText = true) ∧
      (c.casefold && !type.isText) = false ∧
      w = .leaf ⟨ref, c.op, c.operand, none, c.casefold⟩ := by
  unfold comparison at resolved
  rw [opened] at resolved ⊢
  obtain ⟨⟨ref, found⟩, reached, ran, resolved⟩ := of_bind resolved
  dsimp only at resolved
  split at resolved
  · next type typed =>
      rw [show constantComparison? ref c.op (.variable name) = none from rfl] at resolved
      dsimp only at resolved
      split at resolved
      · cases resolved
      · next faultless =>
          split at resolved
          · cases resolved
          · next cased =>
              have absent : absentValue? found type c = none := by
                rw [absentValue?, opened]
              rw [absent] at resolved
              cases resolved
              refine ⟨ref, found, type, ran, typed, fun pattern => ?_, Bool.eq_false_iff.2 cased, rfl⟩
              by_contra other
              refine faultless "pattern operators require a text column" ?_
              simp [operandFault?, pattern, other]
  · cases resolved

private theorem given_other {c : Comparison} (closed : ∀ name, c.operand ≠ .variable name) :
    c.given bindings = c := by
  obtain ⟨field, op, operand, casefold⟩ := c
  cases operand with
  | «variable» name => exact (closed name rfl).elim
  | literal value => rfl
  | raw sql => rfl

private theorem given_constant {ref : ColumnRef} {op : CompareOp} {operand : Operand} {w : WhereGroup}
    (constant : constantComparison? ref op operand = some w) : w.given bindings = w := by
  unfold constantComparison? at constant
  split at constant
  · split at constant <;> cases constant <;> rfl
  · split at constant <;> cases constant <;> rfl
  · cases constant

/-- A comparison without a variable is given nothing. -/
theorem comparison_closed {c : Comparison} {before after : JoinGraph} {w : WhereGroup}
    (closed : ∀ name, c.operand ≠ .variable name)
    (resolved : (comparison schema model c).answer before = (.ok w, after)) :
    Gives (comparison schema model (c.given bindings)) before (w.fits bindings) (w.given bindings)
      after := by
  rw [given_other closed]
  obtain ⟨ref, found, type, -, -, constant | ⟨-, -, rfl⟩⟩ := comparison_cases resolved
  · have fits : w.fits bindings = true := by
      rw [WhereGroup.fits, constantComparison_leaves constant]
      rfl
    rw [given_constant constant, fits]
    exact .of_ok resolved
  · cases operand : c.operand with
    | «variable» name => exact (closed name operand).elim
    | literal value =>
        rw [operand] at resolved
        exact .of_ok resolved
    | raw sql =>
        rw [operand] at resolved
        exact .of_ok resolved

/-- A comparison with a value that is there resolves just if it takes the value. -/
theorem comparison_value {c : Comparison} {value : Value} {before after : JoinGraph}
    {ref : ColumnRef} {found : Column} {type : SqlType} (operand : c.operand = .literal value)
    (present : value.isNull = false)
    (walked : (column schema model c.field).answer before = (.ok (ref, found), after))
    (typed : found.sqlType? = some type) (textual : c.op.isPattern = true → type.isText = true)
    (cased : (c.casefold && !type.isText) = false) (absent : absentValue? found type c = none) :
    Gives (comparison schema model c) before (c.op.takes value)
      ((WhereLeaf.emptyMembership? c.op (.literal value)).getD
        (.leaf ⟨ref, c.op, .literal value, none, c.casefold⟩)) after := by
  have answer : (comparison schema model c).answer before =
      ((WhereLeaf.emptyMembership? c.op (.literal value)).elim
        ((operandFault? type c.op (.literal value)).elim
          (pure (.leaf ⟨ref, c.op, .literal value, none, c.casefold⟩))
          fun reason => throw (.invalidOperand c.field reason))
        pure : Resolve WhereGroup).answer after := by
    unfold comparison
    rw [answer_bind, walked]
    dsimp only
    rw [typed]
    dsimp only
    rw [absent, operand, cased, constant_membership ref c.op present]
    cases WhereLeaf.emptyMembership? c.op (.literal value) with
    | some group => rfl
    | none => cases operandFault? type c.op (.literal value) <;> rfl
  have taking := operandFault_takes textual present
  constructor
  · intro takes
    rw [answer, taking.2 takes]
    cases WhereLeaf.emptyMembership? c.op (.literal value) <;> rfl
  · intro refuses
    rw [answer]
    cases constant : WhereLeaf.emptyMembership? c.op (.literal value) with
    | some group =>
        rw [takes_of_empty constant] at refuses
        cases refuses
    | none =>
        cases fault : operandFault? type c.op (.literal value) with
        | some reason => exact ⟨_, _, rfl⟩
        | none =>
            rw [taking.1 fault] at refuses
            cases refuses

/-- What counts as missing is settled: against a value nothing does. -/
theorem absentValue_given {c : Comparison} {name : String} {found : Column} {type : SqlType}
    {value : Value} (opened : c.operand = .variable name)
    (bindable : Bindable schema model bindings [c])
    (there : model.columnAt? schema (segments c.field) = some found)
    (typed : found.sqlType? = some type) :
    absentValue? found type { c with operand := .literal value } = none := by
  have settled := bindable.settled c (List.mem_singleton_self c) name opened
  rw [absentValue?]
  dsimp only
  split
  · next coalesces =>
      rw [Bool.and_eq_true, Bool.and_eq_true] at coalesces
      obtain ⟨⟨nullable, -⟩, compared⟩ := coalesces
      rw [settled compared found there nullable] at typed
      cases typed
      rfl
  · rfl

/-- A comparison with a value resolves to what the comparison with the variable did, given the
value. -/
theorem comparison_given {c : Comparison} {before after : JoinGraph} {w : WhereGroup}
    (bindable : Bindable schema model bindings [c])
    (resolved : (comparison schema model c).answer before = (.ok w, after)) :
    Gives (comparison schema model (c.given bindings)) before (w.fits bindings) (w.given bindings)
      after := by
  by_cases closed : ∀ name, c.operand ≠ .variable name
  · exact comparison_closed closed resolved
  · rw [not_forall] at closed
    obtain ⟨name, opened⟩ := closed
    rw [not_not] at opened
    obtain ⟨ref, found, type, ran, typed, textual, cased, rfl⟩ := comparison_variable opened resolved
    obtain ⟨value, known, present⟩ := bindable.bound c (List.mem_singleton_self c) name opened
    have same : c.given bindings = { c with operand := .literal value } := by
      rw [Comparison.given, opened, Operand.given, known]
      rfl
    have fits : (WhereGroup.leaf ⟨ref, c.op, c.operand, none, c.casefold⟩).fits bindings =
        c.op.takes value := by
      simp [WhereGroup.fits, WhereGroup.leaves, WhereLeaf.fits, opened, known]
    have absent : absentValue? found type { c with operand := .literal value } = none :=
      absentValue_given opened bindable (walk_columnAt ran) typed
    rw [same, fits, WhereGroup.given, WhereLeaf.given_variable opened known]
    exact comparison_value rfl present ran typed textual cased absent

/-! ### Filters -/

private theorem bindable_append {comparisons more : List Comparison} :
    Bindable schema model bindings (comparisons ++ more) ↔
      Bindable schema model bindings comparisons ∧ Bindable schema model bindings more := by
  constructor
  · intro ⟨bound, settled⟩
    rw [List.forall_mem_append] at bound settled
    exact ⟨⟨bound.1, settled.1⟩, bound.2, settled.2⟩
  · intro ⟨first, second⟩
    exact ⟨List.forall_mem_append.2 ⟨first.bound, second.bound⟩,
      List.forall_mem_append.2 ⟨first.settled, second.settled⟩⟩

private theorem gives_null {field : String} {negated : Bool} {before after : JoinGraph}
    {w : WhereGroup}
    (resolved : (do return .null (← column schema model field).1 negated :
      Resolve WhereGroup).answer before = (.ok w, after)) :
    Gives (do return .null (← column schema model field).1 negated) before (w.fits bindings)
      (w.given bindings) after := by
  obtain ⟨found, -, rfl⟩ := of_returning resolved
  exact .of_ok resolved

mutual

/-- A predicate with values resolves to what the predicate with variables did, given the values. -/
theorem filter_given_values (p : Predicate) {before after : JoinGraph} {w : WhereGroup}
    (bindable : Bindable schema model bindings p.comparisons)
    (resolved : (filter schema model p).answer before = (.ok w, after)) :
    Gives (filter schema model (p.given bindings)) before (w.fits bindings) (w.given bindings)
      after := by
  cases p with
  | always =>
      cases resolved
      exact .of_ok rfl
  | never =>
      cases resolved
      exact .of_ok rfl
  | all parts =>
      cases parts with
      | nil =>
          cases resolved
          exact .of_ok rfl
      | cons p ps =>
          obtain ⟨ws, each, rfl⟩ := of_returning resolved
          exact (filterEach_given_values (p :: ps) bindable each).returning WhereGroup.all
  | any parts =>
      cases parts with
      | nil =>
          cases resolved
          exact .of_ok rfl
      | cons p ps =>
          obtain ⟨ws, each, rfl⟩ := of_returning resolved
          exact (filterEach_given_values (p :: ps) bindable each).returning WhereGroup.any
  | not part =>
      obtain ⟨inner, whole, rfl⟩ := of_returning resolved
      exact (filter_given_values part bindable whole).returning WhereGroup.not
  | isNull field => exact gives_null resolved
  | isNotNull field => exact gives_null resolved
  | compare c => exact comparison_given bindable resolved

theorem filterEach_given_values (ps : List Predicate) {before after : JoinGraph}
    {ws : List WhereGroup}
    (bindable : Bindable schema model bindings (Predicate.comparisonsEach ps))
    (resolved : (filterEach schema model ps).answer before = (.ok ws, after)) :
    Gives (filterEach schema model (Predicate.givenEach bindings ps)) before
      (WhereGroup.fitsEach bindings ws) (WhereGroup.givenEach bindings ws) after := by
  cases ps with
  | nil =>
      cases resolved
      exact .of_ok rfl
  | cons p ps =>
      obtain ⟨first, rest⟩ := bindable_append.1 bindable
      obtain ⟨w, mid, one, others⟩ := of_bind resolved
      obtain ⟨ws, each, rfl⟩ := of_returning others
      have whole : Gives (do
          let w ← filter schema model (p.given bindings)
          return w :: (← filterEach schema model (Predicate.givenEach bindings ps))) before
          (w.fits bindings && WhereGroup.fitsEach bindings ws)
          (w.given bindings :: WhereGroup.givenEach bindings ws) after :=
        (filter_given_values p first one).bind
          ((filterEach_given_values ps rest each).returning (w.given bindings :: ·))
      rw [WhereGroup.fitsEach, WhereGroup.leavesEach, List.all_append]
      exact whole

end

/-! ### The exclusion of an empty list -/

section

variable {p : Predicate} {before after : JoinGraph} {g : WhereGroup}

/-- Only a comparison resolves to one. -/
theorem leaf_origin {l : WhereLeaf}
    (resolved : (filter schema model p).answer before = (.ok (.leaf l), after)) :
    ∃ c, p = .compare c ∧ l.op = c.op ∧ l.operand = c.operand := by
  cases p with
  | compare c =>
      obtain ⟨ref, found, type, -, -, constant | ⟨-, -, same⟩⟩ := comparison_cases resolved
      · have leafless := constantComparison_leaves constant
        cases leafless
      · cases same
        exact ⟨c, rfl, rfl, rfl⟩
  | always => cases resolved
  | never => cases resolved
  | all parts =>
      cases parts with
      | nil => cases resolved
      | cons q qs =>
          obtain ⟨ws, -, same⟩ := of_returning resolved
          cases same
  | any parts =>
      cases parts with
      | nil => cases resolved
      | cons q qs =>
          obtain ⟨ws, -, same⟩ := of_returning resolved
          cases same
  | not part =>
      obtain ⟨w, -, same⟩ := of_returning resolved
      cases same
  | isNull field =>
      obtain ⟨found, -, same⟩ := of_returning resolved
      cases same
  | isNotNull field =>
      obtain ⟨found, -, same⟩ := of_returning resolved
      cases same

/-- A filter that holds for all with its values did so before, or excludes none. -/
theorem excludesNone_of_given (fits : g.fits bindings = true)
    (resolved : (filter schema model p).answer before = (.ok g, after))
    (whole : g.given bindings = .const true) : g = .const true ∨ p.ExcludesNone bindings := by
  cases g with
  | const value => exact Or.inl whole
  | leaf l =>
      rw [WhereGroup.fits, WhereGroup.leaves, List.all_cons, List.all_nil, Bool.and_true] at fits
      have instantiated := WhereLeaf.given_instance fits
      rw [show l.given bindings = .const true from whole] at instantiated
      obtain ⟨⟨field, op, operand, casefold⟩, rfl, ops, operands⟩ := leaf_origin resolved
      generalize group : WhereGroup.const true = constant at instantiated
      cases instantiated with
      | @empty name opened member known =>
          injection group with excluded
          rw [eq_comm, beq_iff_eq] at excluded
          have same : op = .notIn := ops.symm.trans excluded
          have excludedName : operand = .variable name := operands.symm.trans opened
          subst same excludedName
          exact Or.inr ⟨field, name, casefold, rfl, known⟩
      | _ => cases group
  | _ => cases whole

theorem given_of_excludesNone (excludes : p.ExcludesNone bindings)
    (resolved : (filter schema model p).answer before = (.ok g, after)) :
    g ≠ .const true ∧ g.given bindings = .const true := by
  obtain ⟨field, name, casefold, rfl, known⟩ := excludes
  obtain ⟨ref, found, type, -, -, -, -, rfl⟩ := comparison_variable rfl resolved
  refine ⟨nofun, ?_⟩
  rw [WhereGroup.given, WhereLeaf.given_variable rfl known]
  rfl

end

end Resolve

end EntityStore
