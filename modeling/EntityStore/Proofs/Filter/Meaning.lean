import EntityStore.Proofs.Filter.History

/-!
What filters and predicates say of a row, where values may be missing: a condition is true, false or
unknown. Resolving a predicate keeps what it says, with each path read as the column it resolves to.
-/

namespace EntityStore

inductive Truth
  | no
  | unknown
  | yes
  deriving DecidableEq, Repr

namespace Truth

def ofBool (b : Bool) : Truth :=
  if b then yes else no

def not : Truth → Truth
  | no => yes
  | unknown => unknown
  | yes => no

def and : Truth → Truth → Truth
  | no, _ | _, no => no
  | yes, t => t
  | unknown, _ => unknown

def or : Truth → Truth → Truth
  | yes, _ | _, yes => yes
  | no, t => t
  | unknown, _ => unknown

def all (ts : List Truth) : Truth :=
  ts.foldr and yes

def any (ts : List Truth) : Truth :=
  ts.foldr or no

theorem and_assoc (a b c : Truth) : and (and a b) c = and a (and b c) := by
  cases a <;> cases b <;> cases c <;> rfl

private theorem yes_and (a : Truth) : and yes a = a := by
  cases a <;> rfl

theorem and_yes (a : Truth) : and a yes = a := by
  cases a <;> rfl

private theorem all_cons (t : Truth) (ts : List Truth) : all (t :: ts) = and t (all ts) :=
  rfl

private theorem all_append (ts more : List Truth) : all (ts ++ more) = and (all ts) (all more) := by
  induction ts with
  | nil => exact (yes_and _).symm
  | cons t ts ih => rw [List.cons_append, all_cons, all_cons, ih, and_assoc]

end Truth

/-- What stands in a row for each column, what variables and raw fragments stand for, and how two
values compare, with or without regard to case. -/
structure Interpretation where
  column : ColumnRef → Value
  bound : String → Value
  fragment : String → Value
  holds : CompareOp → Bool → Value → Value → Bool

namespace Interpretation

variable (r : Interpretation)

def operand : Operand → Value
  | .literal value => value
  | .variable name => r.bound name
  | .raw sql => r.fragment sql

def compare (op : CompareOp) (casefold : Bool) (left right : Value) : Truth :=
  if left.isNull || right.isNull then .unknown else .ofBool (r.holds op casefold left right)

def items : Value → List Value
  | .list items => items
  | value => [value]

def member (casefold : Bool) (left : Value) (items : List Value) : Truth :=
  .any (items.map (r.compare .eq casefold left))

def apply (op : CompareOp) (casefold : Bool) (left right : Value) : Truth :=
  match op with
  | .isIn => r.member casefold left (items right)
  | .notIn => (r.member casefold left (items right)).not
  | op => r.compare op casefold left right

end Interpretation

namespace WhereGroup

def leafValue (r : Interpretation) (l : WhereLeaf) : Value :=
  match l.absent? with
  | some value => if (r.column l.column).isNull then value else r.column l.column
  | none => r.column l.column

mutual

def truth (r : Interpretation) : WhereGroup → Truth
  | const value => .ofBool value
  | all parts => .all (truthEach r parts)
  | any parts => .any (truthEach r parts)
  | not part => (truth r part).not
  | leaf l => r.apply l.op l.casefold (leafValue r l) (r.operand l.operand)
  | null c negated => .ofBool ((r.column c).isNull != negated)

def truthEach (r : Interpretation) : List WhereGroup → List Truth
  | [] => []
  | g :: gs => truth r g :: truthEach r gs

end

end WhereGroup

private theorem Interpretation.apply_congr {r r' : Interpretation} (holds : r.holds = r'.holds)
    (op : CompareOp) (casefold : Bool) (left right : Value) :
    r.apply op casefold left right = r'.apply op casefold left right := by
  unfold apply member compare
  rw [holds]

namespace WhereGroup

variable {r r' : Interpretation}

mutual

/-- What a filter says depends on its columns and operands only. -/
theorem truth_congr (holds : r.holds = r'.holds) (w : WhereGroup)
    (columns : ∀ ref ∈ w.refs, r.column ref = r'.column ref)
    (operands : ∀ l ∈ w.leaves, r.operand l.operand = r'.operand l.operand) :
    w.truth r = w.truth r' := by
  cases w with
  | const value => rfl
  | all parts => rw [truth, truth, truthEach_congr holds parts columns operands]
  | any parts => rw [truth, truth, truthEach_congr holds parts columns operands]
  | not part => rw [truth, truth, truth_congr holds part columns operands]
  | null c negated => rw [truth, truth, columns c (List.mem_singleton_self c)]
  | leaf l =>
      have left : leafValue r l = leafValue r' l := by
        unfold leafValue
        rw [columns l.column (List.mem_singleton_self l.column)]
      rw [truth, truth, left, operands l (List.mem_singleton_self l),
        Interpretation.apply_congr holds]

theorem truthEach_congr (holds : r.holds = r'.holds) (ws : List WhereGroup)
    (columns : ∀ ref ∈ refsEach ws, r.column ref = r'.column ref)
    (operands : ∀ l ∈ leavesEach ws, r.operand l.operand = r'.operand l.operand) :
    truthEach r ws = truthEach r' ws := by
  cases ws with
  | nil => rfl
  | cons w rest =>
      rw [truthEach, truthEach,
        truth_congr holds w (fun ref inside => columns ref (List.mem_append_left _ inside))
          (fun l inside => operands l (List.mem_append_left _ inside)),
        truthEach_congr holds rest (fun ref inside => columns ref (List.mem_append_right _ inside))
          (fun l inside => operands l (List.mem_append_right _ inside))]

end

end WhereGroup

/-- What a value counts as where it is equated or ordered with a literal: a missing one in a
nullable column counts as the type's own, if the type has one. -/
def Column.counted (c : Column) (op : CompareOp) (value : Value) : Value :=
  if value.isNull && c.nullable && (op.isOrdering || op == .eq || op == .ne) then
    (c.sqlType?.bind SqlType.absentValue?).getD value
  else value

/-- What a comparison says of a value of a column. -/
def Comparison.truth (r : Interpretation) (c : Comparison) (column : Column) (value : Value) :
    Truth :=
  match c.operand, c.op with
  | .literal .null, .eq => .ofBool value.isNull
  | .literal .null, .ne => .ofBool (!value.isNull)
  | .literal literal, op => r.apply op c.casefold (column.counted op value) literal
  | operand, op => r.apply op c.casefold value (r.operand operand)

namespace Predicate

variable (located : String → Option (ColumnRef × Column)) (r : Interpretation)

def atPath (path : String) (test : Column → Value → Truth) : Truth :=
  match located path with
  | some (ref, column) => test column (r.column ref)
  | none => .unknown

mutual

def truth : Predicate → Truth
  | always => .yes
  | never => .no
  | all parts => .all (truthEach parts)
  | any parts => .any (truthEach parts)
  | not part => (truth part).not
  | isNull field => atPath located r field fun _ value => .ofBool value.isNull
  | isNotNull field => atPath located r field fun _ value => .ofBool (!value.isNull)
  | compare c => atPath located r c.field (c.truth r)

def truthEach : List Predicate → List Truth
  | [] => []
  | p :: ps => truth p :: truthEach ps

end

end Predicate

namespace Resolve

open JoinGraph

variable {schema : Schema} {model : EntityModel} {g : JoinGraph}

def located (schema : Schema) (model : EntityModel) (g : JoinGraph) (path : String) :
    Option (ColumnRef × Column) :=
  ((column schema model path).answer g).1.toOption

/-- What a comparison puts in place of a missing value is what the column counts it as. -/
theorem leafValue_literal {column : Column} {type : SqlType} {c : Comparison} {literal : Value}
    (typed : column.sqlType? = some type) (given : c.operand = .literal literal)
    (cased : (c.casefold && !type.isText) = false) (r : Interpretation) (ref : ColumnRef) :
    WhereGroup.leafValue r ⟨ref, c.op, c.operand, absentValue? column type c, c.casefold⟩ =
      column.counted c.op (r.column ref) := by
  have textual : c.casefold = true → type.absentValue? = none := by
    intro folded
    rw [folded] at cased
    cases type <;> first | rfl | cases cased
  unfold WhereGroup.leafValue Column.counted absentValue?
  rw [given, typed]
  cases folded : c.casefold with
  | true => simp [textual folded]
  | false =>
      cases absent : type.absentValue? <;> cases column.nullable <;>
        cases (c.op.isOrdering || c.op == .eq || c.op == .ne) <;> simp [absent]

private theorem leafValue_other {column : Column} {type : SqlType} {c : Comparison}
    (other : ∀ literal, c.operand ≠ .literal literal) (r : Interpretation) (ref : ColumnRef) :
    WhereGroup.leafValue r ⟨ref, c.op, c.operand, absentValue? column type c, c.casefold⟩ =
      r.column ref := by
  unfold WhereGroup.leafValue absentValue?
  cases given : c.operand with
  | literal value => exact (other value given).elim
  | «variable» name => rfl
  | raw sql => rfl

private theorem constantComparison_truth {c : Comparison} {ref : ColumnRef} {w : WhereGroup}
    (constant : constantComparison? ref c.op c.operand = some w) (r : Interpretation)
    (column : Column) : w.truth r = c.truth r column (r.column ref) := by
  unfold constantComparison? at constant
  unfold Comparison.truth
  split at constant
  · next given =>
      rw [given]
      split at constant
      · next op =>
          cases constant
          rw [op]
          simp [WhereGroup.truth]
      · next op =>
          cases constant
          rw [op]
          simp [WhereGroup.truth]
      · cases constant
  · next given =>
      rw [given]
      split at constant
      · next op =>
          cases constant
          rw [op]
          rfl
      · next op =>
          cases constant
          rw [op]
          rfl
      · cases constant
  · cases constant

theorem comparison_truth {c : Comparison} {before after : JoinGraph} {w : WhereGroup}
    (resolved : (comparison schema model c).answer before = (.ok w, after)) :
    ∃ ref found, (column schema model c.field).answer before = (.ok (ref, found), after) ∧
      ∀ r : Interpretation, w.truth r = c.truth r found (r.column ref) := by
  obtain ⟨ref, found, type, ran, typed, constant | ⟨varying, cased, rfl⟩⟩ :=
    comparison_cases resolved
  · exact ⟨ref, found, ran, fun r => constantComparison_truth constant r found⟩
  refine ⟨ref, found, ran, fun r => ?_⟩
  have stored (other : ∀ literal, c.operand ≠ .literal literal) :
      WhereGroup.leafValue r ⟨ref, c.op, c.operand, absentValue? found type c, c.casefold⟩ =
        r.column ref :=
    leafValue_other other r ref
  rw [WhereGroup.truth, Comparison.truth]
  cases given : c.operand with
  | literal value =>
      have counted := leafValue_literal typed given cased r ref
      rw [given] at counted varying
      rw [counted]
      -- A missing value is compared by `eq` and `ne` only, and those comparisons are constant.
      cases value <;> cases op : c.op <;> rw [op] at varying <;> first | rfl | cases varying
  | «variable» name =>
      have left := stored (by simp [given])
      rw [given] at left
      rw [left]
  | raw sql =>
      have left := stored (by simp [given])
      rw [given] at left
      rw [left]

private theorem atPath_of_settled {path : String} {ref : ColumnRef} {found : Column}
    (ran : (column schema model path).answer g = (.ok (ref, found), g)) (r : Interpretation)
    (test : Column → Value → Truth) :
    Predicate.atPath (located schema model g) r path test = test found (r.column ref) := by
  rw [Predicate.atPath, located, ran]
  rfl

mutual

/-- A filter that is given without a change of the graph says what the predicate says there. -/
theorem filter_truth (p : Predicate) (sound : g.Sound) {w : WhereGroup}
    (settled : (filter schema model p).answer g = (.ok w, g)) (r : Interpretation) :
    w.truth r = p.truth (located schema model g) r := by
  cases p with
  | always =>
      cases of_pure settled
      rfl
  | never =>
      cases of_pure settled
      rfl
  | all parts =>
      cases parts with
      | nil =>
          cases of_pure settled
          rfl
      | cons p ps =>
          obtain ⟨ws, each, rfl⟩ := of_returning settled
          rw [WhereGroup.truth, Predicate.truth, filterEach_truth (p :: ps) sound each r]
  | any parts =>
      cases parts with
      | nil =>
          cases of_pure settled
          rfl
      | cons p ps =>
          obtain ⟨ws, each, rfl⟩ := of_returning settled
          rw [WhereGroup.truth, Predicate.truth, filterEach_truth (p :: ps) sound each r]
  | not part =>
      obtain ⟨inner, whole, rfl⟩ := of_returning settled
      rw [WhereGroup.truth, Predicate.truth, filter_truth part sound whole r]
  | isNull field =>
      obtain ⟨⟨ref, found⟩, ran, rfl⟩ := of_returning settled
      rw [WhereGroup.truth, Predicate.truth, atPath_of_settled ran, Bool.bne_false]
  | isNotNull field =>
      obtain ⟨⟨ref, found⟩, ran, rfl⟩ := of_returning settled
      rw [WhereGroup.truth, Predicate.truth, atPath_of_settled ran, Bool.bne_true]
  | compare c =>
      obtain ⟨ref, found, ran, same⟩ := comparison_truth settled
      rw [same r, Predicate.truth, atPath_of_settled ran]

theorem filterEach_truth (ps : List Predicate) (sound : g.Sound) {ws : List WhereGroup}
    (settled : (filterEach schema model ps).answer g = (.ok ws, g)) (r : Interpretation) :
    WhereGroup.truthEach r ws = Predicate.truthEach (located schema model g) r ps := by
  cases ps with
  | nil =>
      cases of_pure settled
      rfl
  | cons p ps =>
      obtain ⟨w, rest, first, others, rfl⟩ := settled_cons sound settled
      rw [WhereGroup.truthEach, Predicate.truthEach, filter_truth p sound first r,
        filterEach_truth ps sound others r]

end

mutual

/-- All paths of such a filter resolve on the graph. -/
theorem filter_fields (p : Predicate) (sound : g.Sound) {w : WhereGroup}
    (settled : (filter schema model p).answer g = (.ok w, g)) :
    ∀ path ∈ p.fields, ∃ found, (column schema model path).answer g = (.ok found, g) := by
  cases p with
  | always => exact fun path member => (List.not_mem_nil member).elim
  | never => exact fun path member => (List.not_mem_nil member).elim
  | all parts =>
      cases parts with
      | nil => exact fun path member => (List.not_mem_nil member).elim
      | cons p ps =>
          obtain ⟨ws, each, -⟩ := of_returning settled
          exact filterEach_fields (p :: ps) sound each
  | any parts =>
      cases parts with
      | nil => exact fun path member => (List.not_mem_nil member).elim
      | cons p ps =>
          obtain ⟨ws, each, -⟩ := of_returning settled
          exact filterEach_fields (p :: ps) sound each
  | not part =>
      obtain ⟨inner, whole, -⟩ := of_returning settled
      exact filter_fields part sound whole
  | isNull field =>
      obtain ⟨found, ran, -⟩ := of_returning settled
      exact fun path member => List.mem_singleton.1 member ▸ ⟨found, ran⟩
  | isNotNull field =>
      obtain ⟨found, ran, -⟩ := of_returning settled
      exact fun path member => List.mem_singleton.1 member ▸ ⟨found, ran⟩
  | compare c =>
      obtain ⟨ref, found, ran, -⟩ := comparison_truth settled
      exact fun path member => List.mem_singleton.1 member ▸ ⟨(ref, found), ran⟩

theorem filterEach_fields (ps : List Predicate) (sound : g.Sound) {ws : List WhereGroup}
    (settled : (filterEach schema model ps).answer g = (.ok ws, g)) :
    ∀ path ∈ Predicate.fieldsEach ps,
      ∃ found, (column schema model path).answer g = (.ok found, g) := by
  cases ps with
  | nil => exact fun path member => (List.not_mem_nil member).elim
  | cons p ps =>
      obtain ⟨w, rest, first, others, -⟩ := settled_cons sound settled
      intro path member
      rcases List.mem_append.1 member with member | member
      · exact filter_fields p sound first path member
      · exact filterEach_fields ps sound others path member

end

end Resolve

namespace Predicate

variable {located : String → Option (ColumnRef × Column)} {r : Interpretation}

private theorem truthEach_append (ps more : List Predicate) :
    truthEach located r (ps ++ more) = truthEach located r ps ++ truthEach located r more := by
  induction ps with
  | nil => rfl
  | cons p ps ih => rw [List.cons_append, truthEach, truthEach, ih, List.cons_append]

private theorem truth_conjoin (current next : Predicate) :
    (conjoin (some current) next).truth located r =
      (current.truth located r).and (next.truth located r) := by
  have single : Truth.all (truthEach located r [next]) = next.truth located r :=
    Truth.and_yes _
  have nested : (all [current, next]).truth located r =
      (current.truth located r).and (next.truth located r) := by
    show Truth.and _ (Truth.all (truthEach located r [next])) = _
    rw [single]
  cases current with
  | all parts =>
      show Truth.all (truthEach located r (parts ++ [next])) = _
      rw [truthEach_append, Truth.all_append, single, truth]
  | _ => exact nested

def conjoinEach (current? : Option Predicate) (filters : List Predicate) : Option Predicate :=
  filters.foldl (fun current? next => some (conjoin current? next)) current?

/-- Filters given one after the other have to hold together. -/
theorem truth_conjoinEach (filters : List Predicate) {current? : Option Predicate} {p : Predicate}
    (whole : conjoinEach current? filters = some p) :
    p.truth located r = .all ((current?.toList ++ filters).map (truth located r)) := by
  induction filters generalizing current? with
  | nil =>
      cases whole
      exact (Truth.and_yes _).symm
  | cons next rest ih =>
      rw [ih whole]
      cases current? with
      | none => rfl
      | some current =>
          show Truth.and _ (Truth.all (rest.map (truth located r))) =
            Truth.and _ (Truth.and _ (Truth.all (rest.map (truth located r))))
          rw [truth_conjoin, Truth.and_assoc]

end Predicate

namespace Resolve

/-- A filter that a predicate resolves to says what the predicate says, on the tables it was resolved
on and on all that come of them; and filters that are given one after the other hold together. -/
theorem resolving_keeps_meaning (schema : Schema) (model : EntityModel) :
    (∀ before p after w, ((filter schema model p).answer (reach schema model before)).1 = .ok w →
      (∀ path ∈ p.fields, ∃ ref found,
        (column schema model path).answer (reach schema model (before ++ .filter p :: after)) =
          (.ok (ref, found), reach schema model (before ++ .filter p :: after))) ∧
      ∀ r : Interpretation, w.truth r =
        p.truth (located schema model (reach schema model (before ++ .filter p :: after))) r) ∧
    ∀ current? filters p, Predicate.conjoinEach current? filters = some p →
      ∀ located r, p.truth located r =
        .all ((current?.toList ++ filters).map (Predicate.truth located r)) := by
  refine ⟨fun before p after w given => ?_, fun _ filters _ whole _ _ =>
    Predicate.truth_conjoinEach filters whole⟩
  have sound := sound_reach schema model (before ++ .filter p :: after)
  have grown := extends_perform schema model (.filter p) before after
  rw [perform, graph_of_bind (fun _ _ => rfl)] at grown
  have steady := steady_filter schema model p _ (sound_reach schema model before) trivial
  have settled := (steady.2.2 w given).2 _ sound grown
  refine ⟨fun path member => ?_, fun r => filter_truth p sound settled r⟩
  obtain ⟨⟨ref, found⟩, ran⟩ := filter_fields p sound settled path member
  exact ⟨ref, found, ran⟩

def club : EntityModel where
  own :=
    { path := "Member"
      table := "members"
      primaryKey := "id"
      columns := [Column.generatedKey "id", { Column.scalar "age" .int with nullable := true }] }

def youngMembers : List Predicate :=
  [.compare ⟨"age", .lt, .literal (.int 30), false⟩, .compare ⟨"age", .ne, .literal .null, false⟩,
    .compare ⟨"age", .notIn, .literal (.list []), false⟩]

def youngFilter : WhereGroup :=
  .all [.leaf ⟨⟨⟨0⟩, "age"⟩, .lt, .literal (.int 30), some (.int 0), false⟩,
    .null ⟨⟨0⟩, "age"⟩ true, .const true]

def ageless : Interpretation where
  column _ := .null
  bound _ := .null
  fragment _ := .null
  holds _ _ _ _ := true

theorem young_members_keep_meaning :
    Predicate.conjoinEach none youngMembers = some (.all youngMembers) ∧
      ((filter ⟨fun _ => club⟩ club (.all youngMembers)).answer
        (reach ⟨fun _ => club⟩ club [])).1 = .ok youngFilter ∧
      youngFilter.truth ageless = .no ∧
      youngFilter.truth ageless = (Predicate.all youngMembers).truth
        (located ⟨fun _ => club⟩ club (reach ⟨fun _ => club⟩ club [.filter (.all youngMembers)]))
        ageless :=
  ⟨rfl, rfl, rfl, ((resolving_keeps_meaning ⟨fun _ => club⟩ club).1 [] (.all youngMembers) []
    youngFilter rfl).2 ageless⟩

end Resolve

end EntityStore
