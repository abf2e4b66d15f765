import EntityStore.Proofs.Sql.Evaluation
import EntityStore.Proofs.Sql.Independence

/-!
Comparisons that ignore letter case. Which characters differ in nothing but case is left open, except
that the characters with a meaning in patterns are no letters. What lower-casing makes equal cannot be
told apart: the column is lower-cased in every comparison, and the operand is in every one that is no
membership. The items of a list are compared as they are.
-/

namespace EntityStore.Sql

open Grammar Resolve

/-- Characters that differ in letter case at most. -/
structure LetterCase where
  alike : Char → Char → Prop
  refl : ∀ c, alike c c
  letters : ∀ c c', alike c c' → c ≠ c' →
    ∀ special ∈ ['\\', '%', '_'], c ≠ special ∧ c' ≠ special

namespace LetterCase

variable (cased : LetterCase)

def Texts (s t : String) : Prop :=
  List.Forall₂ cased.alike s.toList t.toList

/-- Values that are the same, or texts that differ in letter case at most. -/
inductive Values : Value → Value → Prop
  | same (value : Value) : Values value value
  | texts {s t : String} (alike : cased.Texts s t) : Values (.text s) (.text t)

def Rows (row row' : JoinedRow) : Prop :=
  row.fragment = row'.fragment ∧ ∀ c, cased.Values (row.column c) (row'.column c)

/-- What is bound to each variable, if anything is. -/
def Bound (bindings bindings' : Bindings) : Prop :=
  ∀ name, Option.Rel cased.Values (bindings.lookup name) (bindings'.lookup name)

inductive Operands : Operand → Operand → Prop
  | same (operand : Operand) : Operands operand operand
  | literals {v w : Value} (alike : cased.Values v w) : Operands (.literal v) (.literal w)

/-- Lower-casing leaves nothing of the letter case. -/
def Lowers (o : Operations) : Prop :=
  ∀ s t, cased.Texts s t → o.lower (.text s) = o.lower (.text t)

end LetterCase

variable {cased : LetterCase} {o : Operations}

/-! ### Patterns of texts that are alike -/

private theorem LetterCase.special_iff {c c' : Char} (alike : cased.alike c c') :
    (c = '\\' ∨ c = '%' ∨ c = '_') ↔ (c' = '\\' ∨ c' = '%' ∨ c' = '_') := by
  by_cases same : c = c'
  · rw [same]
  · have others := cased.letters c c' alike same
    have backslash := others '\\' (by decide)
    have percent := others '%' (by decide)
    have underscore := others '_' (by decide)
    simp [backslash, percent, underscore]

private theorem LetterCase.escaped {cs cs' : List Char} (alike : List.Forall₂ cased.alike cs cs') :
    List.Forall₂ cased.alike (escapeLikeChars cs) (escapeLikeChars cs') := by
  induction alike with
  | nil => exact .nil
  | @cons c c' cs cs' first rest ih =>
      rw [escapeLikeChars, escapeLikeChars]
      by_cases special : c = '\\' ∨ c = '%' ∨ c = '_'
      · rw [if_pos special, if_pos ((LetterCase.special_iff first).1 special)]
        exact .cons (cased.refl _) (.cons first ih)
      · rw [if_neg special, if_neg fun other => special ((LetterCase.special_iff first).2 other)]
        exact .cons first ih

theorem LetterCase.wrapped {s t : String} (alike : cased.Texts s t) (kind : PatternKind) :
    cased.Texts (kind.wrap s) (kind.wrap t) := by
  have inner := LetterCase.escaped alike
  have percent : List.Forall₂ cased.alike ['%'] ['%'] := .cons (cased.refl _) .nil
  have closed := List.rel_append inner percent
  unfold LetterCase.Texts PatternKind.wrap escapeLike
  cases kind with
  | contains => simpa using List.rel_append percent closed
  | startsWith => simpa using closed
  | endsWith => simpa using List.rel_append percent inner

/-! ### Both sides of a comparison -/

theorem LetterCase.Values.lowered {v w : Value} (lowers : cased.Lowers o) (alike : cased.Values v w) :
    o.lowered v = o.lowered w := by
  cases alike with
  | same => rfl
  | texts alike => exact lowers _ _ alike

private theorem operandValue_alike {v w : Value} (alike : cased.Values v w)
    (pattern? : Option PatternKind) :
    cased.Values (operandValue pattern? v) (operandValue pattern? w) := by
  cases alike with
  | same => exact .same _
  | texts alike =>
      cases pattern? with
      | none => exact .texts alike
      | some kind => exact .texts (LetterCase.wrapped alike kind)

private theorem scalarValue_alike {v w : Value} (alike : cased.Values v w) (name : String)
    (pattern? : Option PatternKind) :
    Option.Rel cased.Values (Template.scalarValue name pattern? v).toOption
      (Template.scalarValue name pattern? w).toOption := by
  cases alike with
  | same =>
      cases (Template.scalarValue name pattern? v).toOption with
      | none => exact .none
      | some value => exact .some (.same value)
  | texts alike =>
      cases pattern? with
      | none => exact .some (.texts alike)
      | some kind => exact .some (.texts (LetterCase.wrapped alike kind))

/-- The values of operands that differ in letter case at most. -/
theorem operandTerm_alike {bindings bindings' : Bindings} {operand operand' : Operand}
    (bound : cased.Bound bindings bindings') (alike : cased.Operands operand operand')
    (row : JoinedRow) (pattern? : Option PatternKind) :
    Option.Rel cased.Values ((operandTerm pattern? operand).evaluate o row bindings)
      ((operandTerm pattern? operand').evaluate o row bindings') := by
  cases alike with
  | literals alike => exact .some (operandValue_alike alike pattern?)
  | same =>
      cases operand with
      | literal value => exact .some (.same _)
      | raw sql => exact .some (.same _)
      | «variable» name =>
          have lookups := bound name
          rw [operandTerm, evaluate_variable, evaluate_variable]
          generalize bindings.lookup name = first at lookups ⊢
          generalize bindings'.lookup name = second at lookups ⊢
          cases lookups with
          | none => exact .none
          | some given => exact scalarValue_alike given name pattern?

private theorem right_alike {l : WhereLeaf} (lowers : cased.Lowers o) (folded : l.casefold = true)
    {bindings bindings' : Bindings} (bound : cased.Bound bindings bindings') {operand : Operand}
    (alike : cased.Operands l.operand operand) (row : JoinedRow) :
    l.right.evaluate o row bindings =
      (WhereLeaf.right { l with operand }).evaluate o row bindings' := by
  rw [WhereLeaf.right, if_pos folded, WhereLeaf.right, if_pos folded, Term.evaluate, Term.evaluate]
  have operands := operandTerm_alike (o := o) bound alike row (patternOf? l.op)
  generalize (operandTerm _ l.operand).evaluate o row bindings = first at operands ⊢
  generalize (operandTerm _ operand).evaluate o row bindings' = second at operands ⊢
  cases operands with
  | none => rfl
  | some values => exact congrArg some (values.lowered lowers)

theorem left_folded {l : WhereLeaf} (folded : l.casefold = true) (settled : l.absent? = none)
    (row : JoinedRow) (bindings : Bindings) :
    l.left.evaluate o row bindings = some (o.lowered (row.column l.column)) := by
  rw [WhereLeaf.left, settled, if_pos folded]
  rfl

private theorem operandTerm_row {row row' : JoinedRow} (fragments : row.fragment = row'.fragment)
    (bindings : Bindings) (pattern? : Option PatternKind) (operand : Operand) :
    (operandTerm pattern? operand).evaluate o row bindings =
      (operandTerm pattern? operand).evaluate o row' bindings := by
  cases operand with
  | literal value => rfl
  | «variable» name => rfl
  | raw sql => exact congrArg (fun fragment => some (fragment sql)) fragments

/-- Nothing but the lower-cased column is taken from a row. -/
theorem evaluate_rows (d : Dialect) {l : WhereLeaf} (folded : l.casefold = true)
    (settled : l.absent? = none) {row row' : JoinedRow} (fragments : row.fragment = row'.fragment)
    (same : o.lowered (row.column l.column) = o.lowered (row'.column l.column))
    (bindings : Bindings) :
    (l.condition d).evaluate o row bindings = (l.condition d).evaluate o row' bindings := by
  have left : l.left.evaluate o row bindings = l.left.evaluate o row' bindings := by
    rw [left_folded folded settled, left_folded folded settled, same]
  have right : l.right.evaluate o row bindings = l.right.evaluate o row' bindings := by
    rw [WhereLeaf.right, if_pos folded, Term.evaluate, Term.evaluate, operandTerm_row fragments]
  have tested (asked : Test)
      (asks : ∀ value, asked.evaluate o row bindings value = asked.evaluate o row' bindings value) :
      (Condition.test l.left asked).evaluate o row bindings =
        (Condition.test l.left asked).evaluate o row' bindings := by
    rw [Condition.evaluate, Condition.evaluate, left]
    exact congrArg _ (funext asks)
  unfold WhereLeaf.condition
  split
  · split
    · refine tested _ fun value => ?_
      rw [Test.evaluate, Test.evaluate, List.mapM_map, List.mapM_map]
      rfl
    · rw [Condition.evaluate, Condition.evaluate, left]
    · refine tested _ fun value => ?_
      rw [Test.evaluate, Test.evaluate, List.mapM_cons, List.mapM_cons, operandTerm_row fragments]
      rfl
  · split
    · exact tested _ fun value => by rw [Test.evaluate, Test.evaluate, right]
    · exact tested _ fun value => by rw [Test.evaluate, Test.evaluate, right]

/-- Outside of memberships the operand is lower-cased too. -/
theorem evaluate_operands (d : Dialect) {l : WhereLeaf} (compares : l.op.isMembership = false)
    (folded : l.casefold = true) (settled : l.absent? = none) (lowers : cased.Lowers o)
    {bindings bindings' : Bindings} (bound : cased.Bound bindings bindings') {operand : Operand}
    (alike : cased.Operands l.operand operand) (row : JoinedRow) :
    (l.condition d).evaluate o row bindings =
      (WhereLeaf.condition d { l with operand }).evaluate o row bindings' := by
  have right := right_alike lowers folded bound alike row
  have left := left_folded (o := o) folded settled row bindings
  have left' : (WhereLeaf.left { l with operand }).evaluate o row bindings' =
      some (o.lowered (row.column l.column)) := left_folded folded settled row bindings'
  unfold WhereLeaf.condition
  rw [compares]
  simp only [Bool.false_eq_true, if_false]
  split
  · rw [Condition.evaluate, Condition.evaluate, left, left', Option.bind_some, Option.bind_some,
      Test.evaluate, Test.evaluate, right]
  · rw [Condition.evaluate, Condition.evaluate, left, left', Option.bind_some, Option.bind_some,
      Test.evaluate, Test.evaluate, right]

/-! ### Comparisons that resolve -/

variable {schema : Schema} {model : EntityModel} {start after : JoinGraph} {g : WhereGroup}

private theorem absentValue_folded {column : Column} {type : SqlType} {c : Comparison}
    (folded : c.casefold = true) : absentValue? column type c = none := by
  unfold absentValue?
  rw [folded]
  cases c.operand <;> simp

/-- With another text a comparison resolves as well, to the same with the other text. -/
theorem comparison_texts {field : String} {op : CompareOp} {casefold : Bool} {s : String}
    (resolved : (comparison schema model ⟨field, op, .literal (.text s), casefold⟩).answer start =
      (.ok g, after)) (t : String) :
    ∃ l : WhereLeaf, g = .leaf l ∧
      (comparison schema model ⟨field, op, .literal (.text t), casefold⟩).answer start =
        (.ok (.leaf { l with operand := .literal (.text t) }), after) := by
  unfold comparison at resolved ⊢
  obtain ⟨⟨ref, found⟩, reached, ran, resolved⟩ := of_bind resolved
  rw [answer_bind, ran]
  dsimp only at resolved ⊢
  cases typed : found.sqlType? with
  | none =>
      rw [typed] at resolved
      cases resolved
  | some type =>
      rw [typed] at resolved
      have faults : operandFault? type op (.literal (.text t)) =
          operandFault? type op (.literal (.text s)) := rfl
      have constants (text : String) : constantComparison? ref op (.literal (.text text)) = none := rfl
      simp only [constants, faults] at resolved ⊢
      split at resolved
      · cases resolved
      · split at resolved
        · cases resolved
        · next textual =>
            rw [if_neg textual]
            cases resolved
            exact ⟨_, rfl, rfl⟩

/-- A comparison that ignores case is one that lower-cases its column, or asks of nothing but whether the
column is missing. -/
theorem comparison_folded {c : Comparison} (folded : c.casefold = true)
    (resolved : (comparison schema model c).answer start = (.ok g, after)) :
    ∃ ref, (∃ negated, g = .null ref negated) ∨ (∃ value, g = .const value)
      ∨ g = .leaf ⟨ref, c.op, c.operand, none, true⟩ := by
  obtain ⟨ref, found, type, -, -, constant | ⟨-, -, rfl⟩⟩ := comparison_cases resolved
  · refine ⟨ref, ?_⟩
    unfold constantComparison? at constant
    repeat' split at constant
    all_goals cases constant
    all_goals simp
  · refine ⟨ref, Or.inr (Or.inr ?_)⟩
    rw [absentValue_folded folded, folded]

private theorem LetterCase.Values.isNull {v w : Value} (alike : cased.Values v w) :
    v.isNull = w.isNull := by
  cases alike <;> rfl

private theorem rows_alike (lowers : cased.Lowers o) {c : Comparison} (folded : c.casefold = true)
    (resolved : (comparison schema model c).answer start = (.ok g, after)) (d : Dialect)
    {row row' : JoinedRow} (alike : cased.Rows row row') (bindings : Bindings) :
    (g.condition d).evaluate o row bindings = (g.condition d).evaluate o row' bindings := by
  obtain ⟨fragments, columns⟩ := alike
  obtain ⟨ref, ⟨negated, rfl⟩ | ⟨value, rfl⟩ | rfl⟩ := comparison_folded folded resolved
  · show some (Truth.ofBool ((row.column ref).isNull != negated)) =
      some (Truth.ofBool ((row'.column ref).isNull != negated))
    rw [(columns ref).isNull]
  · rfl
  · exact evaluate_rows d rfl rfl fragments ((columns ref).lowered lowers) bindings

/-- With an operand that differs in letter case at most, a comparison that ignores case and is no
membership resolves as well and says the same. -/
theorem operands_alike (lowers : cased.Lowers o) {c : Comparison} (folded : c.casefold = true)
    (compares : c.op.isMembership = false)
    (resolved : (comparison schema model c).answer start = (.ok g, after)) (d : Dialect)
    {operand : Operand} (alike : cased.Operands c.operand operand) :
    ∃ g', (comparison schema model { c with operand }).answer start = (.ok g', after) ∧
      ∀ (row : JoinedRow) (bindings bindings' : Bindings), cased.Bound bindings bindings' →
        (g'.condition d).evaluate o row bindings' = (g.condition d).evaluate o row bindings := by
  obtain ⟨field, op, given, casefold⟩ := c
  obtain ⟨ref, constant⟩ := comparison_folded folded resolved
  have same (alike : cased.Operands given given) (row : JoinedRow) (bindings bindings' : Bindings)
      (bound : cased.Bound bindings bindings') :
      (g.condition d).evaluate o row bindings' = (g.condition d).evaluate o row bindings := by
    rcases constant with ⟨negated, rfl⟩ | ⟨value, rfl⟩ | rfl
    · rfl
    · rfl
    · exact (evaluate_operands d (l := ⟨ref, op, given, none, true⟩) compares rfl rfl lowers bound alike
        row).symm
  cases alike with
  | same => exact ⟨g, resolved, same (.same given)⟩
  | literals alike =>
      cases alike with
      | same value => exact ⟨g, resolved, same (.same _)⟩
      | @texts s t alike =>
          obtain ⟨l, rfl, other⟩ := comparison_texts resolved t
          obtain ⟨negated, constant⟩ | ⟨value, constant⟩ | leaf := constant
          · cases constant
          · cases constant
          · cases leaf
            refine ⟨_, other, fun row bindings bindings' bound => ?_⟩
            exact (evaluate_operands d compares rfl rfl lowers bound (.literals (.texts alike)) row).symm

/-- A comparison that ignores case is rendered as one condition, which says the same of rows whose
texts differ in letter case at most. Unless it asks for membership, it resolves and says the same with
an operand, literal or bound, that differs in letter case at most. -/
theorem casefold_ignores_case (cased : LetterCase) (o : Operations) (lowers : cased.Lowers o)
    (schema : Schema) (model : EntityModel) (c : Comparison) (folded : c.casefold = true)
    (start after : JoinGraph) (g : WhereGroup)
    (resolved : (comparison schema model c).answer start = (.ok g, after)) (d : Dialect) :
    RenderedAs d g (g.condition d)
      ∧ (∀ (row row' : JoinedRow) (bindings : Bindings), cased.Rows row row' →
          (g.condition d).evaluate o row bindings = (g.condition d).evaluate o row' bindings)
      ∧ (c.op.isMembership = false → ∀ operand, cased.Operands c.operand operand →
          ∃ g', (comparison schema model { c with operand }).answer start = (.ok g', after)
            ∧ RenderedAs d g' (g'.condition d)
            ∧ ∀ (row : JoinedRow) (bindings bindings' : Bindings), cased.Bound bindings bindings' →
              (g'.condition d).evaluate o row bindings' =
                (g.condition d).evaluate o row bindings) := by
  refine ⟨renderedAs_condition d (comparison_formed resolved), ?_, ?_⟩
  · intro row row' bindings alike
    exact rows_alike lowers folded resolved d alike bindings
  · intro compares operand alike
    obtain ⟨g', other, same⟩ := operands_alike lowers folded compares resolved d alike
    exact ⟨g', other, renderedAs_condition d (comparison_formed other), same⟩

def latin : LetterCase where
  alike c c' := c = c' ∨ c.isAlpha ∧ c'.isAlpha ∧ c.toLower = c'.toLower
  refl _ := Or.inl rfl
  letters c c' alike other special member := by
    have plain : ∀ special ∈ ['\\', '%', '_'], special.isAlpha = false := by
      intro special member
      rw [List.mem_cons, List.mem_cons, List.mem_singleton] at member
      rcases member with rfl | rfl | rfl
      · rfl
      · rfl
      · rfl
    obtain ⟨first, second, -⟩ := alike.resolve_left other
    refine ⟨?_, ?_⟩
    · rintro rfl
      exact Bool.false_ne_true ((plain c member).symm.trans first)
    · rintro rfl
      exact Bool.false_ne_true ((plain c' member).symm.trans second)

def latinOperations : Operations where
  lower
    | .text s => .text (String.ofList (s.toList.map Char.toLower))
    | value => value
  holds _ left right := left == right
  fits _ _ _ := false

theorem latin_lowers : latin.Lowers latinOperations := by
  intro s t alike
  have lowered : s.toList.map Char.toLower = t.toList.map Char.toLower := by
    have each : List.Forall₂ latin.alike s.toList t.toList := alike
    generalize s.toList = cs at each ⊢
    generalize t.toList = cs' at each ⊢
    induction each with
    | nil => rfl
    | cons first rest ih =>
        rw [List.map_cons, List.map_cons, ih]
        rcases first with rfl | ⟨-, -, same⟩
        · rfl
        · rw [same]
  exact congrArg (fun cs => Value.text (String.ofList cs)) lowered

theorem latin_texts {s t : String} (lowered : s.toList.map Char.toLower = t.toList.map Char.toLower)
    (first : s.toList.all Char.isAlpha = true) (second : t.toList.all Char.isAlpha = true) :
    latin.Texts s t := by
  show List.Forall₂ latin.alike s.toList t.toList
  generalize s.toList = cs at *
  generalize t.toList = cs' at *
  induction cs generalizing cs' with
  | nil =>
      cases cs' with
      | nil => exact .nil
      | cons c' cs' => cases lowered
  | cons c cs ih =>
      cases cs' with
      | nil => cases lowered
      | cons c' cs' =>
          rw [List.map_cons, List.map_cons, List.cons.injEq] at lowered
          rw [List.all_cons, Bool.and_eq_true] at first second
          exact .cons (Or.inr ⟨first.1, second.1, lowered.1⟩) (ih first.2 cs' second.2 lowered.2)

/-- A note is found whatever its case. -/
theorem shouted_note_found :
    latin.Lowers latinOperations
      ∧ (comparison ⟨fun _ => notes⟩ notes ⟨"body", .eq, .literal (.text "Milk"), true⟩).answer
          (JoinGraph.ofModel notes) =
        (.ok (.leaf ⟨⟨⟨0⟩, "body"⟩, .eq, .literal (.text "Milk"), none, true⟩), JoinGraph.ofModel notes)
      ∧ ((WhereGroup.leaf ⟨⟨⟨0⟩, "body"⟩, .eq, .literal (.text "Milk"), none, true⟩).condition
            .sqlite).evaluate latinOperations ⟨fun _ => .text "MILK", fun _ => .null⟩ [] = some .yes := by
  have resolved : (comparison ⟨fun _ => notes⟩ notes ⟨"body", .eq, .literal (.text "Milk"), true⟩).answer
      (JoinGraph.ofModel notes) =
        (.ok (.leaf ⟨⟨⟨0⟩, "body"⟩, .eq, .literal (.text "Milk"), none, true⟩),
          JoinGraph.ofModel notes) := rfl
  have alike : latin.Rows ⟨fun _ => .text "MILK", fun _ => .null⟩ ⟨fun _ => .text "milk", fun _ => .null⟩ :=
    ⟨rfl, fun _ => .texts (latin_texts (by decide) (by decide) (by decide))⟩
  obtain ⟨-, rows, -⟩ := casefold_ignores_case latin latinOperations latin_lowers _ _ _ rfl _ _ _
    resolved .sqlite
  refine ⟨latin_lowers, resolved, ?_⟩
  rw [rows _ _ [] alike]
  decide

/-- A list is compared as it is: with the same name in another case it says something else. -/
theorem lists_mind_case :
    latin.Lowers latinOperations ∧ latin.Texts "Milk" "milk"
      ∧ (["Milk", "milk"].map fun item =>
          (comparison ⟨fun _ => notes⟩ notes
            ⟨"body", .isIn, .literal (.list [.text item]), true⟩).answer (JoinGraph.ofModel notes)) =
        (["Milk", "milk"].map fun item =>
          (.ok (.leaf ⟨⟨⟨0⟩, "body"⟩, .isIn, .literal (.list [.text item]), none, true⟩),
            JoinGraph.ofModel notes))
      ∧ (["Milk", "milk"].map fun item =>
          ((WhereGroup.leaf ⟨⟨⟨0⟩, "body"⟩, .isIn, .literal (.list [.text item]), none,
            true⟩).condition .sqlite).evaluate latinOperations
              ⟨fun _ => .text "Milk", fun _ => .null⟩ []) = [some .no, some .yes]
      ∧ (["Milk", "milk"].map fun item =>
          ((WhereGroup.leaf ⟨⟨⟨0⟩, "body"⟩, .notIn, .variable "items", none,
            true⟩).condition .sqlite).evaluate latinOperations
              ⟨fun _ => .text "Milk", fun _ => .null⟩ [("items", .list [.text item])]) =
        [some .yes, some .no] :=
  ⟨latin_lowers, latin_texts (by decide) (by decide) (by decide), rfl, by decide, by decide⟩

end EntityStore.Sql
