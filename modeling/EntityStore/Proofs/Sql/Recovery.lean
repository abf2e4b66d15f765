import EntityStore.Proofs.Sql.Independence
import EntityStore.Proofs.Sql.Unambiguity

/-!
Filters recovered from their text. A condition that has been read gives the filter back: the signs give
the operators, a pattern the text that it finds, the slots the values. One part of a conjunction or
disjunction comes back as itself. A pattern comes back with the operator that it is written for, and
where the same text is written for several operators with one of these.
-/

namespace EntityStore

open Sql Sql.Grammar

/-! ### Patterns -/

namespace Sql

def unescapeLike : Bool → List Char → List Char × Bool
  | _, [] => ([], false)
  | true, c :: rest => (c :: (unescapeLike false rest).1, (unescapeLike false rest).2)
  | false, c :: rest =>
    if c = '\\' then unescapeLike true rest
    else if c = '%' then ([], true)
    else (c :: (unescapeLike false rest).1, (unescapeLike false rest).2)

/-- The kind of a pattern and the text that it finds. -/
def readPattern (pattern : String) : PatternKind × String :=
  if pattern.toList.head? = some '%' then
    let (text, more) := unescapeLike false pattern.toList.tail
    (if more then .contains else .endsWith, String.ofList text)
  else (.startsWith, String.ofList (unescapeLike false pattern.toList).1)

private theorem unescapeLike_escaped (cs rest : List Char) :
    unescapeLike false (escapeLikeChars cs ++ rest) =
      (cs ++ (unescapeLike false rest).1, (unescapeLike false rest).2) := by
  induction cs with
  | nil => rfl
  | cons c cs ih =>
      rw [escapeLikeChars]
      split
      · next special =>
          rw [List.cons_append, unescapeLike, if_pos rfl, List.cons_append, unescapeLike, ih]
          rfl
      · next plain =>
          rw [not_or, not_or] at plain
          rw [List.cons_append, unescapeLike, if_neg plain.1, if_neg plain.2.1, ih]
          rfl

private theorem head_escapeLikeChars (c : Char) (cs rest : List Char) :
    (escapeLikeChars (c :: cs) ++ rest).head? ≠ some '%' := by
  rw [escapeLikeChars]
  split
  · rw [List.cons_append, List.head?_cons]
    decide
  · next plain =>
      rw [List.cons_append, List.head?_cons]
      intro same
      exact plain (Or.inr (Or.inl (Option.some.inj same)))

/-- The kind under which a pattern comes back: the empty text has the same pattern at the start and at
the end. -/
def PatternKind.written (kind : PatternKind) (text : String) : PatternKind :=
  if kind = .startsWith ∧ text = "" then .endsWith else kind

/-- A pattern is read as what it was made from. -/
theorem readPattern_wrap (kind : PatternKind) (text : String) :
    readPattern (kind.wrap text) = (kind.written text, text) := by
  cases kind with
  | contains =>
      have read := unescapeLike_escaped text.toList ['%']
      simp [readPattern, PatternKind.wrap, PatternKind.written, escapeLike, read, unescapeLike]
  | endsWith =>
      have read := unescapeLike_escaped text.toList []
      rw [List.append_nil] at read
      simp [readPattern, PatternKind.wrap, PatternKind.written, escapeLike, read, unescapeLike]
  | startsWith =>
      have wrapped : (PatternKind.startsWith.wrap text).toList =
          escapeLikeChars text.toList ++ ['%'] := by
        simp [PatternKind.wrap, escapeLike]
      have read := unescapeLike_escaped text.toList ['%']
      by_cases blank : text = ""
      · subst blank
        simp [readPattern, wrapped, PatternKind.written, escapeLikeChars, unescapeLike]
      · have filled : text.toList ≠ [] := fun empty => blank (String.toList_eq_nil_iff.1 empty)
        obtain ⟨c, cs, spelled⟩ := List.exists_cons_of_ne_nil filled
        have begins := head_escapeLikeChars c cs ['%']
        rw [← spelled] at begins
        rw [readPattern, wrapped, if_neg begins, read]
        simp [unescapeLike, PatternKind.written, blank]

end Sql

/-! ### Comparisons -/

def Sql.Grammar.Term.column? : Term → Option (ColumnRef × Bool)
  | .column c => some (c, false)
  | .lower (.column c) => some (c, true)
  | _ => none

def Sql.Grammar.Term.left? : Term → Option ((ColumnRef × Bool) × Option Value)
  | .coalesce t (.parameter (.literal value)) => t.column?.map (·, some value)
  | t => t.column?.map (·, none)

def Sql.Grammar.Term.value? : Term → Option Value
  | .parameter (.literal value) => some value
  | _ => none

def Sql.Grammar.Term.operand? : Term → Option Operand
  | .lower t => t.operand?
  | .parameter (.literal value) => some (.literal value)
  | .parameter (.variable name _) => some (.variable name)
  | .fragment sql => some (.raw sql)
  | _ => none

def Sql.PatternKind.op : PatternKind → CompareOp
  | .contains => .contains
  | .startsWith => .startsWith
  | .endsWith => .endsWith

def Sql.Grammar.Term.pattern? : Term → Option (CompareOp × Operand)
  | .lower t => t.pattern?
  | .parameter (.literal (.text pattern)) =>
    some ((readPattern pattern).1.op, .literal (.text (readPattern pattern).2))
  | .parameter (.variable name (some kind)) => some (kind.op, .variable name)
  | .fragment sql => some (.contains, .raw sql)
  | _ => none

def comparisonOps : List CompareOp :=
  [.eq, .ne, .lt, .lte, .gt, .gte]

def signOp? (sign : String) : Option CompareOp :=
  comparisonOps.find? (comparisonSign · == sign)

def memberOp (negated : Bool) : CompareOp :=
  if negated then .notIn else .isIn

def Sql.Grammar.Test.comparison? : Test → Option (CompareOp × Operand)
  | .compare sign right => do return (← signOp? sign, ← right.operand?)
  | .like right _ => right.pattern?
  | .member negated items => do
    return (memberOp negated, .literal (.list (← items.mapM Term.value?)))
  | .null _ => none

def leafOf? (left : Term) (compared? : Option (CompareOp × Operand)) : Option WhereGroup := do
  let ((column, casefold), absent?) ← left.left?
  let (op, operand) ← compared?
  return .leaf { column, op, operand, absent?, casefold }

mutual

/-- The filter that says what the condition says. -/
def Sql.Grammar.Condition.filter? : Condition → Option WhereGroup
  | .const value => some (.const value)
  | .test (.column column) (.null negated) => some (.null column negated)
  | .test left asked => leafOf? left asked.comparison?
  | .listed negated left name => leafOf? left (some (memberOp negated, .variable name))
  | .not part => (Condition.filter? part).map .not
  | .all parts => (Condition.filters? parts).map .all
  | .any parts => (Condition.filters? parts).map .any

def Sql.Grammar.Condition.filters? : List Condition → Option (List WhereGroup)
  | [] => some []
  | c :: cs => do return (← Condition.filter? c) :: (← Condition.filters? cs)

end

/-- The operator that a comparison comes back with. With a raw fragment every pattern operator has the
same text. -/
def WhereLeaf.writtenOp (l : WhereLeaf) : CompareOp :=
  match patternOf? l.op, l.operand with
  | some _, .raw _ => .contains
  | some kind, .literal (.text text) => (kind.written text).op
  | _, _ => l.op

mutual

/-- The filter as it comes back: one part of a conjunction or disjunction stands for itself. -/
def WhereGroup.written : WhereGroup → WhereGroup
  | .all parts => grouped .all (WhereGroup.writtenEach parts)
  | .any parts => grouped .any (WhereGroup.writtenEach parts)
  | .not part => .not (WhereGroup.written part)
  | .leaf l => .leaf { l with op := l.writtenOp }
  | other => other

def WhereGroup.writtenEach : List WhereGroup → List WhereGroup
  | [] => []
  | g :: gs => WhereGroup.written g :: WhereGroup.writtenEach gs

end

/-! ### There and back -/

private theorem left_leaf (l : WhereLeaf) :
    l.left.left? = some ((l.column, l.casefold), l.absent?) := by
  unfold WhereLeaf.left
  cases l.casefold <;> cases l.absent? <;> rfl

private theorem signOp_comparisonSign {op : CompareOp} (compares : op.isMembership = false)
    (plain : op.isPattern = false) : signOp? (comparisonSign op) = some op := by
  cases op <;>
    first | decide | exact absurd compares (by decide) | exact absurd plain (by decide)

theorem patternOf_none {op : CompareOp} (plain : op.isPattern = false) : patternOf? op = none := by
  cases op <;> first | rfl | exact absurd plain (by decide)

theorem patternOf_some {op : CompareOp} (pattern : op.isPattern = true) :
    ∃ kind, patternOf? op = some kind ∧ op = kind.op := by
  cases op <;> first | exact ⟨_, rfl, rfl⟩ | exact absurd pattern (by decide)

private theorem pattern_term {l : WhereLeaf} (formed : l.Formed) (pattern : l.op.isPattern = true) :
    (operandTerm (patternOf? l.op) l.operand).pattern? = some (l.writtenOp, l.operand) := by
  obtain ⟨kind, kindOf, op⟩ := patternOf_some pattern
  have literal := formed.pattern pattern
  rw [WhereLeaf.writtenOp, kindOf, op]
  cases operand : l.operand with
  | raw sql => rfl
  | «variable» name => rfl
  | literal value =>
      obtain ⟨text, rfl⟩ := literal value operand
      rw [operandTerm, operandValue, Term.pattern?, readPattern_wrap]

private theorem pattern_right {l : WhereLeaf} (formed : l.Formed) (pattern : l.op.isPattern = true) :
    l.right.pattern? = some (l.writtenOp, l.operand) := by
  have inner := pattern_term formed pattern
  unfold WhereLeaf.right
  cases l.casefold <;> exact inner

theorem writtenOp_plain {l : WhereLeaf} (plain : l.op.isPattern = false) : l.writtenOp = l.op := by
  rw [WhereLeaf.writtenOp, patternOf_none plain]

private theorem operand_right {l : WhereLeaf} (plain : l.op.isPattern = false) :
    l.right.operand? = some l.operand := by
  have inner : (operandTerm (patternOf? l.op) l.operand).operand? = some l.operand := by
    rw [patternOf_none plain]
    cases l.operand with
    | literal value => cases value <;> rfl
    | _ => rfl
  unfold WhereLeaf.right
  cases l.casefold <;> exact inner

private theorem values_terms (values : List Value) :
    (values.map fun v => Term.parameter (.literal v)).mapM Term.value? = some values := by
  induction values with
  | nil => rfl
  | cons value rest ih =>
      rw [List.map_cons, List.mapM_cons, ih]
      rfl

theorem leafOf_left (l : WhereLeaf) {op : CompareOp} {operand : Operand} :
    leafOf? l.left (some (op, operand)) =
      some (.leaf { l with op, operand }) := by
  rw [leafOf?, left_leaf]
  rfl

private theorem filter_test (l : WhereLeaf) {asked : Test} {op : CompareOp} {operand : Operand}
    (compared : asked.comparison? = some (op, operand)) :
    (Condition.test l.left asked).filter? = some (.leaf { l with op, operand }) := by
  have whole : (Condition.test l.left asked).filter? = leafOf? l.left asked.comparison? := by
    cases asked with
    | null negated => cases compared
    | _ => rw [Condition.filter?]; simp
  rw [whole, compared, leafOf_left]

/-- A comparison comes back as itself. -/
theorem filter_leaf (d : Dialect) {l : WhereLeaf} (formed : l.Formed) :
    (l.condition d).filter? = some (.leaf { l with op := l.writtenOp }) := by
  unfold WhereLeaf.condition
  cases member : l.op.isMembership with
  | true =>
      have op : l.writtenOp = memberOp (l.op == .notIn) := by
        rw [writtenOp_plain (by cases same : l.op <;> first | rfl | exact absurd (same ▸ member) (by decide))]
        cases same : l.op <;> first | rfl | exact absurd (same ▸ member) (by decide)
      rw [if_pos rfl, op]
      obtain ⟨-, ⟨v, vs, listed⟩ | ⟨name, named⟩⟩ := formed.membership member
      · rw [listed]
        refine filter_test l ?_
        rw [Test.comparison?, values_terms]
        rfl
      · rw [named, Condition.filter?, leafOf_left]
  | false =>
      rw [if_neg Bool.false_ne_true]
      cases pattern : l.op.isPattern with
      | true =>
          rw [if_pos rfl]
          exact filter_test l (pattern_right formed pattern)
      | false =>
          rw [if_neg Bool.false_ne_true, writtenOp_plain pattern]
          refine filter_test l ?_
          rw [Test.comparison?, signOp_comparisonSign member pattern, operand_right pattern]
          rfl

private theorem filters_cons {c : Condition} {cs : List Condition} {gs : List WhereGroup}
    (each : Condition.filters? (c :: cs) = some gs) :
    ∃ g rest, gs = g :: rest ∧ c.filter? = some g ∧ Condition.filters? cs = some rest := by
  rw [Condition.filters?] at each
  obtain ⟨g, first, each⟩ := Option.bind_eq_some_iff.1 each
  obtain ⟨rest, others, each⟩ := Option.bind_eq_some_iff.1 each
  cases each
  exact ⟨g, rest, rfl, first, others⟩

private theorem filter_grouped (make : List Condition → Condition)
    (made : List WhereGroup → WhereGroup)
    (back : ∀ cs, (make cs).filter? = (Condition.filters? cs).map made) {cs : List Condition}
    {gs : List WhereGroup} (each : Condition.filters? cs = some gs) :
    (grouped make cs).filter? = some (grouped made gs) := by
  have whole : (make cs).filter? = some (made gs) := by
    rw [back, each]
    rfl
  cases cs with
  | nil =>
      cases each
      exact whole
  | cons c cs =>
      obtain ⟨g, gs, rfl, first, rest⟩ := filters_cons each
      cases cs with
      | nil =>
          cases rest
          exact first
      | cons next cs =>
          obtain ⟨other, gs, rfl, -, -⟩ := filters_cons rest
          exact whole

mutual

private theorem filter_condition (d : Dialect) (g : WhereGroup) (formed : g.Formed) :
    (g.condition d).filter? = some g.written := by
  cases g with
  | const value => rfl
  | null column negated => rfl
  | leaf l => exact filter_leaf d formed
  | not part =>
      have inner : (part.condition d).filter? = some part.written := filter_condition d part formed
      rw [WhereGroup.condition, Condition.filter?, inner]
      rfl
  | all parts =>
      exact filter_grouped .all .all (fun _ => rfl) (filters_conditions d parts formed.2)
  | any parts =>
      exact filter_grouped .any .any (fun _ => rfl) (filters_conditions d parts formed.2)

theorem filters_conditions (d : Dialect) (gs : List WhereGroup) (formed : WhereGroup.EachFormed gs) :
    Condition.filters? (WhereGroup.conditions d gs) = some (WhereGroup.writtenEach gs) := by
  cases gs with
  | nil => rfl
  | cons g gs =>
      rw [WhereGroup.conditions, Condition.filters?, filter_condition d g formed.1,
        filters_conditions d gs formed.2]
      rfl

end

/-! ### What comes back, written again -/

private theorem wrap_written (kind : PatternKind) (text : String) :
    (kind.written text).wrap text = kind.wrap text := by
  unfold PatternKind.written
  split
  · next blank =>
      obtain ⟨rfl, rfl⟩ := blank
      rfl
  · rfl

/-- The pattern operator that comes back asks for the same parameter. -/
private theorem written_pattern (l : WhereLeaf) {kind : PatternKind}
    (kindOf : patternOf? l.op = some kind) (op : l.op = kind.op) :
    ∃ back : PatternKind, l.writtenOp = back.op ∧
      operandFragment (some back) l.operand = operandFragment (some kind) l.operand := by
  rw [WhereLeaf.writtenOp, kindOf]
  cases l.operand with
  | raw sql => exact ⟨.contains, rfl, rfl⟩
  | «variable» name => exact ⟨kind, op, rfl⟩
  | literal value =>
      cases value with
      | text text =>
          refine ⟨kind.written text, rfl, ?_⟩
          simp only [operandFragment, operandValue, wrap_written]
      | _ => exact ⟨kind, op, rfl⟩

private theorem leafFragment_written (d : Dialect) (l : WhereLeaf) :
    leafFragment d { l with op := l.writtenOp } = leafFragment d l := by
  cases pattern : l.op.isPattern with
  | false => rw [writtenOp_plain pattern]
  | true =>
      obtain ⟨kind, kindOf, op⟩ := patternOf_some pattern
      obtain ⟨back, written, same⟩ := written_pattern l kindOf op
      have fragment (k : PatternKind) : leafFragment d { l with op := k.op } = (do
          let column ← leafColumn d l
          let right ← operandFragment (some k) l.operand
          return column ++ raw " LIKE " ++ lowered l.casefold right ++ raw d.likeEscape) := by
        cases k <;> rfl
      have itself : l = { l with op := kind.op } := by
        rw [← op]
      rw [written, fragment, same, itself]
      exact (fragment kind).symm

private theorem groupFragment_grouped (d : Dialect) (word : String)
    (make : List WhereGroup → WhereGroup)
    (spelled : ∀ gs, groupFragment d (make gs) = bracketed word <$> groupFragments d gs)
    (gs : List WhereGroup) :
    groupFragment d (grouped make gs) = groupFragment d (make gs) := by
  cases gs with
  | nil => rfl
  | cons g gs =>
      cases gs with
      | nil =>
          rw [spelled, groupFragments, groupFragments]
          simp [grouped, bracketed]
      | cons next gs => rfl

mutual

private theorem groupFragment_written (d : Dialect) (g : WhereGroup) :
    groupFragment d g.written = groupFragment d g := by
  cases g with
  | const value => rfl
  | null column negated => rfl
  | leaf l => exact leafFragment_written d l
  | not part =>
      rw [WhereGroup.written, groupFragment, groupFragment, groupFragment_written d part]
  | all parts =>
      rw [WhereGroup.written, groupFragment_grouped d " AND " .all fun _ => rfl, groupFragment,
        groupFragment, groupFragments_written d parts]
  | any parts =>
      rw [WhereGroup.written, groupFragment_grouped d " OR " .any fun _ => rfl, groupFragment,
        groupFragment, groupFragments_written d parts]

theorem groupFragments_written (d : Dialect) (gs : List WhereGroup) :
    groupFragments d (WhereGroup.writtenEach gs) = groupFragments d gs := by
  cases gs with
  | nil => rfl
  | cons g gs =>
      rw [WhereGroup.writtenEach, groupFragments, groupFragments, groupFragment_written d g,
        groupFragments_written d gs]

end

/-! ### The text of a filter -/

/-- The text of every resolved filter is a condition in one way, in every dialect and whatever has been
asked for before: the fragment is spelled by a text with the raw fragments of the filter, one operand
each, and this text is read as what the filter says and as nothing else. That gives a filter of the same
text back, the filter itself apart from groups of one part and from patterns with one text. -/
theorem filter_text_read_once (schema : Schema) (model : EntityModel) (p : Predicate)
    (before after : JoinGraph) (g : WhereGroup)
    (resolved : (Resolve.filter schema model p).answer before = (.ok g, after)) (d : Dialect)
    (asked : List SlotSource) :
    ∃ fragment added text, (groupFragment d g).run asked = (fragment, asked ++ added)
      ∧ spelledOut text = marked fragment ∧ fragmentsOf text = g.fragments
      ∧ (∀ later c, ReadsAs d (asked ++ added ++ later) text c ↔ c = g.condition d)
      ∧ (g.condition d).filter? = some g.written
      ∧ groupFragment d g.written = groupFragment d g := by
  have formed := Resolve.filter_formed p resolved
  obtain ⟨fragment, added, text, ran, spells, fragments, reads⟩ := renderedAs_condition d formed asked
  exact ⟨fragment, added, text, ran, spells, fragments, reads, filter_condition d g formed,
    groupFragment_written d g⟩

def fewNotes : Predicate :=
  .any [.all [.compare { field := "body", op := .contains, operand := .literal (.text "100%") }],
    .not (.compare { field := "id", op := .isIn, operand := .literal (.list [.int 4, .int 9]) })]

def fewNotesFilter : WhereGroup :=
  .any [.all [.leaf ⟨⟨⟨0⟩, "body"⟩, .contains, .literal (.text "100%"), none, false⟩],
    .not (.leaf ⟨⟨⟨0⟩, "id"⟩, .isIn, .literal (.list [.int 4, .int 9]), none, false⟩)]

/-- A few notes are asked for in one way only. -/
theorem few_notes_read_once :
    (Resolve.filter ⟨fun _ => notes⟩ notes fewNotes).answer (JoinGraph.ofModel notes) =
        (.ok fewNotesFilter, JoinGraph.ofModel notes)
      ∧ ∃ fragment added text, (groupFragment .sqlite fewNotesFilter).run [] = (fragment, added)
        ∧ spelledOut text = marked fragment
        ∧ ∀ later c, ReadsAs .sqlite (added ++ later) text c ↔ c = fewNotesFilter.condition .sqlite := by
  have resolved : (Resolve.filter ⟨fun _ => notes⟩ notes fewNotes).answer (JoinGraph.ofModel notes) =
      (.ok fewNotesFilter, JoinGraph.ofModel notes) := rfl
  obtain ⟨fragment, added, text, ran, spells, -, reads, -⟩ :=
    filter_text_read_once ⟨fun _ => notes⟩ notes fewNotes _ _ fewNotesFilter resolved .sqlite []
  exact ⟨resolved, fragment, added, text, ran, spells, reads⟩

/-- Two predicates on notes that ask for one comparison each, and not for the same one, but have the
same text and the same slots in every dialect. -/
def PrintAlike (p q : Predicate) : Prop :=
  ∃ l m : WhereLeaf, l ≠ m
    ∧ (Resolve.filter ⟨fun _ => notes⟩ notes p).answer (JoinGraph.ofModel notes) =
      (.ok (.leaf l), JoinGraph.ofModel notes)
    ∧ (Resolve.filter ⟨fun _ => notes⟩ notes q).answer (JoinGraph.ofModel notes) =
      (.ok (.leaf m), JoinGraph.ofModel notes)
    ∧ (WhereGroup.leaf l).fragments = (WhereGroup.leaf m).fragments
    ∧ ∀ d, groupFragment d (.leaf l) = groupFragment d (.leaf m)

def bodyLike (op : CompareOp) (operand : Operand) : Predicate :=
  .compare { field := "body", op, operand }

/-- The operators for the start and the end of a text have one text with a raw fragment, and with the
empty text. -/
theorem start_and_end_print_alike :
    PrintAlike (bodyLike .startsWith (.raw "'draft'")) (bodyLike .endsWith (.raw "'draft'"))
      ∧ PrintAlike (bodyLike .startsWith (.literal (.text "")))
        (bodyLike .endsWith (.literal (.text ""))) := by
  have apart (operand : Operand) :
      (⟨⟨⟨0⟩, "body"⟩, .startsWith, operand, none, false⟩ : WhereLeaf) ≠
        ⟨⟨⟨0⟩, "body"⟩, .endsWith, operand, none, false⟩ := by
    intro same
    cases congrArg WhereLeaf.op same
  exact ⟨⟨_, _, apart (.raw "'draft'"), rfl, rfl, rfl, fun _ => rfl⟩,
    _, _, apart (.literal (.text "")), rfl, rfl, rfl, fun _ => rfl⟩

end EntityStore
