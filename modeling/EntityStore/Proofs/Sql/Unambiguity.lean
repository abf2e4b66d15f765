import EntityStore.Proofs.Filter.Resolution
import EntityStore.Proofs.Sql.Grammar
import EntityStore.Proofs.Sql.Spelling

/-!
Filters are read as they were meant. The condition of a filter is what its text should say; the text of
every resolved filter is read as this condition and as no other. Parentheses are left out around one
part, so a conjunction or disjunction of one part is read as the part.
-/

namespace EntityStore

open Sql Sql.Grammar

/-! ### Filters that can be rendered -/

structure WhereLeaf.Formed (l : WhereLeaf) : Prop where
  membership : l.op.isMembership = true → l.absent? = none
    ∧ ((∃ v vs, l.operand = .literal (.list (v :: vs))) ∨ ∃ name, l.operand = .variable name)
  pattern : l.op.isPattern = true → ∀ value, l.operand = .literal value → ∃ text, value = .text text

mutual

def WhereGroup.Formed : WhereGroup → Prop
  | .all parts | .any parts => parts ≠ [] ∧ WhereGroup.EachFormed parts
  | .not part => WhereGroup.Formed part
  | .leaf l => l.Formed
  | _ => True

def WhereGroup.EachFormed : List WhereGroup → Prop
  | [] => True
  | g :: gs => WhereGroup.Formed g ∧ WhereGroup.EachFormed gs

end

namespace Resolve

variable {schema : Schema} {model : EntityModel}

private theorem operand_membership {type : SqlType} {op : CompareOp} {ref : ColumnRef}
    {operand : Operand}
    (several : constantComparison? ref op operand = none)
    (fits : operandFault? type op operand = none) (member : op.isMembership = true) :
    (∃ v vs, operand = .literal (.list (v :: vs))) ∨ ∃ name, operand = .variable name := by
  cases operand with
  | literal value =>
      cases value with
      | null =>
          cases op with
          | isIn => simp [operandFault?] at fits
          | notIn => simp [operandFault?] at fits
          | _ => cases member
      | list items =>
          cases items with
          | nil =>
              cases op with
              | isIn => simp [constantComparison?] at several
              | notIn => simp [constantComparison?] at several
              | _ => cases member
          | cons v vs => exact Or.inl ⟨v, vs, rfl⟩
      | _ => simp [operandFault?, member] at fits
  | «variable» name => exact Or.inr ⟨name, rfl⟩
  | raw sql => simp [operandFault?, member] at fits

private theorem operand_pattern {type : SqlType} {op : CompareOp} {operand : Operand}
    (fits : operandFault? type op operand = none) (pattern : op.isPattern = true) :
    ∀ value, operand = .literal value → ∃ text, value = .text text := by
  rintro value rfl
  have plain : op.isMembership = false := by
    cases op <;> first | rfl | cases pattern
  cases value with
  | text text => exact ⟨text, rfl⟩
  | null =>
      cases op with
      | eq => cases pattern
      | ne => cases pattern
      | _ => simp [operandFault?] at fits
  | _ =>
      simp only [operandFault?, plain, pattern, Value.isText] at fits
      cases text : type.isText <;> simp [text] at fits

private theorem constantComparison_formed {ref : ColumnRef} {op : CompareOp} {operand : Operand}
    {g : WhereGroup} (constant : constantComparison? ref op operand = some g) : g.Formed := by
  unfold constantComparison? at constant
  split at constant
  · split at constant <;> cases constant <;> exact trivial
  · split at constant <;> cases constant <;> exact trivial
  · cases constant

theorem comparison_formed {c : Comparison} {before after : JoinGraph} {g : WhereGroup}
    (resolved : (comparison schema model c).answer before = (.ok g, after)) : g.Formed := by
  unfold comparison at resolved
  obtain ⟨⟨ref, column⟩, reached, -, resolved⟩ := of_bind resolved
  dsimp only at resolved
  split at resolved
  · split at resolved
    · next constant =>
        cases of_pure resolved
        exact constantComparison_formed constant
    · next several =>
        split at resolved
        · cases resolved
        · next fits =>
            split at resolved
            · cases resolved
            · cases of_pure resolved
              have fits := Option.eq_none_iff_forall_ne_some.2 fits
              exact ⟨fun member => ⟨absentValue_membership member,
                operand_membership (Option.eq_none_iff_forall_ne_some.2 several) fits member⟩,
                operand_pattern fits⟩
  · cases resolved

private theorem isNull_formed {field : String} {negated : Bool} {before after : JoinGraph}
    {g : WhereGroup}
    (resolved : (do return .null (← column schema model field).1 negated : Resolve WhereGroup).answer
      before = (.ok g, after)) : g.Formed := by
  obtain ⟨found, reached, -, resolved⟩ := of_bind resolved
  cases of_pure resolved
  exact trivial

private theorem const_formed {value : Bool} {before after : JoinGraph} {g : WhereGroup}
    (resolved : (pure (.const value) : Resolve WhereGroup).answer before = (.ok g, after)) :
    g.Formed := by
  cases of_pure resolved
  exact trivial

mutual

/-- Every filter that comes from a predicate can be rendered. -/
theorem filter_formed (p : Predicate) {before after : JoinGraph} {g : WhereGroup}
    (resolved : (filter schema model p).answer before = (.ok g, after)) : g.Formed := by
  cases p with
  | always => exact const_formed resolved
  | never => exact const_formed resolved
  | all parts =>
      cases parts with
      | nil => exact const_formed resolved
      | cons p ps =>
          obtain ⟨gs, reached, each, resolved⟩ := of_bind resolved
          cases of_pure resolved
          exact filterEach_formed (p :: ps) (List.cons_ne_nil p ps) each
  | any parts =>
      cases parts with
      | nil => exact const_formed resolved
      | cons p ps =>
          obtain ⟨gs, reached, each, resolved⟩ := of_bind resolved
          cases of_pure resolved
          exact filterEach_formed (p :: ps) (List.cons_ne_nil p ps) each
  | not part =>
      obtain ⟨inner, reached, whole, resolved⟩ := of_bind resolved
      cases of_pure resolved
      have formed : inner.Formed := filter_formed part whole
      exact formed
  | isNull field => exact isNull_formed resolved
  | isNotNull field => exact isNull_formed resolved
  | compare c => exact comparison_formed resolved

theorem filterEach_formed (ps : List Predicate) (filled : ps ≠ []) {before after : JoinGraph}
    {gs : List WhereGroup}
    (resolved : (filterEach schema model ps).answer before = (.ok gs, after)) :
    gs ≠ [] ∧ WhereGroup.EachFormed gs := by
  cases ps with
  | nil => exact absurd rfl filled
  | cons p ps =>
      obtain ⟨g, reached, first, resolved⟩ := of_bind resolved
      obtain ⟨rest, reachedRest, others, resolved⟩ := of_bind resolved
      cases of_pure resolved
      refine ⟨List.cons_ne_nil g rest, filter_formed p first, ?_⟩
      cases ps with
      | nil =>
          cases of_pure others
          exact trivial
      | cons next ps => exact (filterEach_formed (next :: ps) (List.cons_ne_nil _ _) others).2

end

end Resolve

/-! ### The condition of a filter -/

def WhereLeaf.left (l : WhereLeaf) : Term :=
  let column := if l.casefold then Term.lower (.column l.column) else .column l.column
  match l.absent? with
  | none => column
  | some value => .coalesce column (.parameter (.literal value))

def operandTerm (pattern? : Option PatternKind) : Operand → Term
  | .literal value => .parameter (.literal (operandValue pattern? value))
  | .variable name => .parameter (.variable name pattern?)
  | .raw sql => .fragment sql

def WhereLeaf.right (l : WhereLeaf) : Term :=
  if l.casefold then .lower (operandTerm (patternOf? l.op) l.operand)
  else operandTerm (patternOf? l.op) l.operand

def Sql.Dialect.backslash : Dialect → String
  | .generic => "\\\\"
  | _ => "\\"

def WhereLeaf.condition (d : Dialect) (l : WhereLeaf) : Condition :=
  if l.op.isMembership then
    match l.operand with
    | .literal (.list items) =>
      .test l.left (.member (l.op == .notIn) (items.map fun v => .parameter (.literal v)))
    | .variable name => .listed (l.op == .notIn) l.left name
    | operand => .test l.left (.member (l.op == .notIn) [operandTerm none operand])
  else if l.op.isPattern then .test l.left (.like l.right d.backslash)
  else .test l.left (.compare (comparisonSign l.op) l.right)

mutual

/-- What a filter says. -/
def WhereGroup.condition (d : Dialect) : WhereGroup → Condition
  | .const value => .const value
  | .all parts => grouped .all (WhereGroup.conditions d parts)
  | .any parts => grouped .any (WhereGroup.conditions d parts)
  | .not part => .not (WhereGroup.condition d part)
  | .leaf l => l.condition d
  | .null column negated => .test (.column column) (.null negated)

def WhereGroup.conditions (d : Dialect) : List WhereGroup → List Condition
  | [] => []
  | g :: gs => WhereGroup.condition d g :: WhereGroup.conditions d gs

end

mutual

def WhereGroup.fragments : WhereGroup → List String
  | .const _ | .null .. => []
  | .all parts | .any parts => WhereGroup.fragmentsEach parts
  | .not part => WhereGroup.fragments part
  | .leaf l => Words.operand l.operand

def WhereGroup.fragmentsEach : List WhereGroup → List String
  | [] => []
  | g :: gs => WhereGroup.fragments g ++ WhereGroup.fragmentsEach gs

end

namespace Sql

variable (d : Dialect)

/-! ### Terms -/

def IsTerm (t : Term) : Meaning :=
  fun sources ls => ReadsTerm sources ls t

theorem spells_literal (value : Value) :
    Spells d (Writer.literal value) [] (IsTerm (.parameter (.literal value))) :=
  spells_push fun _ _ source => .parameter source rfl

theorem spells_operand (pattern? : Option PatternKind) (operand : Operand) :
    Spells d (operandFragment pattern? operand) (Words.operand operand)
      (IsTerm (operandTerm pattern? operand)) := by
  cases operand with
  | literal value => exact spells_literal d _
  | «variable» name => exact spells_push fun _ _ source => .parameter source rfl
  | raw sql => exact yields_pure fun _ => spelled_fragment fun _ => .fragment sql

variable {d}

theorem parts_blank {s : String} (begins : s.toList.head? = some ' ') : Parts (letters s) := by
  refine ⟨fun none => ?_, fun symbol first => Or.inl ?_⟩
  · rw [letters, symbols, List.map_eq_nil_iff] at none
    rw [none] at begins
    cases begins
  · rw [letters, symbols, List.head?_map, begins] at first
    cases first
    rfl

theorem parts_closing : Parts (letters ")") :=
  ⟨by simp [letters, symbols], by simp [Parted, letters, symbols]⟩

theorem parts_comma : Parts (letters ", ") :=
  ⟨by simp [letters, symbols], by simp [Parted, letters, symbols]⟩

theorem Spelled.lowered {before added : List SlotSource} {f : Fragment} {raws : List String} {t : Term}
    (casefold : Bool) (spelled : Spelled d before added f raws (IsTerm t)) :
    Spelled d before added (Sql.lowered casefold f) raws
      (IsTerm (if casefold then .lower t else t)) := by
  cases casefold with
  | false => exact spelled
  | true =>
      exact spelled.enclosed (closes_lower d) parts_closing (closes_closing d).scans
        fun _ _ inner => .lower inner

theorem scans_leafColumnText (l : WhereLeaf) :
    ∃ ls, Scans d (letters (leafColumnText d l)) ls
      ∧ ∀ sources, ReadsTerm sources ls
          (if l.casefold then Term.lower (.column l.column) else .column l.column) := by
  unfold leafColumnText
  cases l.casefold with
  | false => exact ⟨_, scans_column l.column, fun _ => .column l.column⟩
  | true =>
      refine ⟨_, ?_, fun _ => .lower (.column l.column)⟩
      rw [if_pos rfl, letters_append, letters_append, List.append_assoc]
      exact (closes_lower d).followed
        ((scans_column l.column).followed parts_closing (closes_closing d).scans)

private theorem readsTerm_pair {sources : List SlotSource} {ls : List Lexeme} {t u : Term}
    (both : Both (IsTerm t) [.comma] (IsTerm u) sources ls) :
    IsTerm (.coalesce t u) sources ([.word "COALESCE", .opening] ++ (ls ++ [.closing])) := by
  obtain ⟨first, second, rfl, left, right⟩ := both
  rw [List.append_assoc, List.append_assoc]
  exact .coalesce left right

theorem spells_left (l : WhereLeaf) : Spells d (leafColumn d l) [] (IsTerm l.left) := by
  obtain ⟨ls, scans, reads⟩ := scans_leafColumnText (d := d) l
  unfold leafColumn WhereLeaf.left
  cases l.absent? with
  | none => exact yields_pure fun _ => spelled_raw scans reads
  | some value =>
      refine Yields.arranged (spells_literal d value) fun {before added f} spelled => ?_
      have column : Spelled d before [] (raw (leafColumnText d l)) []
          (IsTerm (if l.casefold then Term.lower (.column l.column) else .column l.column)) :=
        spelled_raw scans reads
      rw [← List.append_nil before] at spelled
      have pair := column.joined parts_comma (closes_comma d) spelled
      have whole : Spelled d before ([] ++ added) (raw "COALESCE("
          ++ (raw (leafColumnText d l) ++ raw ", " ++ f) ++ raw ")") ([] ++ []) (IsTerm _) :=
        pair.enclosed (closes_coalesce d) parts_closing (closes_closing d).scans fun sources inner both =>
          readsTerm_pair both
      simp only [← List.append_assoc] at whole
      exact whole

/-! ### Comparisons -/

def IsAtom (d : Dialect) (c : Condition) : Meaning :=
  fun sources ls => ReadsAtom d sources ls c

private theorem spells_comparison {l : WhereLeaf} (compares : l.op.isMembership = false)
    (plain : l.op.isPattern = false) :
    Spells d (leafFragment d l) (Words.operand l.operand) (IsAtom d (l.condition d)) := by
  have sign : Closes d (letters (" " ++ comparisonSign l.op ++ " ")) [.sign (comparisonSign l.op)]
      ∧ Parts (letters (" " ++ comparisonSign l.op ++ " "))
      ∧ comparisonSign l.op ∈ comparisonSigns := by
    cases op : l.op <;> simp only [op, CompareOp.isMembership, CompareOp.isPattern, Bool.true_eq_false] at compares plain
    all_goals refine ⟨fun rest => ?_, parts_blank rfl, by decide⟩
    all_goals cases d <;> rfl
  obtain ⟨closes, parts, known⟩ := sign
  unfold leafFragment WhereLeaf.condition
  rw [compares, plain]
  refine Yields.both (spells_left l) (spells_operand d (patternOf? l.op) l.operand) fun left right => ?_
  have whole := left.joined parts closes (right.lowered l.casefold)
  rw [if_neg Bool.false_ne_true, List.append_nil]
  refine whole.imp ?_
  rintro sources _ ⟨ls, ms, rfl, left, right⟩
  rw [List.append_assoc]
  exact .test left (.compare known right)

private theorem scans_likeEscape (d : Dialect) :
    Scans d (letters d.likeEscape) [.word "ESCAPE", .quoted d.backslash] := by
  intro rest parted
  have begun : Lexeme.scan d (letters d.likeEscape ++ rest) =
      .word "ESCAPE" :: Lexeme.scanFrom d (.ended '\'' d.backslash.toList) rest := by
    cases d <;> rfl
  rw [begun, scanFrom_quoted_parted parted]
  cases d <;> rfl

private theorem spells_pattern {l : WhereLeaf} (compares : l.op.isMembership = false)
    (pattern : l.op.isPattern = true) :
    Spells d (leafFragment d l) (Words.operand l.operand) (IsAtom d (l.condition d)) := by
  have sign : comparisonSign l.op = "LIKE" := by
    cases op : l.op <;> first | rfl | simp [op, CompareOp.isPattern] at pattern
  have parts : Parts (letters d.likeEscape) := by
    cases d <;> exact parts_blank rfl
  unfold leafFragment WhereLeaf.condition
  rw [compares, pattern, sign]
  refine Yields.both (spells_left l) (spells_operand d (patternOf? l.op) l.operand) fun left right => ?_
  have pair := left.joined (parts_blank rfl) (closes_like d) (right.lowered l.casefold)
  rw [if_neg Bool.false_ne_true, if_pos rfl]
  refine pair.followed parts (scans_likeEscape d) ?_
  rintro sources _ ⟨ls, ms, rfl, left, right⟩
  rw [List.append_assoc, List.append_assoc]
  exact .test left (.like right d.backslash)

def AreValues (values : List Value) : Meaning :=
  fun sources ls => ReadsTerms sources ls (values.map fun v => .parameter (.literal v))

private theorem spells_values (values : List Value) (filled : values ≠ []) :
    Spells d (Writer.literals values) [] (AreValues values) := by
  have each := yields_mapM values fun value _ => spells_literal d value
  refine Yields.arranged each fun spelled => ?_
  have last (value : Value) (sources : List SlotSource) (ls : List Lexeme)
      (term : IsTerm (.parameter (.literal value)) sources ls) : AreValues [value] sources ls :=
    .last term
  have next (value : Value) (rest : List Value) (sources : List SlotSource) (ls ms : List Lexeme)
      (term : IsTerm (.parameter (.literal value)) sources ls) (others : AreValues rest sources ms) :
      AreValues (value :: rest) sources (ls ++ .comma :: ms) :=
    .next term others
  have whole := SpelledEach.joined parts_comma (closes_comma d) last next spelled filled
  have none : values.flatMap (fun _ => ([] : List String)) = [] := by simp
  rw [none] at whole
  exact whole

private theorem spells_listed {l : WhereLeaf} (member : l.op.isMembership = true) {v : Value}
    {vs : List Value} (listed : l.operand = .literal (.list (v :: vs))) :
    Spells d (leafFragment d l) [] (IsAtom d (l.condition d)) := by
  unfold leafFragment WhereLeaf.condition membership
  rw [member, listed]
  refine Yields.both (spells_left l) (spells_values (d := d) (v :: vs) (List.cons_ne_nil v vs)) fun left items => ?_
  have pair := left.joined (parts_blank (by cases l.op == .notIn <;> rfl))
    (closes_within d (l.op == .notIn)) items
  refine pair.followed parts_closing (closes_closing d).scans ?_
  rintro sources _ ⟨ls, ms, rfl, left, items⟩
  have atom := ReadsAtom.test (d := d) left (.member (l.op == .notIn) items)
  simpa [IsAtom, negation] using atom

private theorem spells_variable {l : WhereLeaf} (member : l.op.isMembership = true)
    (settled : l.absent? = none) {name : String} (named : l.operand = .variable name) :
    Spells d (leafFragment d l) [] (IsAtom d (l.condition d)) := by
  obtain ⟨ls, scans, reads⟩ := scans_leafColumnText (d := d) l
  have slot : Spells d (Writer.push (.list name (leafColumnText d l) (l.op == .notIn))) []
      (IsAtom d (.listed (l.op == .notIn) l.left name)) := by
    refine spells_push fun sources index source => .listed source ?_
    rw [scans.scan_eq, WhereLeaf.left, settled]
    exact reads sources
  unfold leafFragment WhereLeaf.condition membership leafColumn
  rw [member, named, settled]
  exact slot

private theorem spells_leaf {l : WhereLeaf} (formed : l.Formed) :
    Spells d (leafFragment d l) (Words.operand l.operand) (IsAtom d (l.condition d)) := by
  cases member : l.op.isMembership with
  | true =>
      obtain ⟨settled, ⟨v, vs, listed⟩ | ⟨name, named⟩⟩ := formed.membership member
      · rw [listed]
        exact spells_listed member listed
      · rw [named]
        exact spells_variable member settled named
  | false =>
      cases pattern : l.op.isPattern with
      | true => exact spells_pattern member pattern
      | false => exact spells_comparison member pattern

/-! ### Conditions -/

def IsTight (d : Dialect) (c : Condition) : Meaning :=
  fun sources ls => Grammar.Reads d sources .tight ls [c]

def AreAll (d : Dialect) (gs : List WhereGroup) : Meaning :=
  fun sources ls => Grammar.Reads d sources .conjunction ls (WhereGroup.conditions d gs)

def AreAny (d : Dialect) (gs : List WhereGroup) : Meaning :=
  fun sources ls => Grammar.Reads d sources .disjunction ls (WhereGroup.conditions d gs)

private theorem fragmentsEach_eq (gs : List WhereGroup) :
    gs.flatMap WhereGroup.fragments = WhereGroup.fragmentsEach gs := by
  induction gs with
  | nil => rfl
  | cons g gs ih => rw [List.flatMap_cons, WhereGroup.fragmentsEach, ih]

abbrev SpelledParts (d : Dialect) : List SlotSource → List SlotSource → List Fragment →
    List WhereGroup → Prop :=
  SpelledEach d WhereGroup.fragments fun g => IsTight d (g.condition d)

/-- One part stands for itself; several are joined between parentheses. -/
theorem SpelledEach.bracketed {word : String} {whole : List WhereGroup → Meaning}
    {make : List Condition → Condition} {before added : List SlotSource} {fs : List Fragment}
    {gs : List WhereGroup} (each : SpelledParts d before added fs gs) (filled : gs ≠ [])
    (joined : Spelled d before added (Sql.joined word fs) (gs.flatMap WhereGroup.fragments) (whole gs))
    (enclosed : ∀ sources ls, whole gs sources ls →
      IsTight d (grouped make (WhereGroup.conditions d gs)) sources
        ([.opening] ++ (ls ++ [.closing]))) :
    Spelled d before added (Sql.bracketed word fs) (WhereGroup.fragmentsEach gs)
      (IsTight d (grouped make (WhereGroup.conditions d gs))) := by
  rw [← fragmentsEach_eq]
  cases each with
  | nil => exact absurd rfl filled
  | cons first rest =>
      cases rest with
      | nil =>
          rw [List.append_nil, List.flatMap_singleton]
          exact first
      | cons second rest =>
          exact joined.enclosed (closes_opening d) parts_closing (closes_closing d).scans enclosed

private theorem spelled_all {before added : List SlotSource} {fs : List Fragment}
    {gs : List WhereGroup}
    (each : SpelledParts d before added fs gs) (filled : gs ≠ []) :
    Spelled d before added (bracketed " AND " fs) (WhereGroup.fragmentsEach gs)
      (IsTight d (grouped .all (WhereGroup.conditions d gs))) := by
  have last (g : WhereGroup) (sources : List SlotSource) (ls : List Lexeme)
      (part : IsTight d (g.condition d) sources ls) : AreAll d [g] sources ls :=
    .lastOfAll part
  have next (g : WhereGroup) (gs : List WhereGroup) (sources : List SlotSource) (ls ms : List Lexeme)
      (part : IsTight d (g.condition d) sources ls) (rest : AreAll d gs sources ms) :
      AreAll d (g :: gs) sources (ls ++ .word "AND" :: ms) :=
    .nextOfAll part rest
  have joined := each.joined (parts_blank rfl) (closes_and d) last next filled
  exact each.bracketed filled joined fun _ _ all => .parentheses (.lastOfAny all)

private theorem spelled_any {before added : List SlotSource} {fs : List Fragment}
    {gs : List WhereGroup}
    (each : SpelledParts d before added fs gs) (filled : gs ≠ []) :
    Spelled d before added (bracketed " OR " fs) (WhereGroup.fragmentsEach gs)
      (IsTight d (grouped .any (WhereGroup.conditions d gs))) := by
  have last (g : WhereGroup) (sources : List SlotSource) (ls : List Lexeme)
      (part : IsTight d (g.condition d) sources ls) : AreAny d [g] sources ls :=
    .lastOfAny (.lastOfAll part)
  have next (g : WhereGroup) (gs : List WhereGroup) (sources : List SlotSource) (ls ms : List Lexeme)
      (part : IsTight d (g.condition d) sources ls) (rest : AreAny d gs sources ms) :
      AreAny d (g :: gs) sources (ls ++ .word "OR" :: ms) :=
    .nextOfAny (.lastOfAll part) rest
  have joined := each.joined (parts_blank rfl) (closes_or d) last next filled
  exact each.bracketed filled joined fun _ _ any => .parentheses any

private theorem spells_null (column : ColumnRef) (negated : Bool) :
    Spells d (groupFragment d (.null column negated)) []
      (IsAtom d (.test (.column column) (.null negated))) := by
  have asked : Scans d (letters (if negated then " IS NOT NULL" else " IS NULL"))
      (.word "IS" :: (negation negated ++ [.word "NULL"])) := by
    intro rest parted
    have begun : Lexeme.scan d (letters (if negated then " IS NOT NULL" else " IS NULL") ++ rest) =
        .word "IS" :: (negation negated ++ Lexeme.scanFrom d (.word ['L', 'L', 'U', 'N']) rest) := by
      cases negated <;> cases d <;> rfl
    rw [begun, scanFrom_word_parted parted]
    cases negated <;> rfl
  have parts : Parts (letters (if negated then " IS NOT NULL" else " IS NULL")) := by
    cases negated <;> exact parts_blank rfl
  refine yields_pure fun _ => spelled_raw ?_ fun _ => .test (.column column) (.null negated)
  rw [letters_append]
  exact (scans_column column).followed parts asked

private theorem spells_const (value : Bool) :
    Spells d (groupFragment d (.const value)) [] (IsAtom d (.const value)) := by
  have written : groupFragment d (.const value) =
      pure (raw (if value then "1 = 1" else "1 = 0")) := by
    cases value <;> rfl
  have scans : Scans d (letters (if value then "1 = 1" else "1 = 0"))
      [.word "1", .sign "=", .word (bit value)] := by
    intro rest parted
    have begun : Lexeme.scan d (letters (if value then "1 = 1" else "1 = 0") ++ rest) =
        .word "1" :: .sign "=" :: Lexeme.scanFrom d (.word (bit value).toList) rest := by
      cases value <;> cases d <;> rfl
    rw [begun, scanFrom_word_parted parted]
    cases value <;> rfl
  rw [written]
  exact yields_pure fun _ => spelled_raw scans fun _ => .const value

mutual

/-- A filter is read as what it says, by itself and as a part of another one. -/
theorem spells_group (g : WhereGroup) (formed : g.Formed) :
    Spells d (groupFragment d g) g.fragments (IsTight d (g.condition d)) := by
  cases g with
  | const value =>
      exact Yields.imp (spells_const value) fun spelled => spelled.imp fun _ _ => .atom
  | null column negated =>
      exact Yields.imp (spells_null column negated) fun spelled => spelled.imp fun _ _ => .atom
  | leaf l => exact Yields.imp (spells_leaf formed) fun spelled => spelled.imp fun _ _ => .atom
  | all parts =>
      exact Yields.arranged (spells_groups parts formed.2) fun each => spelled_all each formed.1
  | any parts =>
      exact Yields.arranged (spells_groups parts formed.2) fun each => spelled_any each formed.1
  | not part =>
      have inner : Spells d (groupFragment d part) part.fragments (IsTight d (part.condition d)) :=
        spells_group part formed
      refine Yields.arranged inner fun spelled => ?_
      exact spelled.enclosed (closes_negation d) parts_closing (closes_closing d).scans
        fun _ _ part => .not (.parentheses (.lastOfAny (.lastOfAll part)))

theorem spells_groups (gs : List WhereGroup) (formed : WhereGroup.EachFormed gs) :
    Yields (groupFragments d gs) fun before added fs => SpelledParts d before added fs gs := by
  cases gs with
  | nil => exact yields_pure fun before => YieldsEach.nil before
  | cons g gs =>
      exact Yields.both (spells_group g formed.1) (spells_groups gs formed.2)
        fun first rest => YieldsEach.cons first rest

end

/-! ### Rendered filters -/

/-- Whatever has been asked for before, the filter is rendered as a text with its raw fragments, one
operand each, that is read as the condition and as no other. -/
def RenderedAs (d : Dialect) (g : WhereGroup) (c : Condition) : Prop :=
  ∀ asked, ∃ fragment added text, (groupFragment d g).run asked = (fragment, asked ++ added)
    ∧ spelledOut text = marked fragment ∧ fragmentsOf text = g.fragments
    ∧ ∀ later read, ReadsAs d (asked ++ added ++ later) text read ↔ read = c

theorem renderedAs_condition (d : Dialect) {g : WhereGroup} (formed : g.Formed) :
    RenderedAs d g (g.condition d) := by
  intro asked
  obtain ⟨fragment, added, ran, text, ls, spells, fragments, scans, reads⟩ :=
    spells_group (d := d) g formed asked
  refine ⟨fragment, added, text, ran, spells, fragments, fun later read => ?_⟩
  have meant : ReadsAs d (asked ++ added ++ later) text (g.condition d) := by
    refine ⟨[g.condition d], ?_, rfl⟩
    rw [scans.scan_eq]
    exact .lastOfAny (.lastOfAll (reads later))
  exact ⟨fun other => other.unique meant, fun same => same ▸ meant⟩

end Sql

end EntityStore
