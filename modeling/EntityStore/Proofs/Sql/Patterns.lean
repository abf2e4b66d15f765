import Mathlib.Data.List.Infix
import EntityStore.Proofs.Sql.Constants
import EntityStore.Proofs.Sql.Evaluation
import EntityStore.Proofs.Sql.Recovery

/-!
Patterns find texts as they are. A pattern is read by the rules of its dialect, where a bracket may
open a set, and it is fitted to a text from the left, with every choice for what a percent sign stands
for. The pattern made from a text fits where the text itself is found, unless the text has a bracket
that opens a set: then there is always a text that is judged wrongly.
-/

namespace EntityStore.Sql

open Grammar

/-! ### Patterns of a dialect -/

inductive PatternItem
  | exactly (c : Char)
  | one
  | many
  | oneOf (set : List Char)
  | never

inductive PatternMode
  | plain
  | escaped
  | set (read : List Char)

/-- The parts of a pattern. -/
def patternItems (d : Dialect) (escape : Char) : PatternMode → List Char → List PatternItem
  | .plain, [] => []
  | _, [] => [.never]
  | .plain, c :: rest =>
    if c = escape then patternItems d escape .escaped rest
    else if c = '%' then .many :: patternItems d escape .plain rest
    else if c = '_' then .one :: patternItems d escape .plain rest
    else if c = '[' ∧ d = .mssql then patternItems d escape (.set []) rest
    else .exactly c :: patternItems d escape .plain rest
  | .escaped, c :: rest => .exactly c :: patternItems d escape .plain rest
  | .set read, c :: rest =>
    if c = ']' then .oneOf read.reverse :: patternItems d escape .plain rest
    else patternItems d escape (.set (c :: read)) rest

def inRanges : List Char → Char → Bool
  | first :: '-' :: last :: rest, c => (first ≤ c && c ≤ last) || inRanges rest c
  | other :: rest, c => other == c || inRanges rest c
  | [], _ => false

def inSet : List Char → Char → Bool
  | '^' :: ranges, c => !inRanges ranges c
  | ranges, c => inRanges ranges c

/-- Whether a text fits the parts from its first character to its last one. -/
def fits : List PatternItem → List Char → Bool
  | [], s => s.isEmpty
  | .many :: items, s => s.tails.any (fits items)
  | .exactly c :: items, x :: s => x == c && fits items s
  | .one :: items, _ :: s => fits items s
  | .oneOf set :: items, x :: s => inSet set x && fits items s
  | _ :: _, _ => false

namespace Dialect

def like (d : Dialect) (text pattern escape : String) : Bool :=
  match (d.textBetween? escape).map String.toList with
  | some [e] => fits (patternItems d e .plain pattern.toList) text.toList
  | _ => false

def patterned (d : Dialect) (o : Operations) : Operations :=
  { o with
    fits := fun value pattern escape =>
      match value, pattern with
      | .text s, .text p => d.like s p escape
      | _, _ => o.fits value pattern escape }

end Dialect

/-- Where a text is looked for in another one. -/
def PatternKind.Finds (kind : PatternKind) (text s : List Char) : Prop :=
  match kind with
  | .contains => text <:+: s
  | .startsWith => text <+: s
  | .endsWith => text <:+ s

instance (kind : PatternKind) (text s : List Char) : Decidable (kind.Finds text s) :=
  match kind with
  | .contains => inferInstanceAs (Decidable (text <:+: s))
  | .startsWith => inferInstanceAs (Decidable (text <+: s))
  | .endsWith => inferInstanceAs (Decidable (text <:+ s))

/-! ### Texts without brackets -/

variable {d : Dialect}

/-- Behind an escaped text the pattern goes on. -/
theorem patternItems_escaped {cs : List Char} (free : d = .mssql → '[' ∉ cs) (rest : List Char) :
    patternItems d '\\' .plain (escapeLikeChars cs ++ rest) =
      cs.map .exactly ++ patternItems d '\\' .plain rest := by
  induction cs with
  | nil => rfl
  | cons c cs ih =>
      have others := ih fun dialect member => free dialect (List.mem_cons_of_mem c member)
      have bracket : ¬ (c = '[' ∧ d = .mssql) := fun ⟨same, dialect⟩ =>
        free dialect (same ▸ List.mem_cons_self)
      rw [escapeLikeChars]
      split
      · rw [List.cons_append, List.cons_append, patternItems, if_pos rfl, patternItems, others]
        rfl
      · next plain =>
          rw [not_or, not_or] at plain
          obtain ⟨backslash, percent, underscore⟩ := plain
          rw [List.cons_append, patternItems, if_neg backslash, if_neg percent, if_neg underscore,
            if_neg bracket, others]
          rfl

private theorem fits_exactly (cs : List Char) (items : List PatternItem) (s : List Char) :
    fits (cs.map .exactly ++ items) s = true ↔ ∃ rest, s = cs ++ rest ∧ fits items rest = true := by
  induction cs generalizing s with
  | nil => exact ⟨fun fit => ⟨s, rfl, fit⟩, fun ⟨_, same, fit⟩ => same ▸ fit⟩
  | cons c cs ih =>
      cases s with
      | nil =>
          constructor
          · intro fit
            cases fit
          · rintro ⟨rest, same, -⟩
            cases same
      | cons x s =>
          have step : fits ((c :: cs).map .exactly ++ items) (x :: s) =
              (x == c && fits (cs.map .exactly ++ items) s) := rfl
          rw [step, Bool.and_eq_true, beq_iff_eq, ih]
          constructor
          · rintro ⟨rfl, rest, rfl, fit⟩
            exact ⟨rest, rfl, fit⟩
          · rintro ⟨rest, same, fit⟩
            cases same
            exact ⟨rfl, rest, rfl, fit⟩

theorem fits_many (items : List PatternItem) (s : List Char) :
    fits (.many :: items) s = true ↔ ∃ rest, rest <:+ s ∧ fits items rest = true := by
  have step : fits (.many :: items) s = s.tails.any (fits items) := by
    cases s <;> rfl
  rw [step, List.any_eq_true]
  simp only [List.mem_tails]

private theorem fits_rest (s : List Char) : fits [.many] s = true :=
  (fits_many [] s).2 ⟨[], List.nil_suffix, rfl⟩

namespace PatternKind

def front : PatternKind → List PatternItem
  | .startsWith => []
  | _ => [.many]

def tail : PatternKind → List Char
  | .endsWith => []
  | _ => ['%']

def back : PatternKind → List PatternItem
  | .endsWith => []
  | _ => [.many]

theorem items_tail (d : Dialect) (kind : PatternKind) :
    patternItems d '\\' .plain kind.tail = kind.back := by
  cases kind <;> rfl

theorem items_wrap (d : Dialect) (kind : PatternKind) (text : String) :
    patternItems d '\\' .plain (kind.wrap text).toList =
      kind.front ++ patternItems d '\\' .plain (escapeLikeChars text.toList ++ kind.tail) := by
  cases kind <;> simp [wrap, escapeLike, front, tail, patternItems]

/-- A text fits a pattern without sets where the text of the pattern is found in it. -/
theorem fits_items (kind : PatternKind) (cs s : List Char) :
    fits (kind.front ++ (cs.map .exactly ++ kind.back)) s = true ↔ kind.Finds cs s := by
  cases kind with
  | startsWith =>
      show fits (cs.map .exactly ++ [.many]) s = true ↔ cs <+: s
      rw [fits_exactly]
      constructor
      · rintro ⟨rest, rfl, -⟩
        exact List.prefix_append cs rest
      · rintro ⟨rest, rfl⟩
        exact ⟨rest, rfl, fits_rest rest⟩
  | endsWith =>
      show fits (.many :: (cs.map .exactly ++ [])) s = true ↔ cs <:+ s
      rw [fits_many]
      constructor
      · rintro ⟨_, suffix, fit⟩
        obtain ⟨rest, rfl, ended⟩ := (fits_exactly cs [] _).1 fit
        rw [List.isEmpty_iff.1 ended, List.append_nil] at suffix
        exact suffix
      · intro suffix
        exact ⟨cs, suffix, (fits_exactly cs [] cs).2 ⟨[], (List.append_nil cs).symm, rfl⟩⟩
  | contains =>
      show fits (.many :: (cs.map .exactly ++ [.many])) s = true ↔ cs <:+: s
      rw [fits_many]
      constructor
      · rintro ⟨_, suffix, fit⟩
        obtain ⟨rest, rfl, -⟩ := (fits_exactly cs [.many] _).1 fit
        exact (List.prefix_append cs rest).isInfix.trans suffix.isInfix
      · rintro ⟨before, rest, rfl⟩
        refine ⟨cs ++ rest, ⟨before, (List.append_assoc ..).symm⟩, ?_⟩
        exact (fits_exactly cs [.many] _).2 ⟨rest, rfl, fits_rest rest⟩

private theorem Finds.length {kind : PatternKind} {cs s : List Char} (found : kind.Finds cs s) :
    cs.length ≤ s.length := by
  cases kind with
  | contains => exact List.IsInfix.length_le found
  | startsWith => exact List.IsPrefix.length_le found
  | endsWith => exact List.IsSuffix.length_le found

private theorem finds_self (kind : PatternKind) (cs : List Char) : kind.Finds cs cs := by
  cases kind with
  | contains => exact List.infix_refl cs
  | startsWith => exact List.prefix_refl cs
  | endsWith => exact List.suffix_refl cs

private theorem fits_wrap {d : Dialect} {text : String} (free : d = .mssql → '[' ∉ text.toList)
    (kind : PatternKind) (s : List Char) :
    fits (patternItems d '\\' .plain (kind.wrap text).toList) s = decide (kind.Finds text.toList s) := by
  rw [items_wrap, patternItems_escaped free, items_tail, Bool.eq_iff_iff, decide_eq_true_iff]
  exact fits_items kind text.toList s

end PatternKind

/-! ### Brackets -/

def Hopeless (items : List PatternItem) : Prop :=
  ∀ s, fits items s = false

/-- Nothing fits the parts, or some text of bounded length does, if what they go on with fits what
follows. -/
def Reaches (items goal : List PatternItem) (length : Nat) : Prop :=
  Hopeless items ∨ ∃ w : List Char, w.length ≤ length ∧
    ∀ rest, fits goal rest = true → fits items (w ++ rest) = true

private theorem Reaches.mono {items goal : List PatternItem} {n m : Nat}
    (reaches : Reaches items goal n)
    (le : n ≤ m) : Reaches items goal m :=
  reaches.imp_right fun ⟨w, short, fit⟩ => ⟨w, short.trans le, fit⟩

/-- A part that takes one character. -/
theorem Reaches.step {item : PatternItem} {p : Char → Bool}
    (takes : ∀ items x s, fits (item :: items) (x :: s) = (p x && fits items s))
    (ends : ∀ items, fits (item :: items) [] = false) {items goal : List PatternItem} {n : Nat}
    (reaches : Reaches items goal n) : Reaches (item :: items) goal (n + 1) := by
  by_cases some : ∃ x, p x = true
  · obtain ⟨x, allowed⟩ := some
    refine reaches.imp (fun hopeless s => ?_) fun ⟨w, short, fit⟩ =>
      ⟨x :: w, Nat.succ_le_succ short, fun rest fits => ?_⟩
    · cases s with
      | nil => exact ends items
      | cons y s => rw [takes, hopeless s, Bool.and_false]
    · rw [List.cons_append, takes, allowed, fit rest fits]
      rfl
  · refine Or.inl fun s => ?_
    cases s with
    | nil => exact ends items
    | cons y s =>
        rw [takes, Bool.eq_false_iff.2 fun allowed => some ⟨y, allowed⟩, Bool.false_and]

theorem Reaches.exactly (c : Char) {items goal : List PatternItem} {n : Nat}
    (reaches : Reaches items goal n) : Reaches (.exactly c :: items) goal (n + 1) :=
  Reaches.step (p := (· == c)) (fun _ _ _ => rfl) (fun _ => rfl) reaches

private theorem Reaches.oneOf (set : List Char) {items goal : List PatternItem} {n : Nat}
    (reaches : Reaches items goal n) : Reaches (.oneOf set :: items) goal (n + 1) :=
  Reaches.step (p := inSet set) (fun _ _ _ => rfl) (fun _ => rfl) reaches

/-- Behind an escaped text the pattern of a dialect with sets goes on, unless nothing fits it, and what
has been read by then is no longer than the text. A set that has been opened takes up what stands
before its bracket. -/
theorem reaches_escaped (kind : PatternKind) (cs : List Char) :
    Reaches (patternItems .mssql '\\' .plain (escapeLikeChars cs ++ kind.tail)) kind.back cs.length
      ∧ ∀ read, Reaches (patternItems .mssql '\\' (.set read) (escapeLikeChars cs ++ kind.tail))
          kind.back cs.length := by
  induction cs with
  | nil =>
      refine ⟨?_, fun read => ?_⟩
      · have whole : patternItems .mssql '\\' .plain kind.tail = kind.back := kind.items_tail .mssql
        exact Or.inr ⟨[], Nat.le_refl 0, fun rest fit => whole ▸ fit⟩
      · -- Nothing closes the set.
        refine Or.inl fun s => ?_
        cases kind <;> cases s <;> rfl
  | cons c cs ih =>
      obtain ⟨plain, inside⟩ := ih
      rw [escapeLikeChars]
      split
      · next special =>
          refine ⟨?_, fun read => ?_⟩
          · rw [List.cons_append, List.cons_append, patternItems, if_pos rfl, patternItems]
            exact plain.exactly c
          · have backslash : '\\' ≠ ']' := by decide
            have other : c ≠ ']' := by
              rintro rfl
              revert special
              decide
            rw [List.cons_append, List.cons_append, patternItems, if_neg backslash, patternItems,
              if_neg other]
            exact (inside _).mono (Nat.le_succ _)
      · next ordinary =>
          rw [not_or, not_or] at ordinary
          obtain ⟨backslash, percent, underscore⟩ := ordinary
          refine ⟨?_, fun read => ?_⟩
          · rw [List.cons_append, patternItems, if_neg backslash, if_neg percent, if_neg underscore]
            split
            · exact (inside []).mono (Nat.le_succ _)
            · exact plain.exactly c
          · rw [List.cons_append, patternItems]
            split
            · exact plain.oneOf _
            · exact (inside _).mono (Nat.le_succ _)

/-- A bracket in the text takes part of it for a set, which stands for one character at most. -/
theorem reaches_bracket (kind : PatternKind) {cs : List Char} (bracket : '[' ∈ cs) :
    Reaches (patternItems .mssql '\\' .plain (escapeLikeChars cs ++ kind.tail)) kind.back
      (cs.length - 1) := by
  induction cs with
  | nil => cases bracket
  | cons c cs ih =>
      by_cases opens : c = '['
      · subst opens
        have items : patternItems .mssql '\\' .plain (escapeLikeChars ('[' :: cs) ++ kind.tail) =
            patternItems .mssql '\\' (.set []) (escapeLikeChars cs ++ kind.tail) := rfl
        rw [items]
        exact (reaches_escaped kind cs).2 []
      · have later : '[' ∈ cs := (List.mem_cons.1 bracket).resolve_left (Ne.symm opens)
        have length : cs.length - 1 + 1 = cs.length := Nat.sub_add_cancel (List.length_pos_of_mem later)
        have reaches := (ih later).exactly c
        rw [length] at reaches
        rw [escapeLikeChars]
        split
        · rw [List.cons_append, List.cons_append, patternItems, if_pos rfl, patternItems]
          exact reaches
        · next ordinary =>
            rw [not_or, not_or] at ordinary
            obtain ⟨backslash, percent, underscore⟩ := ordinary
            rw [List.cons_append, patternItems, if_neg backslash, if_neg percent, if_neg underscore,
              if_neg fun both => opens both.1]
            exact reaches

namespace PatternKind

/-- With a bracket in the text some text is judged wrongly: a shorter one that fits, or the text itself,
which does not. -/
theorem misjudges (kind : PatternKind) {text : String} (bracket : '[' ∈ text.toList) :
    ∃ s, fits (patternItems .mssql '\\' .plain (kind.wrap text).toList) s ≠
      decide (kind.Finds text.toList s) := by
  rw [items_wrap]
  rcases reaches_bracket kind bracket with hopeless | ⟨w, short, fit⟩
  · refine ⟨text.toList, ?_⟩
    rw [decide_eq_true (kind.finds_self text.toList)]
    suffices unfit : fits (kind.front ++ _) text.toList = false by
      rw [unfit]
      decide
    cases kind with
    | startsWith => exact hopeless text.toList
    | contains | endsWith =>
        refine Bool.eq_false_iff.2 fun fit => ?_
        obtain ⟨rest, -, fit⟩ := (fits_many _ _).1 fit
        exact Bool.false_ne_true ((hopeless rest).symm.trans fit)
  · refine ⟨w, ?_⟩
    have shorter : ¬ kind.Finds text.toList w := fun found => by
      have length := found.length
      have filled := List.length_pos_of_mem bracket
      omega
    have fitting : fits (kind.front ++
        patternItems .mssql '\\' .plain (escapeLikeChars text.toList ++ kind.tail)) w = true := by
      have ended : fits kind.back [] = true := by
        cases kind <;> rfl
      have whole := fit [] ended
      rw [List.append_nil] at whole
      cases kind with
      | startsWith => exact whole
      | contains | endsWith => exact (fits_many _ _).2 ⟨w, List.suffix_refl w, whole⟩
    rw [fitting, decide_eq_false shorter]
    decide

end PatternKind

/-! ### Comparisons with patterns -/

/-- The operand stands for a text. -/
def Holds (bindings : Bindings) (text : String) : Operand → Prop
  | .literal value => value = .text text
  | .variable name => bindings.lookup name = some (.text text)
  | .raw _ => False

private theorem operand_sent {bindings : Bindings} {text : String} {operand : Operand}
    (holds : Holds bindings text operand) (kind : PatternKind) :
    ∃ source, operandTerm (some kind) operand = .parameter source
      ∧ source.sent? bindings = some [.text (kind.wrap text)] := by
  cases operand with
  | literal value =>
      cases holds
      exact ⟨_, rfl, rfl⟩
  | «variable» name =>
      have bound : bindings.lookup name = some (.text text) := holds
      refine ⟨_, rfl, ?_⟩
      rw [SlotSource.sent?, bound]
      rfl
  | raw sql => exact holds.elim

/-- A comparison with a pattern is no constant, and nothing stands for a missing value in it. -/
theorem pattern_comparison {schema : Schema} {model : EntityModel} {field : String}
    {kind : PatternKind} {operand : Operand} {bindings : Bindings} {text : String}
    (holds : Holds bindings text operand) {start after : JoinGraph} {g : WhereGroup}
    (resolved : (Resolve.comparison schema model ⟨field, kind.op, operand, false⟩).answer start =
      (.ok g, after)) :
    ∃ column found, (Resolve.column schema model field).answer start = (.ok (column, found), after)
      ∧ g = .leaf ⟨column, kind.op, operand, none, false⟩ := by
  obtain ⟨column, found, type, ran, -, constant | ⟨-, -, rfl⟩⟩ := Resolve.comparison_cases resolved
  · cases operand with
    | literal value =>
        cases holds
        cases constant
    | «variable» name => cases constant
    | raw sql => exact holds.elim
  · refine ⟨column, found, ran, ?_⟩
    have absent : Resolve.absentValue? found type ⟨field, kind.op, operand, false⟩ = none := by
      unfold Resolve.absentValue?
      cases operand <;> cases kind <;> simp [PatternKind.op, CompareOp.isOrdering]
    rw [absent]

theorem textBetween_backslash (d : Dialect) : d.textBetween? d.backslash = some "\\" := by
  cases d <;> decide

private theorem like_wrap (d : Dialect) (kind : PatternKind) (text s : String) :
    d.like s (kind.wrap text) d.backslash =
      fits (patternItems d '\\' .plain (kind.wrap text).toList) s.toList := by
  rw [Dialect.like, textBetween_backslash]
  rfl

private theorem condition_pattern (d : Dialect) (column : ColumnRef) {kind : PatternKind}
    {operand : Operand}
    {source : SlotSource} (term : operandTerm (some kind) operand = .parameter source) :
    (WhereGroup.leaf ⟨column, kind.op, operand, none, false⟩).condition d =
      .test (.column column) (.like (.parameter source) d.backslash) := by
  rw [← term]
  cases kind <;> rfl

private theorem evaluate_match (d : Dialect) (o : Operations) {row : JoinedRow} {bindings : Bindings}
    (column : ColumnRef) {source : SlotSource} {pattern : Value} (escape : String)
    (sent : source.sent? bindings = some [pattern]) :
    (Condition.test (.column column) (.like (.parameter source) escape)).evaluate (d.patterned o) row
        bindings =
      some (.known (row.column column) pattern ((d.patterned o).fits (row.column column) pattern escape)) := by
  rw [Condition.evaluate, Term.evaluate, Option.bind_some, Test.evaluate, Term.evaluate, sent]
  rfl

/-- A comparison with a pattern for a text is rendered as one match against the text made into a
pattern, with a backslash named as its escape. It is unknown where the column is missing, and it holds
just where the text is found, for every text of the column, unless the dialect has sets and a bracket
in the text opens one. -/
theorem patterns_match_literally (schema : Schema) (model : EntityModel) (field : String)
    (kind : PatternKind) (operand : Operand) (bindings : Bindings) (text : String)
    (holds : Holds bindings text operand) (start after : JoinGraph) (g : WhereGroup)
    (resolved : (Resolve.comparison schema model ⟨field, kind.op, operand, false⟩).answer start =
      (.ok g, after)) (d : Dialect) (o : Operations) :
    ∃ column found source,
      (Resolve.column schema model field).answer start = (.ok (column, found), after)
      ∧ RenderedAs d g (.test (.column column) (.like (.parameter source) d.backslash))
      ∧ d.textBetween? d.backslash = some "\\"
      ∧ (∀ style index position, ∃ slot,
          Template.bindSlot style bindings index position source = .ok slot
            ∧ slot.params.map (·.value) = [.text (kind.wrap text)])
      ∧ (∀ row : JoinedRow, row.column column = .null →
          (g.condition d).evaluate (d.patterned o) row bindings = some .unknown)
      ∧ ((∀ (row : JoinedRow) (s : String), row.column column = .text s →
            (g.condition d).evaluate (d.patterned o) row bindings =
              some (.ofBool (decide (kind.Finds text.toList s.toList)))) ↔
          (d = .mssql → '[' ∉ text.toList)) := by
  obtain ⟨column, found, ran, rfl⟩ := pattern_comparison holds resolved
  obtain ⟨source, term, sent⟩ := operand_sent holds kind
  have condition := condition_pattern d column term
  have evaluated (row : JoinedRow) (s : String) (given : row.column column = .text s) :
      (Condition.test (.column column) (.like (.parameter source) d.backslash)).evaluate
          (d.patterned o) row bindings =
        some (.ofBool (fits (patternItems d '\\' .plain (kind.wrap text).toList) s.toList)) := by
    rw [evaluate_match d o column _ sent, given, ← like_wrap]
    rfl
  refine ⟨column, found, source, ran, ?_, textBetween_backslash d, ?_, ?_, ?_, ?_⟩
  · rw [← condition]
    exact renderedAs_condition d (Resolve.comparison_formed resolved)
  · intro style index position
    exact bindSlot_of_sent style index position sent
  · intro row missing
    rw [condition, evaluate_match d o column _ sent, missing]
    rfl
  · intro judged dialect bracket
    subst dialect
    obtain ⟨s, wrong⟩ := kind.misjudges bracket
    have row : ∃ row : JoinedRow, row.column column = .text (String.ofList s) :=
      ⟨⟨fun _ => .text (String.ofList s), fun _ => .null⟩, rfl⟩
    obtain ⟨row, given⟩ := row
    have same := (evaluated row _ given).symm.trans (condition ▸ judged row _ given)
    rw [String.toList_ofList] at same
    exact wrong (Truth.ofBool_injective (Option.some.inj same))
  · intro free row s given
    rw [condition, evaluated row s given, kind.fits_wrap free]

/-- Notes with a percent sign in them, by a variable. -/
theorem percent_found_literally :
    Holds [("part", .text "100%")] "100%" (.variable "part")
      ∧ (Resolve.comparison ⟨fun _ => notes⟩ notes ⟨"body", .contains, .variable "part", false⟩).answer
          (JoinGraph.ofModel notes) =
        (.ok (.leaf ⟨⟨⟨0⟩, "body"⟩, .contains, .variable "part", none, false⟩), JoinGraph.ofModel notes)
      ∧ ∀ (o : Operations) (row : JoinedRow) (s : String), row.column ⟨⟨0⟩, "body"⟩ = .text s →
        ((WhereGroup.leaf ⟨⟨⟨0⟩, "body"⟩, .contains, .variable "part", none, false⟩).condition
            .mssql).evaluate (Dialect.mssql.patterned o) row [("part", .text "100%")] =
          some (.ofBool (decide ("100%".toList <:+: s.toList))) := by
  have resolved : (Resolve.comparison ⟨fun _ => notes⟩ notes
      ⟨"body", PatternKind.contains.op, .variable "part", false⟩).answer (JoinGraph.ofModel notes) =
        (.ok (.leaf ⟨⟨⟨0⟩, "body"⟩, .contains, .variable "part", none, false⟩),
          JoinGraph.ofModel notes) := rfl
  refine ⟨rfl, resolved, fun o => ?_⟩
  obtain ⟨column, found, source, ran, -, -, -, -, judged⟩ := patterns_match_literally
    ⟨fun _ => notes⟩ notes "body" .contains (.variable "part") [("part", .text "100%")] "100%" rfl
    _ _ _ resolved .mssql o
  cases ran
  exact judged.2 fun _ => by decide

/-- A bracket is taken for a set: what begins with the text is not found, and something else is. -/
theorem brackets_misjudged :
    (Resolve.comparison ⟨fun _ => notes⟩ notes
        ⟨"body", .startsWith, .literal (.text "[a]"), false⟩).answer (JoinGraph.ofModel notes) =
      (.ok (.leaf ⟨⟨⟨0⟩, "body"⟩, .startsWith, .literal (.text "[a]"), none, false⟩),
        JoinGraph.ofModel notes)
      ∧ (["[a] b", "ab"].map fun body =>
          ((WhereGroup.leaf ⟨⟨⟨0⟩, "body"⟩, .startsWith, .literal (.text "[a]"), none,
            false⟩).condition .mssql).evaluate
              (Dialect.mssql.patterned ⟨id, fun _ _ _ => false, fun _ _ _ => false⟩)
              ⟨fun _ => .text body, fun _ => .null⟩ []) = [some .no, some .yes] :=
  ⟨rfl, by decide⟩

end EntityStore.Sql
