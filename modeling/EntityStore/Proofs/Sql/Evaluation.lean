import EntityStore.Proofs.Filter.Meaning
import EntityStore.Proofs.Sql.Unambiguity

/-!
What a condition says of a row once its variables are bound. Its slots have the values that are sent
for them; functions, signs and patterns mean what the database makes of them.
-/

namespace EntityStore

open Sql Sql.Grammar

namespace Truth

def known (left right : Value) (holds : Bool) : Truth :=
  if left.isNull || right.isNull then .unknown else .ofBool holds

def negated (negated : Bool) (t : Truth) : Truth :=
  if negated then t.not else t

theorem ofBool_injective {a b : Bool} (same : ofBool a = ofBool b) : a = b := by
  cases a <;> cases b <;> first | rfl | cases same

end Truth

namespace Sql

/-- What a database makes of functions, signs and patterns. -/
structure Operations where
  lower : Value → Value
  holds : (sign : String) → (left right : Value) → Bool
  fits : (value pattern : Value) → (escape : String) → Bool

structure JoinedRow where
  column : ColumnRef → Value
  fragment : String → Value

namespace Operations

def lowered (o : Operations) (value : Value) : Value :=
  if value.isNull then .null else o.lower value

def member (o : Operations) (value : Value) (items : List Value) : Truth :=
  .any (items.map fun item => .known value item (o.holds "=" value item))

end Operations

/-- The values that are sent for a slot, if its variable can be bound. -/
def SlotSource.sent? (bindings : Bindings) : SlotSource → Option (List Value)
  | .literal value => some [value]
  | .variable name pattern? => do
    let given ← bindings.lookup name
    let value ← (Template.scalarValue name pattern? given).toOption
    return [value]
  | .list name _ _ => do (Template.listItems name (← bindings.lookup name)).toOption

/-- These values are the parameters of the bound slot, wherever it stands. -/
theorem bindSlot_sent (style : Placeholders) (bindings : Bindings) (index position : Nat)
    (source : SlotSource) :
    ((Template.bindSlot style bindings index position source).toOption.map fun slot =>
      slot.params.map (·.value)) = source.sent? bindings := by
  cases source with
  | literal value => rfl
  | «variable» name pattern? =>
      rw [Template.bindSlot, Template.lookup, SlotSource.sent?]
      cases bindings.lookup name with
      | none => rfl
      | some given =>
          cases scalar : Template.scalarValue name pattern? given <;>
            simp [scalar, bind, Except.bind, Except.toOption, pure, Except.pure, Template.boundParam]
  | list name column negated =>
      rw [Template.bindSlot, Template.lookup, SlotSource.sent?]
      cases bindings.lookup name with
      | none => rfl
      | some given =>
          cases listed : Template.listItems name given with
          | error e => simp [listed, bind, Except.bind, Except.toOption]
          | ok items =>
              cases items with
              | nil => simp [listed, bind, Except.bind, Except.toOption, pure, Except.pure]
              | cons v vs =>
                  simp [listed, bind, Except.bind, Except.toOption, pure, Except.pure,
                    itemParams_values]

theorem bindSlot_of_sent {bindings : Bindings} {source : SlotSource} {values : List Value}
    (style : Placeholders) (index position : Nat) (sent : source.sent? bindings = some values) :
    ∃ slot, Template.bindSlot style bindings index position source = .ok slot
      ∧ slot.params.map (·.value) = values := by
  rw [← bindSlot_sent style bindings index position] at sent
  cases bound : Template.bindSlot style bindings index position source with
  | error e =>
      rw [bound] at sent
      cases sent
  | ok slot =>
      rw [bound] at sent
      exact ⟨slot, rfl, Option.some.inj sent⟩

end Sql

/-! ### Truth of conditions -/

section

variable (o : Operations) (row : JoinedRow) (bindings : Bindings)

def Sql.Grammar.Term.evaluate : Term → Option Value
  | .column c => some (row.column c)
  | .lower t => t.evaluate.map o.lowered
  | .coalesce t u => do
    let value ← t.evaluate
    let other ← u.evaluate
    return if value.isNull then other else value
  | .parameter source =>
    match source.sent? bindings with
    | some [value] => some value
    | _ => none
  | .fragment sql => some (row.fragment sql)

theorem evaluate_variable (name : String) (pattern? : Option PatternKind) :
    (Term.parameter (.variable name pattern?)).evaluate o row bindings =
      (bindings.lookup name).bind fun given => (Template.scalarValue name pattern? given).toOption := by
  rw [Term.evaluate, SlotSource.sent?]
  cases bindings.lookup name with
  | none => rfl
  | some given =>
      rw [Option.bind_some]
      show (match ((Template.scalarValue name pattern? given).toOption.bind fun value =>
        some [value]) with | some [value] => some value | _ => none) = _
      cases (Template.scalarValue name pattern? given).toOption <;> rfl

def Sql.Grammar.Test.evaluate (value : Value) : Test → Option Truth
  | .compare sign right =>
    (right.evaluate o row bindings).map fun other => .known value other (o.holds sign value other)
  | .like right escape =>
    (right.evaluate o row bindings).map fun pattern =>
      .known value pattern (o.fits value pattern escape)
  | .member negated items =>
    (items.mapM (Term.evaluate o row bindings)).map fun items =>
      .negated negated (o.member value items)
  | .null negated => some (.ofBool (value.isNull != negated))

mutual

/-- What a condition says of a row, if its variables can be bound. -/
def Sql.Grammar.Condition.evaluate : Condition → Option Truth
  | .const value => some (.ofBool value)
  | .test t asked => (t.evaluate o row bindings).bind fun value => asked.evaluate o row bindings value
  | .listed negated t name => do
    let value ← t.evaluate o row bindings
    let items ← (SlotSource.list name "" negated).sent? bindings
    return .negated negated (o.member value items)
  | .not part => (Condition.evaluate part).map .not
  | .all parts => (Condition.evaluateEach parts).map .all
  | .any parts => (Condition.evaluateEach parts).map .any

def Sql.Grammar.Condition.evaluateEach : List Condition → Option (List Truth)
  | [] => some []
  | c :: cs => do return (← Condition.evaluate c) :: (← Condition.evaluateEach cs)

end

end

end EntityStore
