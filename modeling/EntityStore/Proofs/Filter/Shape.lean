import EntityStore.Proofs.Filter.Resolution

/-!
Shapes of predicates. The shape of a predicate is the predicate with every literal blank: a scalar
other than null becomes the empty text, and a list keeps its length. Resolving a predicate resolves
its shape as well, to the shape of the filter and on the same tables.
-/

namespace EntityStore

def Value.blank : Value := .text ""

def Value.shape : Value → Value
  | .null => .null
  | .list items => .list (items.map fun _ => .blank)
  | _ => .blank

def Operand.shape : Operand → Operand
  | .literal value => .literal value.shape
  | other => other

def Comparison.shape (c : Comparison) : Comparison :=
  { c with operand := c.operand.shape }

mutual

def Predicate.shape : Predicate → Predicate
  | .all parts => .all (Predicate.shapes parts)
  | .any parts => .any (Predicate.shapes parts)
  | .not part => .not (Predicate.shape part)
  | .compare c => .compare c.shape
  | other => other

def Predicate.shapes : List Predicate → List Predicate
  | [] => []
  | p :: ps => Predicate.shape p :: Predicate.shapes ps

end

def WhereLeaf.shape (l : WhereLeaf) : WhereLeaf :=
  { l with operand := l.operand.shape }

mutual

def WhereGroup.shape : WhereGroup → WhereGroup
  | .all parts => .all (WhereGroup.shapes parts)
  | .any parts => .any (WhereGroup.shapes parts)
  | .not part => .not (WhereGroup.shape part)
  | .leaf l => .leaf l.shape
  | other => other

def WhereGroup.shapes : List WhereGroup → List WhereGroup
  | [] => []
  | g :: gs => WhereGroup.shape g :: WhereGroup.shapes gs

end

namespace Resolve

variable {schema : Schema} {model : EntityModel}

/-! ### Comparisons -/

private theorem blank_scalars (items : List Value) :
    (items.map fun _ => Value.blank).any (fun v => v.isNull || v.isList) = false := by
  induction items with
  | nil => rfl
  | cons item rest ih => exact ih

private theorem operandFault_shape {type : SqlType} {op : CompareOp} {operand : Operand}
    (fits : operandFault? type op operand = none) :
    operandFault? type op operand.shape = none := by
  cases operand with
  | literal value =>
      cases value with
      | null => exact fits
      | list items =>
          simp only [Operand.shape, Value.shape, operandFault?, blank_scalars] at fits ⊢
          split at fits
          · next member =>
              rw [if_pos member]
              rfl
          · cases fits
      | _ =>
          simp only [Operand.shape, Value.shape, Value.blank, operandFault?] at fits ⊢
          cases member : op.isMembership with
          | true =>
              rw [member] at fits
              cases fits
          | false =>
              rw [member] at fits
              cases pattern : op.isPattern with
              | false => rfl
              | true =>
                  rw [pattern] at fits
                  cases text : type.isText with
                  | false =>
                      rw [text] at fits
                      cases fits
                  | true => rfl
  | _ => exact fits

private theorem constantComparison_shape (ref : ColumnRef) (op : CompareOp) (operand : Operand) :
    constantComparison? ref op operand.shape = constantComparison? ref op operand
      ∧ ∀ g, constantComparison? ref op operand = some g → g.shape = g := by
  refine ⟨?_, fun g constant => ?_⟩
  · cases operand with
    | literal value =>
        cases value with
        | list items => cases items <;> rfl
        | _ => rfl
    | _ => rfl
  · unfold constantComparison? at constant
    split at constant
    · split at constant <;> cases constant <;> rfl
    · split at constant <;> cases constant <;> rfl
    · cases constant

private theorem absentValue_shape (column : Column) (type : SqlType) (c : Comparison) :
    absentValue? column type c.shape = absentValue? column type c := by
  obtain ⟨field, op, operand, casefold⟩ := c
  cases operand <;> rfl

private theorem comparison_shape {c : Comparison} {before after : JoinGraph} {g : WhereGroup}
    (resolved : (comparison schema model c).answer before = (.ok g, after)) :
    (comparison schema model c.shape).answer before = (.ok g.shape, after) := by
  unfold comparison at resolved ⊢
  obtain ⟨⟨ref, column⟩, reached, found, resolved⟩ := of_bind resolved
  have field : c.shape.field = c.field := rfl
  have op : c.shape.op = c.op := rfl
  have operand : c.shape.operand = c.operand.shape := rfl
  have casefold : c.shape.casefold = c.casefold := rfl
  obtain ⟨constantSame, constantOwn⟩ := constantComparison_shape ref c.op c.operand
  rw [answer_bind, field, found]
  dsimp only at resolved ⊢
  rw [op, operand, casefold]
  split at resolved
  · next type known =>
      simp only [constantSame]
      split at resolved
      · next constant isConstant =>
          rw [← of_pure resolved]
          simp only [constantOwn _ isConstant]
          cases resolved
          rfl
      · split at resolved
        · cases resolved
        · next fits =>
            have noFault : operandFault? type c.op c.operand = none := by
              cases fault : operandFault? type c.op c.operand with
              | none => rfl
              | some reason => exact (fits reason fault).elim
            simp only [operandFault_shape noFault]
            split at resolved
            · cases resolved
            · next texts =>
                cases resolved
                simp only [absentValue_shape]
                rw [if_neg texts]
                rfl
  · cases resolved

/-! ### Predicates -/

mutual

/-- The shape of a predicate resolves to the shape of its filter, on the same tables. -/
theorem filter_shape (p : Predicate) {before after : JoinGraph} {g : WhereGroup}
    (resolved : (filter schema model p).answer before = (.ok g, after)) :
    (filter schema model p.shape).answer before = (.ok g.shape, after) := by
  cases p with
  | always =>
      cases resolved
      rfl
  | never =>
      cases resolved
      rfl
  | all parts =>
      cases parts with
      | nil =>
          cases resolved
          rfl
      | cons p ps =>
          obtain ⟨gs, reached, each, resolved⟩ := of_bind resolved
          cases resolved
          have shaped := filterEach_shape (p :: ps) each
          show (filterEach schema model (Predicate.shapes (p :: ps)) >>= _).answer before = _
          rw [answer_bind, shaped]
          rfl
  | any parts =>
      cases parts with
      | nil =>
          cases resolved
          rfl
      | cons p ps =>
          obtain ⟨gs, reached, each, resolved⟩ := of_bind resolved
          cases resolved
          have shaped := filterEach_shape (p :: ps) each
          show (filterEach schema model (Predicate.shapes (p :: ps)) >>= _).answer before = _
          rw [answer_bind, shaped]
          rfl
  | not part =>
      obtain ⟨inner, reached, whole, resolved⟩ := of_bind resolved
      cases resolved
      have shaped := filter_shape part whole
      show (filter schema model part.shape >>= _).answer before = _
      rw [answer_bind, shaped]
      rfl
  | isNull field =>
      obtain ⟨found, reached, columnFound, rest⟩ := of_bind resolved
      cases rest
      exact resolved
  | isNotNull field =>
      obtain ⟨found, reached, columnFound, rest⟩ := of_bind resolved
      cases rest
      exact resolved
  | compare c => exact comparison_shape resolved

theorem filterEach_shape (ps : List Predicate) {before after : JoinGraph} {gs : List WhereGroup}
    (resolved : (filterEach schema model ps).answer before = (.ok gs, after)) :
    (filterEach schema model (Predicate.shapes ps)).answer before =
      (.ok (WhereGroup.shapes gs), after) := by
  cases ps with
  | nil =>
      cases resolved
      rfl
  | cons p ps =>
      obtain ⟨g, reached, first, resolved⟩ := of_bind resolved
      obtain ⟨rest, reachedRest, others, resolved⟩ := of_bind resolved
      cases resolved
      have shaped := filter_shape p first
      have shapedRest := filterEach_shape ps others
      show (filter schema model p.shape >>= fun g =>
        filterEach schema model (Predicate.shapes ps) >>= _).answer before = _
      rw [answer_bind, shaped]
      dsimp only
      rw [answer_bind, shapedRest]
      rfl

end

end Resolve

end EntityStore
