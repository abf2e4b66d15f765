import EntityStore.Filter.Resolve

/-!
What resolving does to a graph, one building block at a time, and what can be said of every filter
that comes out of it: a value stands for a missing one in plain comparisons only, never in a
membership.
-/

namespace EntityStore

namespace Resolve

variable {α β : Type}

def answer (r : Resolve α) (g : JoinGraph) : Except TranslateError α × JoinGraph :=
  Id.run (r.run.run g)

theorem answer_bind (r : Resolve α) (next : α → Resolve β) (g : JoinGraph) :
    (r >>= next).answer g =
      match r.answer g with
      | (.ok a, reached) => (next a).answer reached
      | (.error e, reached) => (.error e, reached) := by
  show Id.run ((ExceptT.bindCont next (r.answer g).1).run (r.answer g).2) = _
  obtain ⟨outcome, reached⟩ := r.answer g
  cases outcome <;> rfl

theorem of_bind {r : Resolve α} {next : α → Resolve β} {g after : JoinGraph} {b : β}
    (ran : (r >>= next).answer g = (.ok b, after)) :
    ∃ a reached, r.answer g = (.ok a, reached) ∧ (next a).answer reached = (.ok b, after) := by
  rw [answer_bind] at ran
  generalize r.answer g = first at ran
  obtain ⟨outcome, reached⟩ := first
  cases outcome with
  | ok a => exact ⟨a, reached, rfl, ran⟩
  | error e => cases ran

theorem of_pure {a b : α} {g after : JoinGraph}
    (ran : (pure a : Resolve α).answer g = (.ok b, after)) : a = b := by
  cases ran
  rfl

end Resolve

def WhereLeaf.Settled (l : WhereLeaf) : Prop :=
  l.op.isMembership = true → l.absent? = none

def WhereGroup.Settled (g : WhereGroup) : Prop :=
  ∀ leaf ∈ g.leaves, leaf.Settled

def WhereGroup.EachSettled (gs : List WhereGroup) : Prop :=
  ∀ leaf ∈ leavesEach gs, leaf.Settled

namespace Resolve

variable {schema : Schema} {model : EntityModel}

theorem absentValue_membership {column : Column} {type : SqlType} {c : Comparison}
    (member : c.op.isMembership = true) : absentValue? column type c = none := by
  unfold absentValue?
  cases op : c.op with
  | isIn => cases c.operand <;> simp [CompareOp.isOrdering]
  | notIn => cases c.operand <;> simp [CompareOp.isOrdering]
  | _ =>
      rw [op] at member
      cases member

theorem constantComparison_leaves {ref : ColumnRef} {op : CompareOp} {operand : Operand}
    {g : WhereGroup} (constant : constantComparison? ref op operand = some g) : g.leaves = [] := by
  unfold constantComparison? at constant
  split at constant
  · split at constant <;> cases constant <;> rfl
  · split at constant <;> cases constant <;> rfl
  · cases constant

private theorem comparison_settled {c : Comparison} {before after : JoinGraph} {g : WhereGroup}
    (resolved : (comparison schema model c).answer before = (.ok g, after)) : g.Settled := by
  unfold comparison at resolved
  obtain ⟨⟨ref, column⟩, reached, -, resolved⟩ := of_bind resolved
  dsimp only at resolved
  split at resolved
  · split at resolved
    · next constant =>
        cases of_pure resolved
        intro leaf member
        rw [constantComparison_leaves constant] at member
        cases member
    · split at resolved
      · cases resolved
      · split at resolved
        · cases resolved
        · cases of_pure resolved
          intro leaf member
          rw [WhereGroup.leaves, List.mem_singleton] at member
          subst member
          exact absentValue_membership
  · cases resolved

private theorem isNull_settled {field : String} {negated : Bool} {before after : JoinGraph}
    {g : WhereGroup}
    (resolved : (do return .null (← column schema model field).1 negated : Resolve WhereGroup).answer
      before = (.ok g, after)) : g.Settled := by
  obtain ⟨found, reached, -, resolved⟩ := of_bind resolved
  cases of_pure resolved
  exact fun leaf member => (List.not_mem_nil member).elim

private theorem const_settled {value : Bool} {before after : JoinGraph} {g : WhereGroup}
    (resolved : (pure (.const value) : Resolve WhereGroup).answer before = (.ok g, after)) :
    g.Settled := by
  cases of_pure resolved
  exact fun leaf member => (List.not_mem_nil member).elim

mutual

/-- Every filter that comes from a predicate is settled, whatever graph it is resolved on. -/
theorem filter_settled (p : Predicate) {before after : JoinGraph} {g : WhereGroup}
    (resolved : (filter schema model p).answer before = (.ok g, after)) : g.Settled := by
  cases p with
  | always => exact const_settled resolved
  | never => exact const_settled resolved
  | all parts =>
      cases parts with
      | nil => exact const_settled resolved
      | cons p ps =>
          obtain ⟨gs, reached, each, resolved⟩ := of_bind resolved
          cases of_pure resolved
          exact filterEach_settled (p :: ps) each
  | any parts =>
      cases parts with
      | nil => exact const_settled resolved
      | cons p ps =>
          obtain ⟨gs, reached, each, resolved⟩ := of_bind resolved
          cases of_pure resolved
          exact filterEach_settled (p :: ps) each
  | not part =>
      obtain ⟨inner, reached, whole, resolved⟩ := of_bind resolved
      cases of_pure resolved
      have settled : inner.Settled := filter_settled part whole
      exact settled
  | isNull field => exact isNull_settled resolved
  | isNotNull field => exact isNull_settled resolved
  | compare c => exact comparison_settled resolved

theorem filterEach_settled (ps : List Predicate) {before after : JoinGraph} {gs : List WhereGroup}
    (resolved : (filterEach schema model ps).answer before = (.ok gs, after)) :
    WhereGroup.EachSettled gs := by
  cases ps with
  | nil =>
      cases of_pure resolved
      exact fun leaf member => (List.not_mem_nil member).elim
  | cons p ps =>
      obtain ⟨g, reached, first, resolved⟩ := of_bind resolved
      obtain ⟨rest, reachedRest, others, resolved⟩ := of_bind resolved
      cases of_pure resolved
      intro leaf member
      rcases List.mem_append.1 member with member | member
      · exact filter_settled p first leaf member
      · exact filterEach_settled ps others leaf member

end

end Resolve

end EntityStore
