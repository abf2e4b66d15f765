import EntityStore.Proofs.Transaction.Work

/-!
Units of work that fail. While the transaction of a unit is open, all that the storage sees of the
work inside are statements, and whoever commits leaves it open. It ends by the unit itself, or
because a participant inside rolls back or is dropped. What is executed after that lies outside of
it: the work inside goes on, each statement by itself or in transactions that it opens anew.
-/

namespace EntityStore

variable {σ ε α : Type} {env : Setting σ} {i : StorageId}

/-! ### What a step does -/

def holders (id : Nat) (held : Multiset Transaction) : Nat :=
  held.countP fun t => t.id = id

theorem holders_cons_same {id : Nat} {t : Transaction} (same : t.id = id)
    (held : Multiset Transaction) : holders id (t ::ₘ held) = holders id held + 1 :=
  Multiset.countP_cons_of_pos held same

theorem holders_cons_other {id : Nat} {t : Transaction} (other : t.id ≠ id)
    (held : Multiset Transaction) : holders id (t ::ₘ held) = holders id held :=
  Multiset.countP_cons_of_neg held other

inductive Seen (i : StorageId) (g h : Stage σ ε) : Prop
  | still (held : h.held = g.held)
      (coordinator : h.state.coordinator i = g.state.coordinator i)
      (dealings : h.state.dealings i = g.state.dealings i)
  | statement (e : Event) (statement : e.isStatement i = true) (held : h.held = g.held)
      (coordinator : h.state.coordinator i = g.state.coordinator i)
      (dealings : h.state.dealings i = g.state.dealings i ++ [e])
  | joined (active : ActiveTransaction)
      (found : (g.state.coordinator i).active? = some active)
      (held : h.held = ⟨i, active.id, active.depth + 1⟩ ::ₘ g.held)
      (coordinator : h.state.coordinator i =
        { g.state.coordinator i with active? := some ⟨active.id, active.depth + 1⟩ })
      (dealings : h.state.dealings i = g.state.dealings i)
  | opened (idle : (g.state.coordinator i).active? = none)
      (held : h.held = ⟨i, (g.state.coordinator i).lastId + 1, 1⟩ ::ₘ g.held)
      (coordinator : h.state.coordinator i =
        ⟨some ⟨(g.state.coordinator i).lastId + 1, 1⟩, (g.state.coordinator i).lastId + 1⟩)
      (dealings : h.state.dealings i = g.state.dealings i ++ [.begin i true])
  | refused (idle : (g.state.coordinator i).active? = none) (held : h.held = g.held)
      (coordinator : h.state.coordinator i = g.state.coordinator i)
      (dealings : h.state.dealings i = g.state.dealings i ++ [.begin i false])
  | stale (t : Transaction) (held : g.held = t ::ₘ h.held)
      (past : (g.state.coordinator i).holds t.id = false)
      (coordinator : h.state.coordinator i = g.state.coordinator i)
      (dealings : h.state.dealings i = g.state.dealings i)
  | pending (t : Transaction) (depth : Nat) (held : g.held = t ::ₘ h.held)
      (found : (g.state.coordinator i).active? = some ⟨t.id, depth⟩) (others : 1 < depth)
      (coordinator : h.state.coordinator i =
        { g.state.coordinator i with active? := some ⟨t.id, depth - 1⟩ })
      (dealings : h.state.dealings i = g.state.dealings i)
  | committed (t : Transaction) (depth : Nat) (succeeded : Bool) (held : g.held = t ::ₘ h.held)
      (found : (g.state.coordinator i).active? = some ⟨t.id, depth⟩) (last : depth ≤ 1)
      (coordinator : h.state.coordinator i = { g.state.coordinator i with active? := none })
      (dealings : h.state.dealings i = g.state.dealings i ++ [.commit i succeeded])
  | rolledBack (t : Transaction) (succeeded : Bool) (held : g.held = t ::ₘ h.held)
      (taking : (g.state.coordinator i).holds t.id = true)
      (coordinator : h.state.coordinator i = { g.state.coordinator i with active? := none })
      (dealings : h.state.dealings i = g.state.dealings i ++ [.rollback i succeeded])

theorem Party.effect_begun {s after : State σ ε} {t : Transaction}
    (begun : (Storage.begin env i : Attempt σ ε _).run.run s = (.ok t, after)) :
    Effect i (⟨s, []⟩ : Party σ ε) ⟨after, [⟨t, none⟩]⟩ .begin (.joined t) := by
  have moved : move env i ⟨s, []⟩ .begin = (.joined t, ⟨after, [⟨t, none⟩]⟩) := by
    rw [move, begun]
    rfl
  have effect := begin_effect env i (⟨s, []⟩ : Party σ ε)
  rwa [moved] at effect

theorem Party.effect_refused {s after : State σ ε} {e : EngineError}
    (begun : (Storage.begin env i : Attempt σ ε _).run.run s = (.error e, after)) :
    Effect i (⟨s, []⟩ : Party σ ε) ⟨after, []⟩ .begin (.refused e) := by
  have moved : move env i ⟨s, []⟩ .begin = (.refused e, ⟨after, []⟩) := by
    rw [move, begun]
  have effect := begin_effect env i (⟨s, []⟩ : Party σ ε)
  rwa [moved] at effect

theorem Storage.seen_begun {s after : State σ ε} {t : Transaction} (held : Multiset Transaction)
    (begun : (Storage.begin env i : Attempt σ ε _).run.run s = (.ok t, after)) :
    Seen i ⟨s, held⟩ ⟨after, t ::ₘ held⟩ := by
  cases Party.effect_begun begun with
  | joined active found coordinator members calls =>
      exact .joined active found rfl coordinator (State.dealings_same calls)
  | opened idle coordinator members calls =>
      exact .opened idle rfl coordinator (State.dealings_added calls (by simp [Event.concerns]))

theorem Storage.seen_refused {s after : State σ ε} {e : EngineError} (held : Multiset Transaction)
    (begun : (Storage.begin env i : Attempt σ ε _).run.run s = (.error e, after)) :
    Seen i ⟨s, held⟩ ⟨after, held⟩ := by
  cases Party.effect_refused begun with
  | refused _ idle coordinator members calls =>
      exact .refused idle rfl coordinator (State.dealings_added calls (by simp [Event.concerns]))

theorem Party.seen_leave (s : State σ ε) (t : Transaction) (here : t.storage = i) (how : Leaving)
    (held : Multiset Transaction) :
    Seen i ⟨s, t ::ₘ held⟩ ⟨((leave env t how : Engine σ ε Reply).run s).2, held⟩ := by
  have takes : (⟨s, [⟨t, none⟩]⟩ : Party σ ε).Takes 0 t := rfl
  have effect := leave_effect env i _ 0 how t takes here
  have moved : ((⟨s, [⟨t, none⟩]⟩ : Party σ ε).move env i (.leave 0 how)).2.state =
      ((leave env t how).run s).2 := rfl
  rw [← moved]
  generalize (Party.move env i ⟨s, [⟨t, none⟩]⟩ (.leave 0 how)).2 = q at effect
  generalize (Party.move env i ⟨s, [⟨t, none⟩]⟩ (.leave 0 how)).1 = reply at effect
  cases effect with
  | gone who how absent same => exact (absent t takes).elim
  | stale who how u reply found past state members calls told =>
      cases found
      refine .stale t rfl past ?_ (State.dealings_same calls)
      rw [state]
  | pending who depth u found active others coordinator members calls =>
      cases found
      exact .pending t depth rfl active others coordinator (State.dealings_same calls)
  | committed who depth u reply found active last members ends =>
      cases found
      obtain ⟨coordinator, succeeded, calls⟩ := ends
      exact .committed t depth succeeded rfl active last coordinator
        (State.dealings_added calls (by simp [Event.concerns]))
  | rolledBack who how u reply found noCommit taking members ends =>
      cases found
      obtain ⟨coordinator, succeeded, calls⟩ := ends
      exact .rolledBack t succeeded rfl taking coordinator
        (State.dealings_added calls (by simp [Event.concerns]))

theorem Step.seen {g h : Stage σ ε} (step : Step env i g h) : Seen i g h := by
  cases step with
  | aside aside => exact .still rfl aside.coordinator aside.dealings
  | statement event statement answer =>
      exact .statement _ (statement _) rfl rfl (State.dealings_called statement)
  | joined begun => exact Storage.seen_begun _ begun
  | refused begun => exact Storage.seen_refused _ begun
  | left t here how => exact Party.seen_leave _ t here how _

/-! ### What steps keep -/

structure Inside (i : StorageId) (id : Nat) (g : Stage σ ε) : Prop where
  active : (g.state.coordinator i).active? = some ⟨id, holders id g.held + 1⟩
  given : id ≤ (g.state.coordinator i).lastId

structure Over (i : StorageId) (id : Nat) (s : State σ ε) : Prop where
  closed : (s.coordinator i).holds id = false
  given : id ≤ (s.coordinator i).lastId

variable {id : Nat} {g h : Stage σ ε}

/-- A transaction that is over stays so: whatever is opened has a new id. -/
theorem Seen.past (seen : Seen i g h) (past : Over i id g.state) :
    Over i id h.state ∧ ∃ later, h.state.dealings i = g.state.dealings i ++ later := by
  obtain ⟨closed, given⟩ := past
  have same (coordinator : h.state.coordinator i = g.state.coordinator i) : Over i id h.state :=
    ⟨by rw [coordinator, closed], by rwa [coordinator]⟩
  have ended (coordinator : h.state.coordinator i =
      { g.state.coordinator i with active? := none }) : Over i id h.state :=
    ⟨by rw [coordinator]; rfl, by rwa [coordinator]⟩
  have other {active : ActiveTransaction} {depth : Nat}
      (found : (g.state.coordinator i).active? = some active)
      (coordinator : h.state.coordinator i =
        { g.state.coordinator i with active? := some ⟨active.id, depth⟩ }) :
      Over i id h.state := by
    rw [Party.holds_some found] at closed
    exact ⟨by rw [coordinator, Party.holds_some rfl, closed], by rwa [coordinator]⟩
  cases seen with
  | still held coordinator dealings =>
      exact ⟨same coordinator, [], by rw [dealings, List.append_nil]⟩
  | statement e statement held coordinator dealings => exact ⟨same coordinator, [e], dealings⟩
  | joined active found held coordinator dealings =>
      exact ⟨other found coordinator, [], by rw [dealings, List.append_nil]⟩
  | opened idle held coordinator dealings =>
      refine ⟨⟨?_, ?_⟩, _, dealings⟩
      · rw [coordinator, Party.holds_some rfl, decide_eq_false_iff_not]
        dsimp only
        omega
      · rw [coordinator]
        exact Nat.le_succ_of_le given
  | refused idle held coordinator dealings => exact ⟨same coordinator, _, dealings⟩
  | stale t held late coordinator dealings =>
      exact ⟨same coordinator, [], by rw [dealings, List.append_nil]⟩
  | pending t depth held found others coordinator dealings =>
      exact ⟨other found coordinator, [], by rw [dealings, List.append_nil]⟩
  | committed t depth succeeded held found last coordinator dealings =>
      exact ⟨ended coordinator, _, dealings⟩
  | rolledBack t succeeded held taking coordinator dealings =>
      exact ⟨ended coordinator, _, dealings⟩

/-- Inside an open transaction a step runs a statement at most, or it rolls back. -/
theorem Seen.inside (seen : Seen i g h) (inside : Inside i id g) :
    (Inside i id h ∧ ∃ made, (∀ e ∈ made, e.isStatement i = true) ∧
        h.state.dealings i = g.state.dealings i ++ made) ∨
      Over i id h.state ∧ ∃ succeeded,
        h.state.dealings i = g.state.dealings i ++ [.rollback i succeeded] := by
  obtain ⟨active, given⟩ := inside
  have quiet (dealings : h.state.dealings i = g.state.dealings i) :
      ∃ made, (∀ e ∈ made, e.isStatement i = true) ∧
        h.state.dealings i = g.state.dealings i ++ made :=
    ⟨[], by simp, by rw [dealings, List.append_nil]⟩
  cases seen with
  | still held coordinator dealings =>
      exact .inl ⟨⟨by rw [coordinator, held, active], by rwa [coordinator]⟩, quiet dealings⟩
  | statement e statement held coordinator dealings =>
      refine .inl ⟨⟨by rw [coordinator, held, active], by rwa [coordinator]⟩, [e], ?_, dealings⟩
      simpa using statement
  | joined joint found held coordinator dealings =>
      rw [active] at found
      cases found
      refine .inl ⟨⟨?_, by rwa [coordinator]⟩, quiet dealings⟩
      rw [coordinator, held, holders_cons_same]
      rfl
  | opened idle held coordinator dealings =>
      rw [active] at idle
      cases idle
  | refused idle held coordinator dealings =>
      rw [active] at idle
      cases idle
  | stale t held late coordinator dealings =>
      rw [Party.holds_some active, decide_eq_false_iff_not] at late
      refine .inl ⟨⟨?_, by rwa [coordinator]⟩, quiet dealings⟩
      rw [coordinator, active, held, holders_cons_other (Ne.symm late)]
  | pending t depth held found others coordinator dealings =>
      rw [active] at found
      cases found
      refine .inl ⟨⟨?_, by rwa [coordinator]⟩, quiet dealings⟩
      rw [coordinator, held, holders_cons_same rfl]
      rfl
  | committed t depth succeeded held found last coordinator dealings =>
      -- The unit itself takes part beside the participant, so none of those inside is the last.
      rw [active] at found
      cases found
      rw [held, holders_cons_same rfl] at last
      omega
  | rolledBack t succeeded held taking coordinator dealings =>
      refine .inr ⟨⟨?_, by rwa [coordinator]⟩, succeeded, dealings⟩
      rw [coordinator]
      rfl

/-- From inside a transaction, steps run statements and leave it open, or a rollback comes between
the statements and all that follows. -/
theorem Steps.inside (steps : Steps env i g h) (inside : Inside i id g) :
    ∃ made, (∀ e ∈ made, e.isStatement i = true) ∧
      (Inside i id h ∧ h.state.dealings i = g.state.dealings i ++ made ∨
        Over i id h.state ∧ ∃ succeeded later,
          h.state.dealings i = g.state.dealings i ++ (made ++ .rollback i succeeded :: later)) := by
  induction steps with
  | refl => exact ⟨[], by simp, .inl ⟨inside, by rw [List.append_nil]⟩⟩
  | tail _ step ih =>
      obtain ⟨made, statements, still | broken⟩ := ih
      · obtain ⟨within, dealings⟩ := still
        rcases step.seen.inside within with ⟨after, more, others, added⟩ | ⟨after, succeeded, added⟩
        · refine ⟨made ++ more, ?_, .inl ⟨after, by rw [added, dealings, List.append_assoc]⟩⟩
          intro e member
          rcases List.mem_append.1 member with member | member
          · exact statements e member
          · exact others e member
        · refine ⟨made, statements, .inr ⟨after, succeeded, [], ?_⟩⟩
          rw [added, dealings, List.append_assoc]
      · obtain ⟨before, succeeded, later, dealings⟩ := broken
        obtain ⟨after, more, added⟩ := step.seen.past before
        refine ⟨made, statements, .inr ⟨after, succeeded, later ++ more, ?_⟩⟩
        rw [added, dealings]
        simp

/-! ### Opening and closing a unit -/

variable {s : State σ ε} {t : Transaction}

private theorem Storage.inside_begun {opened : State σ ε} (idle : (s.coordinator i).active? = none)
    (begun : (Storage.begin env i : Attempt σ ε _).run.run s = (.ok t, opened)) :
    Inside i t.id ⟨opened, 0⟩ ∧ opened.dealings i = s.dealings i ++ [.begin i true] := by
  cases Party.effect_begun begun with
  | joined active found coordinator members calls =>
      have taken := idle.symm.trans found
      cases taken
  | opened _ coordinator members calls =>
      refine ⟨⟨?_, ?_⟩, State.dealings_added calls (by simp [Event.concerns])⟩
      · exact congrArg Coordinator.active? coordinator
      · exact (congrArg Coordinator.lastId coordinator).ge

theorem Transaction.run_close_ok {o : Outcome α} {after : State σ ε} {status : TransactionStatus}
    (success : o.isSuccess = true) (committed : status ≠ .alreadyEnded)
    (ran : (t.commit env : Engine σ ε _).run s = (.ok status, after)) :
    (t.close env o : Engine σ ε _).run s = (o, after) := by
  unfold Transaction.close
  rw [if_pos success, Engine.run_bind, ran]
  cases status with
  | alreadyEnded => exact (committed rfl).elim
  | committed => rfl
  | pending depth => rfl
  | rolledBack => rfl

/-- The call by which a unit of work that failed has ended its transaction. -/
inductive Discards (i : StorageId) : Event → Prop
  | rollback (succeeded : Bool) : Discards i (.rollback i succeeded)
  | commit : Discards i (.commit i false)

/-- A unit whose transaction is open ends it without keeping anything, or carries no error. -/
theorem Transaction.close_inside {held : Multiset Transaction} (here : t.storage = i)
    (inside : Inside i t.id ⟨s, held⟩) (o : Outcome α)
    (failed : ((t.close env o : Engine σ ε _).run s).1.errors ≠ []) :
    ∃ ending, Discards i ending ∧
      ((t.close env o : Engine σ ε _).run s).2.dealings i = s.dealings i ++ [ending] := by
  subst here
  have active := inside.active
  dsimp only at active
  cases success : o.isSuccess with
  | true =>
      by_cases others : 1 < holders t.id held + 1
      · have ran := Storage.run_commitId_pending env active others
        rw [run_close_ok success (by simp) ran] at failed
        exact (failed ((Outcome.isSuccess_iff o).1 success)).elim
      · obtain ⟨reply, after, succeeded, ran, -, calls, -, told⟩ :=
          Storage.run_commitId_told env active (Nat.not_lt.1 others)
        cases succeeded with
        | true =>
            rw [told rfl] at ran
            rw [run_close_ok success (by simp) ran] at failed
            exact (failed ((Outcome.isSuccess_iff o).1 success)).elim
        | false =>
            refine ⟨_, .commit, ?_⟩
            rw [run_close, success, if_pos rfl, Party.leave, Engine.run_bind, commit, ran]
            exact State.dealings_added calls (by simp [Event.concerns])
  | false =>
      have holds : (s.coordinator t.storage).holds t.id = true := by
        rw [Party.holds_some active]
        exact decide_eq_true rfl
      obtain ⟨reply, after, ran, ends⟩ := Storage.run_rollbackId_open env holds
      obtain ⟨succeeded, calls⟩ := ends.calls
      refine ⟨_, .rollback succeeded, ?_⟩
      rw [run_close, success, if_neg Bool.false_ne_true, Party.leave, Engine.run_bind, rollback,
        ran]
      exact State.dealings_added calls (by simp [Event.concerns])

private theorem Transaction.close_over (here : t.storage = i) (past : Over i t.id s) (o : Outcome α) :
    ((t.close env o : Engine σ ε _).run s).2.dealings i = s.dealings i := by
  subst here
  rw [run_close]
  generalize (if o.isSuccess then Leaving.commit else .rollback) = how
  obtain ⟨reply, after, ran, -, calls, -⟩ :=
    @Party.run_leave_stale σ ε env s t how past.closed
  rw [ran]
  exact State.dealings_same calls

/-! ### What lasts -/

structure Ledger where
  open? : Option (List Event) := none
  lasting : List Event := []

/-- Outside of a transaction a statement lasts at once. Inside it waits until a commit that succeeds
makes it last; any other end of the transaction takes it back. -/
def Ledger.enter (l : Ledger) : Event → Ledger
  | .begin _ succeeded => if succeeded then { l with open? := some [] } else l
  | .commit _ succeeded => ⟨none, if succeeded then l.lasting ++ l.open?.getD [] else l.lasting⟩
  | .rollback .. => { l with open? := none }
  | .connect .. | .hook .. | .observer .. | .unitCall .. | .trace _ => l
  | statement =>
    match l.open? with
    | some inside => { l with open? := some (inside ++ [statement]) }
    | none => { l with lasting := l.lasting ++ [statement] }

def lasting (dealings : List Event) : List Event :=
  (dealings.foldl Ledger.enter {}).lasting

theorem Ledger.enter_statements {made : List Event}
    (statements : ∀ e ∈ made, e.isStatement i = true) (inside kept : List Event) :
    made.foldl enter ⟨some inside, kept⟩ = ⟨some (inside ++ made), kept⟩ := by
  induction made generalizing inside with
  | nil => rw [List.append_nil]; rfl
  | cons e rest ih =>
      have here : Ledger.enter ⟨some inside, kept⟩ e = ⟨some (inside ++ [e]), kept⟩ := by
        have statement := statements e List.mem_cons_self
        cases e <;> first | rfl | cases statement
      rw [List.foldl_cons, here, ih fun e member => statements e (List.mem_cons_of_mem _ member),
        List.append_assoc]
      rfl

private theorem lasting_discarded {made later : List Event} {ending : Event}
    (statements : ∀ e ∈ made, e.isStatement i = true) (discards : Discards i ending) :
    lasting (.begin i true :: made ++ ending :: later) = lasting later := by
  have after : Ledger.enter ⟨some made, []⟩ ending = {} := by
    cases discards <;> rfl
  have opened : Ledger.enter {} (.begin i true) = ⟨some [], []⟩ := rfl
  rw [lasting, List.foldl_append, List.foldl_cons, List.foldl_cons, opened,
    Ledger.enter_statements statements, List.nil_append, after]
  rfl

/-! ### Failed units -/

/-- How the dealings of a failed unit look: what its action has done, all that was added with it,
and what was executed after the unit's transaction had ended. -/
inductive Undone (i : StorageId) : (own added later : List Event) → Prop
  | refused : Undone i [] [.begin i false] []
  | closed {own : List Event} {ending : Event} (statements : ∀ e ∈ own, e.isStatement i = true)
      (discards : Discards i ending) : Undone i own (.begin i true :: own ++ [ending]) []
  | broken {inside later : List Event} (succeeded : Bool)
      (statements : ∀ e ∈ inside, e.isStatement i = true) :
      Undone i (inside ++ .rollback i succeeded :: later)
        (.begin i true :: (inside ++ .rollback i succeeded :: later)) later

private theorem Undone.lasting_eq {own added later : List Event} (undone : Undone i own added later) :
    lasting added = lasting later := by
  cases undone with
  | refused => rfl
  | closed statements discards => exact lasting_discarded statements discards
  | broken succeeded statements => exact lasting_discarded statements (.rollback succeeded)

private theorem Undone.later_eq {own added later : List Event} (undone : Undone i own added later)
    (unbroken : ∀ succeeded, .rollback i succeeded ∉ own) : later = [] := by
  cases undone with
  | refused => rfl
  | closed statements discards => rfl
  | broken succeeded statements => exact (unbroken succeeded (by simp)).elim

/-- A failed unit keeps nothing of what was executed before its transaction had ended, and nothing
at all unless a participant inside has rolled back. -/
theorem failed_unit_is_undone {action : Engine σ ε (Outcome α)}
    {after : Outcome α → Multiset Transaction → Prop} (work : Work env i 0 action after)
    (idle : (s.coordinator i).active? = none)
    (failed : ((Storage.runInsideTransaction env i action).run s).1.errors ≠ []) :
    ∃ own added later, Undone i own added later ∧
      ((Storage.runInsideTransaction env i action).run s).2.dealings i =
        s.dealings i ++ added ∧
      (∀ t opened, (Storage.begin env i : Attempt σ ε _).run.run s = (.ok t, opened) →
        (action.run opened).2.dealings i = opened.dealings i ++ own) ∧
      lasting added = lasting later ∧
      ((∀ succeeded, .rollback i succeeded ∉ own) → lasting added = []) := by
  suffices undone : ∃ own added later, Undone i own added later ∧
      ((Storage.runInsideTransaction env i action).run s).2.dealings i =
        s.dealings i ++ added ∧
      ∀ t opened, (Storage.begin env i : Attempt σ ε _).run.run s = (.ok t, opened) →
        (action.run opened).2.dealings i = opened.dealings i ++ own by
    obtain ⟨own, added, later, undone, dealings, did⟩ := undone
    refine ⟨own, added, later, undone, dealings, did, undone.lasting_eq, fun unbroken => ?_⟩
    rw [undone.lasting_eq, undone.later_eq unbroken]
    rfl
  rw [Storage.run_unit] at failed ⊢
  cases begun : (Storage.begin env i : Attempt σ ε _).run.run s with
  | mk result opened =>
    rw [begun] at failed
    cases result with
    | error e =>
        refine ⟨[], [.begin i false], [], .refused, ?_, by rintro _ _ ⟨⟩⟩
        cases Party.effect_refused begun with
        | refused _ _ coordinator members calls =>
            exact State.dealings_added calls (by simp [Event.concerns])
    | ok t =>
        dsimp only at failed ⊢
        have here := Storage.begin_storage begun
        obtain ⟨inside, began⟩ := Storage.inside_begun idle begun
        obtain ⟨rest, -, steps⟩ := work.steps opened
        obtain ⟨made, statements, still | broken⟩ := steps.inside inside
        · obtain ⟨within, did⟩ := still
          obtain ⟨ending, discards, closed⟩ := Transaction.close_inside here within _ failed
          refine ⟨made, _, [], .closed statements discards, ?_, ?_⟩
          · rw [closed, did, began]
            simp
          · rintro _ _ ⟨⟩
            exact did
        · obtain ⟨past, succeeded, later, did⟩ := broken
          refine ⟨_, _, later, .broken succeeded statements, ?_, ?_⟩
          · rw [Transaction.close_over here past, did, began]
            simp
          · rintro _ _ ⟨⟩
            exact did

def deletion : Engine Scripts Record (Outcome Nat) :=
  (Storage.execute Party.scripted 0 ⟨"DELETE FROM book", []⟩).outcome

theorem deletion_works :
    Work (ε := Record) Party.scripted 0 0 deletion fun _ rest => rest = 0 := by
  refine .bind (.request (.execute 0 _) 0) ?_
  rintro answer _ rfl
  exact .done _ 0

def failingCommit : State Scripts Record where
  outside := ⟨fun _ => { commit := [.error (.execution "COMMIT" "disk is full")] }⟩

theorem failed_commit_undoes :
    ((Storage.runInsideTransaction Party.scripted 0 deletion).run failingCommit).1.errors ≠ [] ∧
    ∃ own added later, Undone 0 own added later ∧
      ((Storage.runInsideTransaction Party.scripted 0 deletion).run failingCommit).2.dealings 0 =
        failingCommit.dealings 0 ++ added ∧
      (∀ t opened, (Storage.begin Party.scripted 0 : Attempt Scripts Record _).run.run
          failingCommit = (.ok t, opened) →
        (deletion.run opened).2.dealings 0 = opened.dealings 0 ++ own) ∧
      lasting added = lasting later ∧
      ((∀ succeeded, .rollback 0 succeeded ∉ own) → lasting added = []) :=
  have failed :
      ((Storage.runInsideTransaction Party.scripted 0 deletion).run failingCommit).1.errors ≠ [] :=
    List.cons_ne_nil _ _
  ⟨failed, failed_unit_is_undone deletion_works rfl failed⟩

def carryingOn : Engine Scripts Record (Outcome Nat) := do
  match ← (Storage.begin Party.scripted 0).run with
  | .error e => return .ofError e
  | .ok t =>
    let _ ← Party.leave Party.scripted t .rollback
    deletion

private theorem carryingOn_works :
    Work (ε := Record) Party.scripted 0 0 carryingOn fun _ rest => rest = 0 := by
  refine .bind (.begin 0) ?_
  rintro (e | t) rest begun
  · cases begun
    exact .done _ 0
  · obtain ⟨here, rfl⟩ := begun
    refine .bind (.leave t here .rollback 0) ?_
    rintro reply _ rfl
    exact deletion_works

/-- A failed unit can leave something behind: what was executed after a rollback inside it. -/
theorem statement_after_rollback_lasts :
    ¬ ∀ (action : Engine Scripts Record (Outcome Nat))
      (after : Outcome Nat → Multiset Transaction → Prop) (s : State Scripts Record)
      (added : List Event), Work Party.scripted 0 0 action after →
      (s.coordinator 0).active? = none →
      ((Storage.runInsideTransaction Party.scripted 0 action).run s).1.errors ≠ [] →
      ((Storage.runInsideTransaction Party.scripted 0 action).run s).2.dealings 0 =
        s.dealings 0 ++ added →
      lasting added = [] := by
  intro nothing
  have lost := nothing carryingOn _ { outside := {} }
    [.begin 0 true, .rollback 0 true, .execute 0 ⟨"DELETE FROM book", []⟩ true]
    carryingOn_works rfl (List.cons_ne_nil _ _) rfl
  cases lost

end EntityStore
