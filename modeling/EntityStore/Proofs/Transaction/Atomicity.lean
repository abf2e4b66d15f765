import EntityStore.Proofs.Engine.Run
import EntityStore.Proofs.Engine.Deeds
import EntityStore.Proofs.Transaction.Protocol

/-!
Builders keep all of their work or give it all up. A builder that writes does its work as one
participant of a transaction. On a storage without a transaction it opens one and ends it, by a
commit just if all that it did has succeeded; inside of a transaction it makes no call but its
statements, unless it fails and rolls back.
-/

namespace EntityStore

variable {σ ε α : Type} {env : Setting σ} {i : StorageId} {s : State σ ε}

/-! ### Beginning and closing a transaction -/

namespace Storage

variable {t : Transaction}

theorem opens {opened : State σ ε}
    (begun : (begin env i : Attempt σ ε _).run.run s = (.ok t, opened))
    (idle : (s.coordinator i).active? = none) :
    opened.calls = s.calls ++ [.begin i true] ∧
      (opened.coordinator i).active? = some ⟨t.id, 1⟩ := by
  cases Party.effect_begun begun with
  | joined active found coordinator members calls => cases idle.symm.trans found
  | opened _ coordinator members calls =>
      exact ⟨calls, congrArg Coordinator.active? coordinator⟩

theorem begins {opened : State σ ε}
    (begun : (begin env i : Attempt σ ε _).run.run s = (.ok t, opened)) :
    ∃ depth made, (opened.coordinator i).active? = some ⟨t.id, depth⟩ ∧
      opened.calls = s.calls ++ made := by
  cases Party.effect_begun begun with
  | joined active found coordinator members calls =>
      exact ⟨_, [], congrArg Coordinator.active? coordinator, calls.trans (List.append_nil _).symm⟩
  | opened idle coordinator members calls =>
      exact ⟨_, _, congrArg Coordinator.active? coordinator, calls⟩

variable (env) in
theorem joins {active : ActiveTransaction} (found : (s.coordinator i).active? = some active) :
    ∃ joined, (begin env i : Attempt σ ε _).run.run s =
        (.ok ⟨i, active.id, active.depth + 1⟩, joined) ∧
      joined.calls = s.calls ∧ joined.coordinator i =
        { s.coordinator i with active? := some ⟨active.id, active.depth + 1⟩ } := by
  obtain ⟨report, ran⟩ := run_join_open env found
  have begun := run_begin env i s
  rw [ran] at begun
  exact ⟨_, begun, State.calls_reported .., State.coordinator_assigned ..⟩

end Storage

namespace Transaction

variable {t : Transaction} {o : Outcome α}

variable (env) in
theorem close_pending (success : o.isSuccess = true) {depth : Nat}
    (found : (s.coordinator t.storage).active? = some ⟨t.id, depth⟩) (others : 1 < depth) :
    (t.close env o : Engine σ ε _).run s =
      (o, s.assigned t.storage
        { s.coordinator t.storage with active? := some ⟨t.id, depth - 1⟩ }) :=
  run_close_ok success (by simp) (Storage.run_commitId_pending env found others)

variable (env) in
theorem close_adds (t : Transaction) (o : Outcome α) (s : State σ ε) :
    ∃ added, ((t.close env o).run s).1 = o.extendErrors added := by
  have nothing : o = o.extendErrors [] := by rw [Outcome.extendErrors, List.append_nil]
  unfold close
  split
  · rw [Engine.run_bind]
    split
    · exact ⟨[_], rfl⟩
    · exact ⟨[], nothing⟩
    · exact ⟨[_], rfl⟩
  · rw [Engine.run_bind]
    split
    · exact ⟨[], nothing⟩
    · exact ⟨[_], rfl⟩

/-- What a unit of work answers once its transaction has ended, and how that was: the value is that
of its action, and an error is added if the call that ends the transaction fails. -/
structure Closes (env : Setting σ) (t : Transaction) (o : Outcome α) (ending : Ending)
    (succeeded : Bool) (s : State σ ε) : Prop where
  idle : (((t.close env o).run s).2.coordinator t.storage).active? = none
  calls : ((t.close env o).run s).2.calls = s.calls ++ [ending.call t.storage succeeded]
  value : ((t.close env o).run s).1.value? = o.value?
  errors : ((t.close env o).run s).1.errors = [] ↔ o.errors = [] ∧ succeeded = true

/-- The last to leave with success commits. -/
theorem close_last (success : o.isSuccess = true) {depth : Nat}
    (found : (s.coordinator t.storage).active? = some ⟨t.id, depth⟩) (last : depth ≤ 1) :
    ∃ succeeded, Closes env t o .commit succeeded s := by
  obtain ⟨reply, after, succeeded, ran, coordinator, calls, told, committed⟩ :=
    Storage.run_commitId_told env found last
  have clean : o.errors = [] := (Outcome.isSuccess_iff o).1 success
  refine ⟨succeeded, ?_⟩
  cases succeeded with
  | true =>
      rw [committed rfl] at ran
      have closed := run_close_ok (t := t) success (by simp) ran
      constructor
      · rw [closed, coordinator]
      · rw [closed, calls]
        rfl
      · rw [closed]
      · rw [closed]
        simp
  | false =>
      cases reply with
      | ok status => cases told
      | error e =>
          have closed : (t.close env o : Engine σ ε _).run s = (o.pushError e, after) := by
            unfold close
            rw [if_pos success, Engine.run_bind, commit, ran]
            rfl
          constructor
          · rw [closed, coordinator]
          · rw [closed, calls]
            rfl
          · rw [closed]
            rfl
          · rw [closed]
            simp [Outcome.pushError]

/-- Whoever leaves with a failure rolls back. -/
theorem close_failed (failed : o.isSuccess = false)
    (held : (s.coordinator t.storage).holds t.id = true) :
    ∃ succeeded, Closes env t o .rollback succeeded s := by
  obtain ⟨reply, after, ran, coordinator, succeeded, calls⟩ := Storage.run_rollbackId_open env held
  have unclean : o.errors ≠ [] := by
    intro clean
    rw [(Outcome.isSuccess_iff o).2 clean] at failed
    cases failed
  have closed : ∃ more, (t.close env o : Engine σ ε _).run s =
      (⟨o.value?, o.errors ++ more⟩, after) := by
    unfold close
    rw [if_neg (by rw [failed]; exact Bool.false_ne_true), Engine.run_bind, rollback, ran]
    cases reply with
    | ok status => exact ⟨[], by rw [List.append_nil]; rfl⟩
    | error e => exact ⟨[e], rfl⟩
  obtain ⟨more, closed⟩ := closed
  refine ⟨succeeded, ?_, ?_, ?_, ?_⟩
  · rw [closed, coordinator]
  · rw [closed, calls]
    rfl
  · rw [closed]
  · rw [closed]
    simp [unclean]

end Transaction

/-! ### Runs of builders -/

/-- Runs of the builders that write, with the work that each does in its transaction. Updates and
deletions run once they are compiled, at once or made ready before. -/
inductive Mutating (env : Setting σ) (i : StorageId) : {α : Type} → Attempt σ ε α →
    Engine σ ε (Outcome α) → Prop
  | create (c : Create ε) (here : c.storage = i) :
      Mutating env i (c.insertWithLinks env) (c.run env)
  | update (u : Update ε) (here : u.storage = i) {plan : UpdatePlan}
      {selection? : Option Sql.Template} (compiled : u.compile env = .ok (plan, selection?)) :
      Mutating env i (u.apply env plan selection? []) (u.run env)
  | preparedUpdate (u : Update ε) (here : u.storage = i) {plan : UpdatePlan}
      {selection? : Option Sql.Template} (compiled : u.compile env = .ok (plan, selection?))
      {c : Compiled σ ε Nat} (ready : u.prepare env = .ok c) (bindings : Sql.Bindings) :
      Mutating env i (u.apply env plan selection? bindings) (c.execute bindings)
  | delete (x : Delete ε) (here : x.storage = i) {selection : DeleteSelection}
      (compiled : x.compile env = .ok selection) :
      Mutating env i (x.apply env selection []) (x.run env)
  | preparedDelete (x : Delete ε) (here : x.storage = i) {selection : DeleteSelection}
      (compiled : x.compile env = .ok selection) {c : Compiled σ ε Nat}
      (ready : x.prepare env = .ok c) (bindings : Sql.Bindings) :
      Mutating env i (x.apply env selection bindings) (c.execute bindings)

private theorem Update.prepare_of_compile {u : Update ε} {plan : UpdatePlan}
    {selection? : Option Sql.Template} (compiled : u.compile env = .ok (plan, selection?)) :
    u.prepare env = .ok (u.compiled env plan selection?) := by
  rw [Update.prepare, compiled]
  rfl

private theorem Delete.prepare_of_compile {x : Delete ε} {selection : DeleteSelection}
    (compiled : x.compile env = .ok selection) :
    x.prepare env = .ok (x.compiled env selection) := by
  rw [Delete.prepare, compiled]

namespace Mutating

variable {work : Attempt σ ε α} {c : Engine σ ε (Outcome α)}

/-- A run is one unit of work. -/
theorem unit (mutating : Mutating env i work c) :
    c = Storage.runInsideTransaction env i work.outcome := by
  cases mutating with
  | create c here => rw [← here, Create.run]
  | update u here compiled =>
      rw [← here, Update.run, Update.prepare_of_compile compiled]
      rfl
  | preparedUpdate u here compiled ready bindings =>
      rw [Update.prepare_of_compile compiled] at ready
      cases ready
      rw [← here]
      rfl
  | delete x here compiled =>
      rw [← here, Delete.run, Delete.prepare_of_compile compiled]
      rfl
  | preparedDelete x here compiled ready bindings =>
      rw [Delete.prepare_of_compile compiled] at ready
      cases ready
      rw [← here]
      rfl

theorem works (mutating : Mutating env i work c)
    {holds : (α : Type) → Attempt σ ε α → Prop} (L : Labour env i holds) : holds α work := by
  cases mutating with
  | create c here => exact L.insertWithLinks here
  | update u here compiled => exact L.update here _ _ _
  | preparedUpdate u here compiled ready bindings => exact L.update here _ _ bindings
  | delete x here compiled => exact L.delete here _ _
  | preparedDelete x here compiled ready bindings => exact L.delete here _ bindings

end Mutating

/-- Deeds of which only the last has failed. -/
def Deed.FailsLast (deeds : List Deed) : Prop :=
  ∃ before last, deeds = before ++ [last] ∧ (∀ d ∈ before, d.succeeded = true) ∧
    last.succeeded = false

theorem Does.succeeds {work : Attempt σ ε α} {deeds : List Deed} {a : α} {after : State σ ε}
    (did : Does env i work s deeds (.ok a) after) : ∀ d ∈ deeds, d.succeeded = true :=
  List.all_eq_true.1 did.isOk.symm

theorem Does.failsLast {work : Attempt σ ε α} {deeds : List Deed} {e : EngineError}
    {after : State σ ε} (did : Does env i work s deeds (.error e) after) :
    Deed.FailsLast deeds := by
  have failed : deeds.all Deed.succeeded = false := did.isOk.symm
  have first := did.before_last
  rcases List.eq_nil_or_concat deeds with rfl | ⟨before, last, rfl⟩
  · cases failed
  · rw [List.concat_eq_append] at failed first ⊢
    rw [List.dropLast_concat] at first
    refine ⟨before, last, rfl, List.all_eq_true.1 first, ?_⟩
    simpa [first] using failed

/-- A run on a storage that has no transaction, from state `s`: what it answers and the state after
it, in each of the ways that it can go. -/
inductive Alone (env : Setting σ) (i : StorageId) (work : Attempt σ ε α) (s : State σ ε) :
    Outcome α → State σ ε → Prop
  | refused {e : EngineError} {after : State σ ε}
      (begun : (Storage.begin env i : Attempt σ ε _).run.run s = (.error e, after))
      (calls : after.calls = s.calls ++ [.begin i false])
      (idle : (after.coordinator i).active? = none) :
      Alone env i work s (.ofError e) after
  | committed {t : Transaction} {opened ended after : State σ ε} {deeds : List Deed} {a : α}
      {o : Outcome α} {succeeded : Bool}
      (begun : (Storage.begin env i : Attempt σ ε _).run.run s = (.ok t, opened))
      (did : Does env i work opened deeds (.ok a) ended)
      (succeed : ∀ d ∈ deeds, d.succeeded = true)
      (calls : after.calls =
        s.calls ++ .begin i true :: Deed.calls i deeds ++ [.commit i succeeded])
      (idle : (after.coordinator i).active? = none) (value : o.value? = some a)
      (success : o.errors = [] ↔ succeeded = true) :
      Alone env i work s o after
  | rolledBack {t : Transaction} {opened ended after : State σ ε} {deeds : List Deed}
      {e : EngineError} {o : Outcome α} {succeeded : Bool}
      (begun : (Storage.begin env i : Attempt σ ε _).run.run s = (.ok t, opened))
      (did : Does env i work opened deeds (.error e) ended)
      (failed : Deed.FailsLast deeds)
      (calls : after.calls =
        s.calls ++ .begin i true :: Deed.calls i deeds ++ [.rollback i succeeded])
      (idle : (after.coordinator i).active? = none) (nothing : o.value? = none)
      (failure : o.errors ≠ []) :
      Alone env i work s o after

/-- A run on a storage that has a transaction, from state `s`. -/
inductive Within (env : Setting σ) (i : StorageId) (work : Attempt σ ε α) (s : State σ ε) :
    Outcome α → State σ ε → Prop
  | kept {t : Transaction} {joined ended after : State σ ε} {deeds : List Deed} {a : α}
      (begun : (Storage.begin env i : Attempt σ ε _).run.run s = (.ok t, joined))
      (did : Does env i work joined deeds (.ok a) ended)
      (succeed : ∀ d ∈ deeds, d.succeeded = true)
      (calls : after.calls = s.calls ++ Deed.calls i deeds)
      (coordinator : after.coordinator i = s.coordinator i) :
      Within env i work s (.ok a) after
  | rolledBack {t : Transaction} {joined ended after : State σ ε} {deeds : List Deed}
      {e : EngineError} {o : Outcome α} {succeeded : Bool}
      (begun : (Storage.begin env i : Attempt σ ε _).run.run s = (.ok t, joined))
      (did : Does env i work joined deeds (.error e) ended)
      (failed : Deed.FailsLast deeds)
      (calls : after.calls = s.calls ++ Deed.calls i deeds ++ [.rollback i succeeded])
      (idle : (after.coordinator i).active? = none) (nothing : o.value? = none)
      (failure : o.errors ≠ []) :
      Within env i work s o after

section

variable {work : Attempt σ ε α} {t : Transaction} {opened ended : State σ ε} {deeds : List Deed}
  {depth : Nat}

theorem Does.committed {a : α} (did : Does env i work opened deeds (.ok a) ended)
    (active : (opened.coordinator t.storage).active? = some ⟨t.id, depth⟩) (last : depth ≤ 1) :
    ∃ succeeded, Transaction.Closes env t (.ok a : Outcome α) .commit succeeded ended := by
  rw [← did.sends.coordinator] at active
  exact Transaction.close_last rfl active last

theorem Does.rolledBack {e : EngineError} (did : Does env i work opened deeds (.error e) ended)
    (active : (opened.coordinator t.storage).active? = some ⟨t.id, depth⟩) :
    ∃ succeeded, Transaction.Closes env t (.ofError e : Outcome α) .rollback succeeded ended := by
  refine Transaction.close_failed rfl ?_
  rw [did.sends.coordinator, Party.holds_some active]
  exact decide_eq_true rfl

end

variable {work : Attempt σ ε α}

/-- Without a transaction a unit is refused one, or has one to itself. -/
theorem unit_alone (does : ∀ s, ∃ deeds r after, Does env i work s deeds r after)
    (idle : (s.coordinator i).active? = none) :
    Alone env i work s ((Storage.runInsideTransaction env i work.outcome).run s).1
      ((Storage.runInsideTransaction env i work.outcome).run s).2 := by
  rw [Storage.run_unit]
  cases begun : (Storage.begin env i : Attempt σ ε _).run.run s with
  | mk result opened =>
    cases result with
    | error e =>
        cases Party.effect_refused begun with
        | refused _ _ coordinator members calls =>
            exact .refused begun calls ((congrArg Coordinator.active? coordinator).trans idle)
    | ok t =>
        obtain ⟨calls, active⟩ := Storage.opens begun idle
        obtain rfl := Storage.begin_storage begun
        obtain ⟨deeds, r, ended, did⟩ := does opened
        have made (last : Event) : ended.calls ++ [last] =
            s.calls ++ .begin t.storage true :: Deed.calls t.storage deeds ++ [last] := by
          rw [did.sends.calls, calls, List.append_assoc s.calls]
          rfl
        dsimp only
        rw [Attempt.outcome_run did.ran]
        cases r with
        | ok a =>
            obtain ⟨succeeded, closes⟩ := did.committed active (Nat.le_refl 1)
            exact .committed begun did did.succeeds (closes.calls.trans (made _)) closes.idle
              closes.value (closes.errors.trans (and_iff_right rfl))
        | error e =>
            obtain ⟨succeeded, closes⟩ := did.rolledBack active
            exact .rolledBack begun did did.failsLast (closes.calls.trans (made _)) closes.idle
              closes.value fun clean => List.cons_ne_nil _ _ (closes.errors.1 clean).1

/-- Inside of a transaction a unit takes part in it. -/
theorem unit_within (does : ∀ s, ∃ deeds r after, Does env i work s deeds r after)
    {active : ActiveTransaction} (found : (s.coordinator i).active? = some active)
    (taken : 0 < active.depth) :
    Within env i work s ((Storage.runInsideTransaction env i work.outcome).run s).1
      ((Storage.runInsideTransaction env i work.outcome).run s).2 := by
  obtain ⟨joined, begun, calls, coordinator⟩ := Storage.joins env found
  let t : Transaction := ⟨i, active.id, active.depth + 1⟩
  have joins : (joined.coordinator t.storage).active? = some ⟨t.id, active.depth + 1⟩ :=
    congrArg Coordinator.active? coordinator
  obtain ⟨deeds, r, ended, did⟩ := does joined
  rw [Storage.run_unit, begun]
  dsimp only
  rw [Attempt.outcome_run did.ran]
  cases r with
  | ok a =>
      rw [← did.sends.coordinator] at joins
      have closed := Transaction.close_pending env (o := .ok a) rfl joins
        (Nat.succ_lt_succ taken)
      have again : { ended.coordinator i with active? := some active } = s.coordinator i := by
        rw [did.sends.coordinator, coordinator, ← found]
      rw [Outcome.ofExcept, closed]
      refine .kept begun did did.succeeds ?_ ((State.coordinator_assigned ..).trans again)
      rw [State.calls_assigned, did.sends.calls, calls]
  | error e =>
      obtain ⟨succeeded, closes⟩ := did.rolledBack joins
      have made : ended.calls ++ [Event.rollback i succeeded] =
          s.calls ++ Deed.calls i deeds ++ [.rollback i succeeded] := by
        rw [did.sends.calls, calls]
      exact .rolledBack begun did did.failsLast (closes.calls.trans made) closes.idle
        closes.value fun clean => List.cons_ne_nil _ _ (closes.errors.1 clean).1

/-- Builders that create, update or delete keep all of their work or give it all up. On a storage
without a transaction a run opens one, and commits it just if every statement and every check has
succeeded; otherwise nothing is done after the first that fails but to roll back. Inside of a
transaction a run neither begins nor commits, and rolls back just if it fails. -/
theorem mutations_are_atomic {c : Engine σ ε (Outcome α)} (mutating : Mutating env i work c)
    (s : State σ ε) :
    ((s.coordinator i).isActive = false → Alone env i work s (c.run s).1 (c.run s).2) ∧
      ((s.coordinator i).isActive = true → Reached env i s →
        Within env i work s (c.run s).1 (c.run s).2) := by
  have does := mutating.works (Does.labour env i)
  rw [mutating.unit]
  cases found : (s.coordinator i).active? with
  | none =>
      refine ⟨fun _ => unit_alone does found, fun active _ => ?_⟩
      rw [Coordinator.isActive, found] at active
      cases active
  | some active =>
      refine ⟨fun idle => ?_, fun _ reached => ?_⟩
      · rw [Coordinator.isActive, found] at idle
        cases idle
      · exact unit_within does found (reached.occupied active found)

def twoNotes : Create Record where
  type := Record.entityType ⟨0⟩
    ⟨⟨"Note", "note", "id", [.generatedKey "id", .text "body" .maxVarChar]⟩, []⟩
  storage := 0
  items := [{ values := [("body", .text "first")] }, {}]

def underway : State Scripts Record :=
  ((Storage.begin Party.scripted 0 : Attempt Scripts Record _).run.run { outside := {} }).2

theorem notes_are_atomic :
    Mutating Party.scripted 0 (twoNotes.insertWithLinks Party.scripted)
        (twoNotes.run Party.scripted) ∧
      Alone Party.scripted 0 (twoNotes.insertWithLinks Party.scripted) { outside := {} }
        ((twoNotes.run Party.scripted).run { outside := {} }).1
        ((twoNotes.run Party.scripted).run { outside := {} }).2 ∧
      Within Party.scripted 0 (twoNotes.insertWithLinks Party.scripted) underway
        ((twoNotes.run Party.scripted).run underway).1
        ((twoNotes.run Party.scripted).run underway).2 :=
  have mutating : Mutating Party.scripted 0 _ (twoNotes.run Party.scripted) := .create twoNotes rfl
  ⟨mutating, (mutations_are_atomic mutating _).1 rfl,
    (mutations_are_atomic mutating _).2 rfl ⟨_, _, _, rfl, .begin, rfl⟩⟩

example : ((twoNotes.run Party.scripted).run { outside := {} }).2.calls =
    [.begin 0 true,
      .insert 0
        ⟨"INSERT INTO \"note\" (\"body\") VALUES (@p0)", [⟨"p0", "@p0", .text "first"⟩]⟩ true,
      .rollback 0 true] :=
  rfl

end EntityStore
