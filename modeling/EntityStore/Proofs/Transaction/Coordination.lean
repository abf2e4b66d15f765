import EntityStore.Engine.Script
import EntityStore.Entity.Record
import EntityStore.Model.Catalog
import EntityStore.Proofs.Engine.Run
import EntityStore.Storage.Transaction

/-!
What beginning, committing, rolling back and dropping do to the engine's state. Each is followed to
its end in every case: what it answers, what becomes of the coordinator and which call it makes.
-/

namespace EntityStore

namespace Storage

variable {σ ε : Type} (env : Setting σ) (i : StorageId)

theorem run_coordinator (s : State σ ε) :
    (coordinator i : Engine σ ε Coordinator).run s = (s.coordinator i, s) :=
  rfl

theorem run_begin (s : State σ ε) :
    (begin env i : Attempt σ ε Transaction).run.run s =
      match (join env i : Engine σ ε _).run s with
      | (.ok t, s) => (.ok t, s)
      | (.error e, s) => (.error e, s) := by
  change StateT.run (Attempt.ofResult (StateT.run (join env i) s).1 : Attempt σ ε Transaction).run
      (StateT.run (join env i) s).2 = _
  generalize (StateT.run (join env i : Engine σ ε _) s) = r
  rcases r with ⟨r, s⟩
  cases r <;> rfl

variable {i} {s : State σ ε}

theorem run_join_open {active : ActiveTransaction}
    (found : (s.coordinator i).active? = some active) :
    ∃ t, (join env i : Engine σ ε _).run s =
      (.ok ⟨i, active.id, active.depth + 1⟩,
        (s.assigned i { s.coordinator i with
          active? := some ⟨active.id, active.depth + 1⟩ }).reported t) := by
  apply Exists.intro
  rw [join, Engine.run_bind, run_coordinator, found]
  rfl

theorem run_join_idle (idle : (s.coordinator i).active? = none) :
    (∃ t, ((env.provider i).begin s.outside).1 = .ok () ∧ (join env i : Engine σ ε _).run s =
      (.ok ⟨i, (s.coordinator i).lastId + 1, 1⟩,
        ((s.called (.begin i) (env.provider i).begin).assigned i
          ⟨some ⟨(s.coordinator i).lastId + 1, 1⟩, (s.coordinator i).lastId + 1⟩).reported t)) ∨
    ∃ reason, ((env.provider i).begin s.outside).1 = .error reason ∧
      (join env i : Engine σ ε _).run s =
      (.error (.begin reason), s.called (.begin i) (env.provider i).begin) := by
  rw [join, Engine.run_bind, run_coordinator, idle]
  simp only [Engine.run_bind, Engine.run_call]
  cases answer : ((env.provider i).begin s.outside).1 with
  | ok _ => exact .inl ⟨_, rfl, rfl⟩
  | error reason => exact .inr ⟨reason, rfl, rfl⟩

structure EndsBy (i : StorageId) (event : Bool → Event) (s after : State σ ε) : Prop where
  coordinator : after.coordinator i = { s.coordinator i with active? := none }
  calls : ∃ succeeded, after.calls = s.calls ++ [event succeeded]

theorem EndsBy.reported {event : Bool → Event} {after : State σ ε}
    (ends : EndsBy i event s after) (t : Trace) : EndsBy i event s (after.reported t) := by
  obtain ⟨coordinator, succeeded, calls⟩ := ends
  exact ⟨coordinator, succeeded, (State.calls_reported after t).trans calls⟩

theorem EndsBy.of_reported {event : Bool → Event} {after : State σ ε} {t : Trace}
    (ends : EndsBy i event (s.reported t) after) : EndsBy i event s after := by
  obtain ⟨coordinator, succeeded, calls⟩ := ends
  rw [State.calls_reported] at calls
  exact ⟨coordinator, succeeded, calls⟩

theorem run_ended (id : Nat) (word : String) (status : TransactionStatus)
    (failure : StorageError → TransactionError) (result : Except StorageError Unit)
    (s : State σ ε) :
    ∃ reply t, (ended id word status failure result : Engine σ ε _).run s =
      (reply, s.reported t) ∧ reply.isOk = result.isOk ∧
        (result.isOk = true → reply = .ok status) := by
  cases result with
  | ok _ => exact ⟨_, _, rfl, rfl, fun _ => rfl⟩
  | error reason => exact ⟨_, _, rfl, rfl, by rintro ⟨⟩⟩

def given (i : StorageId) (event : Bool → Event) (answer : Answer σ Unit) (s : State σ ε) :
    State σ ε :=
  (s.assigned i { s.coordinator i with active? := none }).called event answer

theorem coordinator_given (event : Bool → Event) (answer : Answer σ Unit) (s : State σ ε) :
    (given i event answer s).coordinator i = { s.coordinator i with active? := none } := by
  rw [given, State.coordinator_called, State.coordinator_assigned]

theorem calls_given {event : Bool → Event} (isCall : ∀ succeeded, (event succeeded).isCall = true)
    (answer : Answer σ Unit) (s : State σ ε) :
    (given i event answer s).calls = s.calls ++ [event (answer s.outside).1.isOk] := by
  rw [given, State.calls_called _ _ _ isCall, State.calls_assigned]
  rfl

private theorem endsBy_given {event : Bool → Event}
    (isCall : ∀ succeeded, (event succeeded).isCall = true)
    (answer : Answer σ Unit) (s : State σ ε) (t : Trace) :
    EndsBy i event s ((given i event answer s).reported t) :=
  EndsBy.reported ⟨coordinator_given event answer s, _, calls_given isCall answer s⟩ t

theorem run_commitId_stale {id : Nat} (stale : (s.coordinator i).holds id = false) :
    (commitId env i id : Engine σ ε _).run s = (.ok .alreadyEnded, s) := by
  rw [commitId, Engine.run_bind, run_coordinator, stale]
  rfl

theorem run_commitId_pending {id depth : Nat}
    (found : (s.coordinator i).active? = some ⟨id, depth⟩) (others : 1 < depth) :
    (commitId env i id : Engine σ ε _).run s =
      (.ok (.pending (depth - 1)),
        s.assigned i { s.coordinator i with active? := some ⟨id, depth - 1⟩ }) := by
  rw [commitId, Engine.run_bind, run_coordinator]
  simp only [Coordinator.holds, Coordinator.depth, found, beq_self_eq_true, Bool.not_true,
    Bool.false_eq_true, if_false, if_pos others]
  rfl

/-- The last to commit gives the transaction up and has the database commit it, of which it is told
what came of that. -/
theorem run_commitId_given {id depth : Nat}
    (found : (s.coordinator i).active? = some ⟨id, depth⟩) (last : depth ≤ 1) :
    ∃ reply t, (commitId env i id : Engine σ ε _).run s =
        (reply, (given i (.commit i) (env.provider i).commit s).reported t) ∧
      reply.isOk = ((env.provider i).commit s.outside).1.isOk ∧
      (((env.provider i).commit s.outside).1.isOk = true → reply = .ok .committed) := by
  rw [commitId, Engine.run_bind, run_coordinator]
  simp only [Coordinator.holds, Coordinator.depth, found, beq_self_eq_true, Bool.not_true,
    Bool.false_eq_true, if_false, if_neg (Nat.not_lt.2 last)]
  exact run_ended id _ _ _ _ _

/-- The last to commit ends the transaction, and is told of success just if the database's commit
has succeeded. -/
theorem run_commitId_told {id depth : Nat}
    (found : (s.coordinator i).active? = some ⟨id, depth⟩) (last : depth ≤ 1) :
    ∃ reply after succeeded, (commitId env i id : Engine σ ε _).run s = (reply, after) ∧
      after.coordinator i = { s.coordinator i with active? := none } ∧
      after.calls = s.calls ++ [.commit i succeeded] ∧
      reply.isOk = succeeded ∧ (succeeded = true → reply = .ok .committed) := by
  obtain ⟨reply, t, ran, ok, told⟩ := run_commitId_given env found last
  exact ⟨reply, _, _, ran, coordinator_given (.commit i) (env.provider i).commit s,
    (State.calls_reported _ t).trans (calls_given (fun _ => rfl) _ s), ok, told⟩

theorem run_commitId_last {id depth : Nat}
    (found : (s.coordinator i).active? = some ⟨id, depth⟩) (last : depth ≤ 1) :
    ∃ reply after, (commitId env i id : Engine σ ε _).run s = (reply, after) ∧
      EndsBy i (.commit i) s after := by
  obtain ⟨reply, after, succeeded, ran, coordinator, calls, -⟩ :=
    run_commitId_told env found last
  exact ⟨reply, after, ran, coordinator, succeeded, calls⟩

theorem run_rollbackId_stale {id : Nat} (stale : (s.coordinator i).holds id = false) :
    (rollbackId env i id : Engine σ ε _).run s = (.ok .alreadyEnded, s) := by
  rw [rollbackId, Engine.run_bind, run_coordinator, stale]
  rfl

theorem run_rollbackId_given {id : Nat} (held : (s.coordinator i).holds id = true) :
    ∃ reply t, (rollbackId env i id : Engine σ ε _).run s =
      (reply, (given i (.rollback i) (env.provider i).rollback s).reported t) := by
  rw [rollbackId, Engine.run_bind, run_coordinator, held]
  obtain ⟨reply, t, ran, -⟩ := run_ended id "rollback" .rolledBack .rollback _
    (given i (.rollback i) (env.provider i).rollback s)
  exact ⟨reply, t, ran⟩

theorem run_rollbackId_open {id : Nat} (held : (s.coordinator i).holds id = true) :
    ∃ reply after, (rollbackId env i id : Engine σ ε _).run s = (reply, after) ∧
      EndsBy i (.rollback i) s after := by
  obtain ⟨reply, t, ran⟩ := run_rollbackId_given env held
  exact ⟨reply, _, ran, endsBy_given (fun _ => rfl) _ s t⟩

end Storage

namespace Transaction

variable {σ ε : Type} (env : Setting σ) (s : State σ ε) (t : Transaction)

/-- A participant that is dropped reports it and rolls back; a failure is reported too. -/
theorem run_drop : ∃ (dropped : Trace) (failed : TransactionError → Trace),
    (∀ status after, (t.rollback env : Engine σ ε _).run (s.reported dropped) = (.ok status, after) →
      (t.drop env : Engine σ ε _).run s = ((), after)) ∧
    ∀ e after, (t.rollback env : Engine σ ε _).run (s.reported dropped) = (.error e, after) →
      (t.drop env : Engine σ ε _).run s = ((), after.reported (failed e)) := by
  apply Exists.intro
  apply Exists.intro
  constructor
  · intro status after rolled
    rw [drop, Engine.run_bind, Engine.run_bind]
    change StateT.run (t.rollback env) (s.reported _) = _ at rolled
    rw [show (Storage.traceTransaction _ _ _ : Engine σ ε Unit).run s = ((), s.reported _) from rfl]
    rw [rolled]
    rfl
  · intro e after rolled
    rw [drop, Engine.run_bind, Engine.run_bind]
    rw [show (Storage.traceTransaction _ _ _ : Engine σ ε Unit).run s = ((), s.reported _) from rfl]
    rw [rolled]
    rfl

end Transaction

end EntityStore
