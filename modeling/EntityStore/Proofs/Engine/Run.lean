import EntityStore.Storage.Statement

/-!
What single computations of the engine do to its state. A run of a computation is a function of the
state it begins with; the lemmas below give that function for each building block, so that longer
computations are followed one block at a time. Runs that succeed are told apart step by step: what
their steps gave and what the database answered to their statements, and the other way round.
-/

namespace EntityStore

variable {σ ε α β : Type}

def Event.isCall : Event → Bool
  | .connect .. | .begin .. | .commit .. | .rollback .. => true
  | .execute .. | .query .. | .insert .. => true
  | .hook .. | .observer .. | .unitCall .. | .trace _ => false

def State.calls (s : State σ ε) : List Event :=
  s.trail.toList.filter Event.isCall

namespace State

def reported (s : State σ ε) (t : Trace) : State σ ε :=
  { s with trail := s.trail.push (.trace t) }

def recorded (s : State σ ε) (e : Event) : State σ ε :=
  { s with trail := s.trail.push e }

def called (s : State σ ε) (event : Bool → Event) (answer : Answer σ α) : State σ ε :=
  { s with
    outside := (answer s.outside).2
    trail := s.trail.push (event (answer s.outside).1.isOk) }

def assigned (s : State σ ε) (i : StorageId) (c : Coordinator) : State σ ε :=
  { s with coordinator := setAt s.coordinator i c }

@[simp]
theorem calls_assigned (s : State σ ε) (i : StorageId) (c : Coordinator) :
    (s.assigned i c).calls = s.calls :=
  rfl

@[simp]
theorem coordinator_assigned (s : State σ ε) (i : StorageId) (c : Coordinator) :
    (s.assigned i c).coordinator i = c :=
  setAt_self s.coordinator i c

@[simp]
theorem calls_reported (s : State σ ε) (t : Trace) : (s.reported t).calls = s.calls := by
  simp [reported, calls, Event.isCall]

theorem calls_called (s : State σ ε) (event : Bool → Event) (answer : Answer σ α)
    (isCall : ∀ succeeded, (event succeeded).isCall = true) :
    (s.called event answer).calls = s.calls ++ [event (answer s.outside).1.isOk] := by
  simp [called, calls, isCall]

@[simp]
theorem coordinator_reported (s : State σ ε) (t : Trace) :
    (s.reported t).coordinator = s.coordinator :=
  rfl

@[simp]
theorem coordinator_called (s : State σ ε) (event : Bool → Event) (answer : Answer σ α) :
    (s.called event answer).coordinator = s.coordinator :=
  rfl

end State

namespace Engine

theorem run_bind (first : Engine σ ε α) (next : α → Engine σ ε β) (s : State σ ε) :
    (first >>= next).run s = (next (first.run s).1).run (first.run s).2 :=
  rfl

theorem run_pure (a : α) (s : State σ ε) : (pure a : Engine σ ε α).run s = (a, s) :=
  rfl

theorem run_call (event : Bool → Event) (answer : Answer σ α) (s : State σ ε) :
    (Engine.call event answer : Engine σ ε _).run s =
      ((answer s.outside).1, s.called event answer) :=
  rfl

end Engine

namespace Attempt

theorem run_bind_ok {x : Attempt σ ε α} {next : α → Attempt σ ε β} {a : α} {s after : State σ ε}
    (ran : x.run.run s = (.ok a, after)) :
    (x >>= next).run.run s = (next a).run.run after := by
  show StateT.run (ExceptT.bindCont next (x.run.run s).1) (x.run.run s).2 = _
  rw [ran]
  rfl

theorem run_bind_error {x : Attempt σ ε α} {next : α → Attempt σ ε β} {e : EngineError}
    {s after : State σ ε} (ran : x.run.run s = (.error e, after)) :
    (x >>= next).run.run s = (.error e, after) := by
  show StateT.run (ExceptT.bindCont next (x.run.run s).1) (x.run.run s).2 = _
  rw [ran]
  rfl

theorem run_lift (c : Engine σ ε α) (s : State σ ε) :
    (lift c : Attempt σ ε α).run.run s = (.ok (c.run s).1, (c.run s).2) :=
  rfl

end Attempt

/-! ### Runs that succeed -/

namespace Attempt

theorem of_run_bind {x : Attempt σ ε α} {next : α → Attempt σ ε β} {b : β} {s after : State σ ε}
    (ran : (x >>= next).run.run s = (.ok b, after)) :
    ∃ a mid, x.run.run s = (.ok a, mid) ∧ (next a).run.run mid = (.ok b, after) := by
  cases first : x.run.run s with
  | mk outcome mid =>
      cases outcome with
      | ok a => exact ⟨a, mid, rfl, by rw [← ran, run_bind_ok first]⟩
      | error e =>
          rw [run_bind_error first] at ran
          cases ran

theorem of_ofExcept_run {r : Except EngineError α} {a : α} {s after : State σ ε}
    (ran : (ofExcept r : Attempt σ ε α).run.run s = (.ok a, after)) : r = .ok a ∧ after = s := by
  cases r with
  | ok found =>
      cases ran
      exact ⟨rfl, rfl⟩
  | error e => cases ran

theorem of_ofResult_run [Coe β EngineError] {r : Except β α} {a : α} {s after : State σ ε}
    (ran : (ofResult r : Attempt σ ε α).run.run s = (.ok a, after)) : r = .ok a ∧ after = s := by
  cases r with
  | ok found =>
      cases ran
      exact ⟨rfl, rfl⟩
  | error e => cases ran

theorem outcome_run {x : Attempt σ ε α} {r : Except EngineError α} {s after : State σ ε}
    (ran : x.run.run s = (r, after)) : x.outcome.run s = (.ofExcept r, after) := by
  show (Outcome.ofExcept (x.run.run s).1, (x.run.run s).2) = _
  rw [ran]

theorem of_outcome_value {x : Attempt σ ε α} {a : α} {s : State σ ε}
    (gives : (x.outcome.run s).1.value? = some a) : ∃ after, x.run.run s = (.ok a, after) := by
  cases ran : x.run.run s with
  | mk outcome after =>
      rw [outcome_run ran] at gives
      cases outcome with
      | ok b =>
          cases gives
          exact ⟨after, rfl⟩
      | error e => cases gives

end Attempt

namespace Storage

variable {env : Setting σ} {i : StorageId} {s : State σ ε}

theorem bound_run {t : Sql.Template} {bindings : Sql.Bindings} {q : Sql.Statement}
    (bound : t.bind bindings = .ok q) :
    (Storage.bound t bindings : Attempt σ ε _).run.run s = (.ok q, s) := by
  rw [Storage.bound, bound]
  rfl

theorem trace_run (q : Sql.Statement) (s : State σ ε) :
    ∃ before, (traceStatement env i q : Attempt σ ε Unit).run.run s = (.ok (), before) ∧
      before.outside = s.outside := by
  unfold traceStatement
  split
  · exact ⟨_, rfl, rfl⟩
  · exact ⟨s, rfl, rfl⟩

theorem answered_run (event : Bool → Event) {answer : Answer σ α} {a : α} {w : σ}
    (answers : answer s.outside = (.ok a, w)) :
    ∃ after, (answered (Engine.call event answer) : Attempt σ ε α).run.run s = (.ok a, after) ∧
      after.outside = w := by
  refine ⟨s.called event answer, ?_, by rw [State.called, answers]⟩
  rw [answered, Attempt.run_bind_ok (Attempt.run_lift _ s), Engine.run_call, answers]
  rfl

theorem of_answered_run {event : Bool → Event} {answer : Answer σ α} {a : α} {after : State σ ε}
    (ran : (answered (Engine.call event answer) : Attempt σ ε α).run.run s = (.ok a, after)) :
    answer s.outside = (.ok a, after.outside) := by
  rw [answered, Attempt.run_bind_ok (Attempt.run_lift _ s), Engine.run_call] at ran
  cases answers : answer s.outside with
  | mk outcome w =>
      rw [answers] at ran
      cases outcome with
      | ok found =>
          cases ran
          rw [State.called, answers]
      | error e => cases ran

theorem query_ends {q : Sql.Statement} {rows : List Row} {w : σ}
    (answers : (env.provider i).query q s.outside = (.ok rows, w)) :
    ∃ after, (Storage.query env i q : Attempt σ ε _).run.run s = (.ok rows, after) ∧
      after.outside = w := by
  obtain ⟨before, traced, here⟩ := trace_run q s
  rw [← here] at answers
  obtain ⟨after, ran, there⟩ := answered_run (ε := ε) (.query i q) answers
  exact ⟨after, (Attempt.run_bind_ok traced).trans ran, there⟩

theorem query_run {q : Sql.Statement} {rows : List Row} {w : σ}
    (answers : (env.provider i).query q s.outside = (.ok rows, w)) :
    ∃ after, (Storage.query env i q : Attempt σ ε _).run.run s = (.ok rows, after) :=
  let ⟨after, ran, _⟩ := query_ends answers
  ⟨after, ran⟩

theorem of_query_run {q : Sql.Statement} {rows : List Row} {after : State σ ε}
    (ran : (Storage.query env i q : Attempt σ ε _).run.run s = (.ok rows, after)) :
    (env.provider i).query q s.outside = (.ok rows, after.outside) := by
  obtain ⟨before, traced, here⟩ := trace_run q s
  rw [Storage.query, Attempt.run_bind_ok traced] at ran
  rw [← here]
  exact of_answered_run ran

theorem of_execute_run {q : Sql.Statement} {n : Nat} {after : State σ ε}
    (ran : (Storage.execute env i q : Attempt σ ε _).run.run s = (.ok n, after)) :
    (env.provider i).execute q s.outside = (.ok n, after.outside) := by
  obtain ⟨before, traced, here⟩ := trace_run q s
  rw [Storage.execute, Attempt.run_bind_ok traced] at ran
  rw [← here]
  exact of_answered_run ran

theorem of_bound_run {t : Sql.Template} {bindings : Sql.Bindings} {q : Sql.Statement}
    {after : State σ ε}
    (ran : (Storage.bound t bindings : Attempt σ ε _).run.run s = (.ok q, after)) :
    t.bind bindings = .ok q ∧ after = s :=
  Attempt.of_ofResult_run ran

theorem of_executeTemplate_run {t : Sql.Template} {n : Nat} {after : State σ ε}
    (ran : (Storage.executeTemplate env i t : Attempt σ ε _).run.run s = (.ok n, after)) :
    ∃ q, t.bind [] = .ok q ∧ (env.provider i).execute q s.outside = (.ok n, after.outside) := by
  obtain ⟨q, mid, binds, executed⟩ := Attempt.of_run_bind ran
  obtain ⟨bound, rfl⟩ := of_bound_run binds
  exact ⟨q, bound, of_execute_run executed⟩

/-- What was counted is in the first row of the answer, if there is one. -/
theorem of_count_run {q : Sql.Statement} {n : Nat} {after : State σ ε}
    (ran : (Storage.count env i q : Attempt σ ε _).run.run s = (.ok n, after)) :
    ∃ rows, (env.provider i).query q s.outside = (.ok rows, after.outside) ∧
      ∀ row rest, rows = row :: rest →
        ∃ m, row.get Int64 Sql.countColumn = .ok m ∧ n = m.toInt.toNat := by
  obtain ⟨rows, mid, queried, counted⟩ := Attempt.of_run_bind ran
  cases rows with
  | nil =>
      cases counted
      exact ⟨[], of_query_run queried, by rintro _ _ ⟨⟩⟩
  | cons row rest =>
      obtain ⟨m, mid', reads, given⟩ := Attempt.of_run_bind counted
      obtain ⟨got, rfl⟩ := Attempt.of_ofExcept_run reads
      cases given
      refine ⟨row :: rest, of_query_run queried, ?_⟩
      rintro _ _ ⟨⟩
      exact ⟨m, got, rfl⟩

theorem bound_fails {t : Sql.Template} {bindings : Sql.Bindings} {e : QueryError}
    (failed : t.bind bindings = .error e) :
    (Storage.bound t bindings : Attempt σ ε _).run.run s = (.error e, s) := by
  rw [Storage.bound, failed]
  rfl

end Storage

end EntityStore
