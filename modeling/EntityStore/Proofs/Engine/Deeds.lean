import EntityStore.Proofs.Engine.Labour

/-!
Work as a list of deeds. What a builder does in one run of its work is told deed by deed: every
statement that it sends and every check that it makes, of a value, a template or an answer. Work
stops at its first deed that fails, and fails with it.
-/

namespace EntityStore

variable {σ ε α β : Type}

/-- One thing that is done on a storage: a statement that is sent, or a check of what is at hand. -/
inductive Deed
  | execute (q : Sql.Statement) (succeeded : Bool)
  | query (q : Sql.Statement) (succeeded : Bool)
  | insert (q : Sql.Statement) (succeeded : Bool)
  | check (succeeded : Bool)

namespace Deed

def succeeded : Deed → Bool
  | .execute _ ok | .query _ ok | .insert _ ok | .check ok => ok

def call? (i : StorageId) : Deed → Option Event
  | .execute q ok => some (.execute i q ok)
  | .query q ok => some (.query i q ok)
  | .insert q ok => some (.insert i q ok)
  | .check _ => none

def calls (i : StorageId) (deeds : List Deed) : List Event :=
  deeds.filterMap (call? i)

private theorem calls_append (i : StorageId) (deeds more : List Deed) :
    calls i (deeds ++ more) = calls i deeds ++ calls i more :=
  List.filterMap_append

end Deed

/-- From state `s` the work does the deeds, comes to the result and leaves the state `after`. -/
inductive Does (env : Setting σ) (i : StorageId) : {α : Type} → Attempt σ ε α → (s : State σ ε) →
    List Deed → Except EngineError α → (after : State σ ε) → Prop
  | pure {α : Type} (a : α) (s : State σ ε) : Does env i (pure a) s [] (.ok a) s
  | models (s : State σ ε) :
      Does env i (Attempt.lift (Storage.models i)) s [] (.ok (s.models i)) s
  | check {α : Type} (r : Except EngineError α) (s : State σ ε) :
      Does env i (Attempt.ofExcept r) s [.check r.isOk] r s
  | execute (q : Sql.Statement) {s after : State σ ε} {r : Except EngineError Nat}
      (ran : (Storage.execute env i q : Attempt σ ε Nat).run.run s = (r, after)) :
      Does env i (Storage.execute env i q) s [.execute q r.isOk] r after
  | query (q : Sql.Statement) {s after : State σ ε} {r : Except EngineError (List Row)}
      (ran : (Storage.query env i q : Attempt σ ε (List Row)).run.run s = (r, after)) :
      Does env i (Storage.query env i q) s [.query q r.isOk] r after
  | insert (q : Sql.Statement) {s after : State σ ε} {r : Except EngineError Int64}
      (ran : (Storage.insert env i q : Attempt σ ε Int64).run.run s = (r, after)) :
      Does env i (Storage.insert env i q) s [.insert q r.isOk] r after
  | bind {α β : Type} {x : Attempt σ ε α} {next : α → Attempt σ ε β} {s middle after : State σ ε}
      {deeds more : List Deed} {a : α} {r : Except EngineError β}
      (first : Does env i x s deeds (.ok a) middle)
      (second : Does env i (next a) middle more r after) :
      Does env i (x >>= next) s (deeds ++ more) r after
  | stop {α β : Type} {x : Attempt σ ε α} {s after : State σ ε} {deeds : List Deed}
      {e : EngineError} (first : Does env i x s deeds (.error e) after)
      (next : α → Attempt σ ε β) : Does env i (x >>= next) s deeds (.error e) after

structure Sends (made : List Event) (s after : State σ ε) : Prop where
  calls : after.calls = s.calls ++ made
  coordinator : after.coordinator = s.coordinator

namespace Sends

variable {env : Setting σ} {i : StorageId} {s middle after : State σ ε}

theorem nothing (s : State σ ε) : Sends [] s s :=
  ⟨(List.append_nil _).symm, rfl⟩

theorem trans {made more : List Event} (first : Sends made s middle)
    (second : Sends more middle after) : Sends (made ++ more) s after :=
  ⟨by rw [second.calls, first.calls, List.append_assoc],
    second.coordinator.trans first.coordinator⟩

variable (env i) in
private theorem traced (q : Sql.Statement) (s : State σ ε) :
    ∃ before, (Storage.traceStatement env i q : Attempt σ ε Unit).run.run s = (.ok (), before) ∧
      Sends [] s before := by
  unfold Storage.traceStatement
  split
  · refine ⟨s.reported _, rfl, ?_, rfl⟩
    rw [State.calls_reported, List.append_nil]
  · exact ⟨s, rfl, nothing s⟩

/-- A statement makes one call to the database, and fails if the database does. -/
theorem answered {q : Sql.Statement} {event : Bool → Event} {answer : Answer σ α}
    (isCall : ∀ succeeded, (event succeeded).isCall = true) {r : Except EngineError α}
    (ran : (do Storage.traceStatement env i q; Storage.answered (Engine.call event answer) :
      Attempt σ ε α).run.run s = (r, after)) : Sends [event r.isOk] s after := by
  obtain ⟨before, traces, quiet⟩ := traced env i q s
  rw [Attempt.run_bind_ok traces, Storage.answered, Attempt.run_bind_ok (Attempt.run_lift _ before),
    Engine.run_call] at ran
  obtain ⟨rfl, same⟩ :
      after = before.called event answer ∧ r.isOk = (answer before.outside).1.isOk := by
    cases reply : (answer before.outside).1 with
    | ok a =>
        rw [reply] at ran
        cases ran
        exact ⟨rfl, rfl⟩
    | error e =>
        rw [reply] at ran
        cases ran
        exact ⟨rfl, rfl⟩
  refine quiet.trans ⟨?_, rfl⟩
  rw [State.calls_called before event answer isCall, same]

end Sends

namespace Does

variable {env : Setting σ} {i : StorageId} {x : Attempt σ ε α} {s after : State σ ε}
  {deeds : List Deed} {r : Except EngineError α}

theorem ran (did : Does env i x s deeds r after) : x.run.run s = (r, after) := by
  induction did with
  | pure a s => rfl
  | models s => rfl
  | check r s => rfl
  | execute q ran => exact ran
  | query q ran => exact ran
  | insert q ran => exact ran
  | bind first second first_ih second_ih => rw [Attempt.run_bind_ok first_ih, second_ih]
  | stop first next ih => exact Attempt.run_bind_error ih

theorem sends (did : Does env i x s deeds r after) : Sends (Deed.calls i deeds) s after := by
  induction did with
  | pure a s => exact .nothing s
  | models s => exact .nothing s
  | check r s => exact .nothing s
  | execute q ran => exact .answered (fun _ => rfl) ran
  | query q ran => exact .answered (fun _ => rfl) ran
  | insert q ran => exact .answered (fun _ => rfl) ran
  | bind first second first_ih second_ih =>
      rw [Deed.calls_append]
      exact first_ih.trans second_ih
  | stop first next ih => exact ih

theorem isOk (did : Does env i x s deeds r after) : r.isOk = deeds.all Deed.succeeded := by
  induction did with
  | pure a s => rfl
  | models s => rfl
  | check r s => exact (Bool.and_true _).symm
  | execute q ran => exact (Bool.and_true _).symm
  | query q ran => exact (Bool.and_true _).symm
  | insert q ran => exact (Bool.and_true _).symm
  | bind first second first_ih second_ih =>
      rw [List.all_append, ← first_ih, ← second_ih]
      rfl
  | stop first next ih => exact ih

/-- Nothing is done after a deed that has failed. -/
theorem before_last (did : Does env i x s deeds r after) :
    deeds.dropLast.all Deed.succeeded = true := by
  induction did with
  | pure a s => rfl
  | models s => rfl
  | check r s => rfl
  | execute q ran => rfl
  | query q ran => rfl
  | insert q ran => rfl
  | @bind _ _ _ _ _ _ _ deeds more _ _ first second first_ih second_ih =>
      cases more with
      | nil => rwa [List.append_nil]
      | cons d rest =>
          rw [List.dropLast_append_of_ne_nil (List.cons_ne_nil d rest), List.all_append, second_ih,
            ← first.isOk]
          rfl
  | stop first next ih => exact ih

/-- What builders do inside of their transactions is told by deeds. -/
theorem labour (env : Setting σ) (i : StorageId) :
    Labour env i fun (α : Type) (x : Attempt σ ε α) =>
      ∀ s, ∃ deeds r after, Does env i x s deeds r after where
  closed :=
    { pure := fun a s => ⟨[], .ok a, s, .pure a s⟩
      bind := by
        intro α β x next first second s
        obtain ⟨deeds, r, middle, did⟩ := first s
        cases r with
        | error e => exact ⟨deeds, .error e, middle, .stop did next⟩
        | ok a =>
            obtain ⟨more, r, after, next⟩ := second a middle
            exact ⟨deeds ++ more, r, after, .bind did next⟩ }
  check r s := ⟨_, r, s, .check r s⟩
  execute q _ := ⟨_, _, _, .execute q rfl⟩
  query q _ := ⟨_, _, _, .query q rfl⟩
  insert q _ := ⟨_, _, _, .insert q rfl⟩
  models s := ⟨_, _, _, .models s⟩

end Does

end EntityStore
