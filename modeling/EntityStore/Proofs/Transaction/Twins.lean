import EntityStore.Proofs.Transaction.Atomicity

/-!
Units of work have no past. On a storage without a transaction, what a unit answers and which calls
it makes depends on the database and on the models of the storage, and on nothing that the engine
has done before: not on its trail, and not on the numbers of earlier transactions.
-/

namespace EntityStore

variable {σ ε α β : Type} {env : Setting σ} {i : StorageId}

/-- States with the same database and the same models of storage `i`, whatever came before. -/
structure Twins (i : StorageId) (s s' : State σ ε) : Prop where
  outside : s.outside = s'.outside
  models : s.models i = s'.models i

/-- Two runs with one answer that make the same calls and end in twins. -/
structure Alike (i : StorageId) (s s' : State σ ε) (ran ran' : α × State σ ε) : Prop where
  answer : ran.1 = ran'.1
  twins : Twins i ran.2 ran'.2
  calls : ∃ made, ran.2.calls = s.calls ++ made ∧ ran'.2.calls = s'.calls ++ made

namespace Alike

variable {s s' mid mid' : State σ ε}

theorem trans {ran ran' : α × State σ ε} {later later' : β × State σ ε}
    (first : Alike i s s' ran ran') (second : Alike i ran.2 ran'.2 later later') :
    Alike i s s' later later' := by
  obtain ⟨made, calls, calls'⟩ := first.calls
  obtain ⟨more, callsLater, callsLater'⟩ := second.calls
  refine ⟨second.answer, second.twins, made ++ more, ?_, ?_⟩
  · rw [callsLater, calls, List.append_assoc]
  · rw [callsLater', calls', List.append_assoc]

theorem bind {c c' : Engine σ ε α} {next next' : α → Engine σ ε β}
    (first : Alike i s s' (c.run s) (c'.run s'))
    (second : ∀ a mid mid', Twins i mid mid' →
      Alike i mid mid' ((next a).run mid) ((next' a).run mid')) :
    Alike i s s' ((c >>= next).run s) ((c' >>= next').run s') := by
  rw [Engine.run_bind, Engine.run_bind, ← first.answer]
  exact first.trans (second _ _ _ first.twins)

theorem pure (twins : Twins i s s') (a : α) : Alike i s s' (a, s) (a, s') :=
  ⟨rfl, twins, [], (List.append_nil _).symm, (List.append_nil _).symm⟩

theorem reported (twins : Twins i s s') (t t' : Trace) (a : α) :
    Alike i s s' (a, s.reported t) (a, s'.reported t') where
  answer := rfl
  twins := ⟨twins.outside, twins.models⟩
  calls := ⟨[], (State.calls_reported s t).trans (List.append_nil _).symm,
    (State.calls_reported s' t').trans (List.append_nil _).symm⟩

private theorem of_assigned {c c' : Coordinator} {ran ran' : α × State σ ε}
    (alike : Alike i (s.assigned i c) (s'.assigned i c') ran ran') : Alike i s s' ran ran' :=
  ⟨alike.answer, alike.twins, alike.calls⟩

theorem call (twins : Twins i s s') {event : Bool → Event} (answer : Answer σ α)
    (isCall : ∀ succeeded, (event succeeded).isCall = true) :
    Alike i s s' ((Engine.call event answer : Engine σ ε _).run s)
      ((Engine.call event answer : Engine σ ε _).run s') := by
  rw [Engine.run_call, Engine.run_call]
  refine ⟨congrArg (fun w => (answer w).1) twins.outside,
    ⟨congrArg (fun w => (answer w).2) twins.outside, twins.models⟩, _,
    State.calls_called s event answer isCall, ?_⟩
  rw [State.calls_called s' event answer isCall, twins.outside]

end Alike

def Forgetful (i : StorageId) (c : Engine σ ε α) : Prop :=
  ∀ s s', Twins i s s' → Alike i s s' (c.run s) (c.run s')

namespace Forgetful

def manner (i : StorageId) (σ ε : Type) : Manner σ ε where
  Follows := Forgetful i
  closed :=
    { pure := fun a _ _ twins => .pure twins a
      bind := fun first second _ _ twins => (first _ _ twins).bind fun a _ _ => second a _ _ }

theorem labour (env : Setting σ) (i : StorageId) :
    Labour env i fun (α : Type) (x : Attempt σ ε α) => (manner i σ ε).Tries x :=
  Manner.labour (manner i σ ε) (fun t _ _ twins => .reported twins t t ())
    (fun _ _ _ twins => .call twins _ fun _ => rfl) (fun _ _ _ twins => .call twins _ fun _ => rfl)
    (fun _ _ _ twins => .call twins _ fun _ => rfl)
    fun _ _ twins => ⟨twins.models, twins, [], (List.append_nil _).symm, (List.append_nil _).symm⟩

end Forgetful

/-! ### Ending a transaction -/

namespace Alike

variable {s s' : State σ ε} (twins : Twins i s s')

include twins

private theorem ended (id id' : Nat) (word : String) (status : TransactionStatus)
    (failure : StorageError → TransactionError) (result : Except StorageError Unit) :
    Alike i s s' ((Storage.ended id word status failure result).run s)
      ((Storage.ended id' word status failure result).run s') := by
  cases result with
  | ok _ => exact .reported twins _ _ _
  | error reason => exact .reported twins _ _ _

theorem givenUp {event : Bool → Event} (isCall : ∀ succeeded, (event succeeded).isCall = true)
    (answer : Answer σ Unit) (c c' : Coordinator) (id id' : Nat) (word : String)
    (status : TransactionStatus) (failure : StorageError → TransactionError) :
    Alike i s s'
      ((Engine.call event answer >>= Storage.ended id word status failure).run (s.assigned i c))
      ((Engine.call event answer >>= Storage.ended id' word status failure).run
        (s'.assigned i c')) := by
  have assigned : Twins i (s.assigned i c) (s'.assigned i c') := ⟨twins.outside, twins.models⟩
  exact of_assigned <| (call assigned answer isCall).bind fun result _ _ twins =>
    ended twins id id' word status failure result

private theorem commitId {id id' : Nat} (found : (s.coordinator i).active? = some ⟨id, 1⟩)
    (found' : (s'.coordinator i).active? = some ⟨id', 1⟩) :
    Alike i s s' ((Storage.commitId env i id).run s) ((Storage.commitId env i id').run s') := by
  have run {s : State σ ε} {id : Nat} (found : (s.coordinator i).active? = some ⟨id, 1⟩) :
      (Storage.commitId env i id).run s =
        (Engine.call (.commit i) (env.provider i).commit >>=
          Storage.ended id "commit" .committed .commit).run
          (s.assigned i { s.coordinator i with active? := none }) := by
    rw [Storage.commitId, Engine.run_bind, Storage.run_coordinator]
    simp only [Coordinator.holds, Coordinator.depth, found, beq_self_eq_true, Bool.not_true,
      Bool.false_eq_true, if_false, Nat.lt_irrefl]
    rfl
  rw [run found, run found']
  exact givenUp twins (fun _ => rfl) _ _ _ id id' _ _ _

private theorem rollbackId {id id' : Nat} (held : (s.coordinator i).holds id = true)
    (held' : (s'.coordinator i).holds id' = true) :
    Alike i s s' ((Storage.rollbackId env i id).run s) ((Storage.rollbackId env i id').run s') := by
  have run {s : State σ ε} {id : Nat} (held : (s.coordinator i).holds id = true) :
      (Storage.rollbackId env i id).run s =
        (Engine.call (.rollback i) (env.provider i).rollback >>=
          Storage.ended id "rollback" .rolledBack .rollback).run
          (s.assigned i { s.coordinator i with active? := none }) := by
    rw [Storage.rollbackId, Engine.run_bind, Storage.run_coordinator, held]
    rfl
  rw [run held, run held']
  exact givenUp twins (fun _ => rfl) _ _ _ id id' _ _ _

private theorem close {t t' : Transaction} (here : t.storage = i) (here' : t'.storage = i)
    (o : Outcome α)
    (found : (s.coordinator i).active? = some ⟨t.id, 1⟩)
    (found' : (s'.coordinator i).active? = some ⟨t'.id, 1⟩) :
    Alike i s s' ((t.close env o).run s) ((t'.close env o).run s') := by
  have held : (s.coordinator i).holds t.id = true := by simp [Coordinator.holds, found]
  have held' : (s'.coordinator i).holds t'.id = true := by simp [Coordinator.holds, found']
  unfold Transaction.close Transaction.commit Transaction.rollback
  rw [here, here']
  split
  · refine (commitId twins found found').bind fun result _ _ twins => ?_
    split <;> exact pure twins _
  · refine (rollbackId twins held held').bind fun result _ _ twins => ?_
    split <;> exact pure twins _

end Alike

variable (env) in
/-- Twins without a transaction are both refused one, or each has one to itself. -/
theorem Storage.begin_alike {s s' : State σ ε} (twins : Twins i s s')
    (idle : (s.coordinator i).active? = none) (idle' : (s'.coordinator i).active? = none) :
    (∃ e after after', (begin env i : Attempt σ ε _).run.run s = (.error e, after) ∧
        (begin env i : Attempt σ ε _).run.run s' = (.error e, after') ∧
        Alike i s s' ((), after) ((), after')) ∨
      ∃ id id' opened opened', (begin env i : Attempt σ ε _).run.run s = (.ok ⟨i, id, 1⟩, opened) ∧
        (begin env i : Attempt σ ε _).run.run s' = (.ok ⟨i, id', 1⟩, opened') ∧
        (opened.coordinator i).active? = some ⟨id, 1⟩ ∧
        (opened'.coordinator i).active? = some ⟨id', 1⟩ ∧
        Alike i s s' ((), opened) ((), opened') := by
  obtain ⟨same, after, calls⟩ :=
    Alike.call twins (env.provider i).begin (fun _ => rfl : ∀ b, (Event.begin i b).isCall = true)
  rw [Engine.run_call, Engine.run_call] at same after calls
  rw [run_begin, run_begin]
  rcases run_join_idle env idle with ⟨t, answer, ran⟩ | ⟨reason, answer, ran⟩
  · rcases run_join_idle env idle' with ⟨t', -, ran'⟩ | ⟨_, answer', -⟩
    · rw [ran, ran']
      refine .inr ⟨_, _, _, _, rfl, rfl, ?_, ?_, rfl, ⟨after.outside, after.models⟩, ?_⟩
      · exact congrArg Coordinator.active? (State.coordinator_assigned ..)
      · exact congrArg Coordinator.active? (State.coordinator_assigned ..)
      · obtain ⟨made, calls, calls'⟩ := calls
        exact ⟨made, (State.calls_reported _ t).trans calls, (State.calls_reported _ t').trans calls'⟩
    · dsimp only at same
      rw [answer, answer'] at same
      cases same
  · rcases run_join_idle env idle' with ⟨_, answer', -⟩ | ⟨reason', answer', ran'⟩
    · dsimp only at same
      rw [answer, answer'] at same
      cases same
    · dsimp only at same
      rw [answer, answer'] at same
      cases same
      rw [ran, ran']
      exact .inl ⟨_, _, _, rfl, rfl, rfl, after, calls⟩

/-- On a storage that has no transaction, units of work run alike from all twins. -/
theorem unit_alike {work : Attempt σ ε α} (forgetful : (Forgetful.manner i σ ε).Tries work)
    (does : ∀ s, ∃ deeds r after, Does env i work s deeds r after) {s s' : State σ ε}
    (twins : Twins i s s') (idle : (s.coordinator i).active? = none)
    (idle' : (s'.coordinator i).active? = none) :
    Alike i s s' ((Storage.runInsideTransaction env i work.outcome).run s)
      ((Storage.runInsideTransaction env i work.outcome).run s') := by
  have kept (s : State σ ε) : (work.outcome.run s).2.coordinator = s.coordinator := by
    obtain ⟨deeds, r, after, did⟩ := does s
    rw [Attempt.outcome_run did.ran]
    exact did.sends.coordinator
  rw [Storage.run_unit, Storage.run_unit]
  rcases Storage.begin_alike env twins idle idle' with
    ⟨e, after, after', begun, begun', refused⟩ |
    ⟨id, id', opened, opened', begun, begun', active, active', begins⟩
  · rw [begun, begun']
    exact ⟨rfl, refused.twins, refused.calls⟩
  · rw [begun, begun']
    have worked := begins.trans (forgetful.outcome opened opened' begins.twins)
    dsimp only
    rw [← worked.answer]
    refine worked.trans (.close worked.twins rfl rfl _ ?_ ?_)
    · rwa [kept]
    · rwa [kept]

end EntityStore
