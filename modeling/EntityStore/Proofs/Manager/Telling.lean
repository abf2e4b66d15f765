import EntityStore.Manager.Rules
import EntityStore.Proofs.Transaction.Atomicity

/-!
What hooks and observers are told after a mutation. A manager asks its hooks which items to admit,
has a builder do the work, and tells of the items that the builder gives back. Nobody is told before
the builder has ended, and nobody at all if it has failed, unless all that failed was the commit: a
builder whose commit fails still gives its items back.
-/

namespace EntityStore

variable {σ ε α β : Type} {env : Setting σ} {i : StorageId} {s : State σ ε}

def Event.tells : Event → Bool
  | .hook point _ => point.stage = .after
  | .observer .. => true
  | _ => false

def State.told (s : State σ ε) : List Event :=
  s.trail.toList.filter Event.tells

/-! ### Routes of builders -/

def Event.isCallback : Event → Bool
  | .hook .. | .observer .. => true
  | _ => false

/-- A route along which everything goes that builders do: they report, call databases and keep account
of transactions, and leave hooks and observers alone. -/
structure Route.Builders (R : Route σ ε) : Prop where
  pushed {e : Event} (silent : e.isCallback = false) (s : State σ ε) (outside : σ) :
    R.leads s { s with outside, trail := s.trail.push e }
  assigned (s : State σ ε) (i : StorageId) (c : Coordinator) : R.leads s (s.assigned i c)

namespace Route.Builders

variable {R : Route σ ε} (B : R.Builders)

include B

theorem labour (env : Setting σ) (i : StorageId) :
    Labour env i fun (α : Type) (x : Attempt σ ε α) => R.Tries x :=
  R.manner.labour (fun _ s => B.pushed rfl s s.outside) (fun _ s => B.pushed rfl s _)
    (fun _ s => B.pushed rfl s _) (fun _ s => B.pushed rfl s _) R.refl

private theorem coordinates (env : Setting σ) (i : StorageId) : R.manner.Coordinates env i where
  coordinator := R.refl
  setCoordinator c s := B.assigned s i c
  trace _ _ _ s := B.pushed rfl s s.outside
  begin s := B.pushed rfl s _
  commit s := B.pushed rfl s _
  rollback s := B.pushed rfl s _

theorem follows_mutating {work : Attempt σ ε α} {c : Engine σ ε (Outcome α)}
    (mutating : Mutating env i work c) : R.Follows c := by
  have works : R.Tries work := mutating.works (B.labour env i)
  rw [mutating.unit]
  exact Manner.Coordinates.follows_unit (B.coordinates env) i works.outcome

theorem follows_update (u : Update ε) : R.Follows (u.run env) := by
  cases compiled : u.compile env with
  | ok found => exact B.follows_mutating (Mutating.update u rfl compiled)
  | error e =>
      rw [Update.run_of_compile_error compiled]
      exact R.follows_pure _

theorem follows_delete (x : Delete ε) : R.Follows (x.run env) := by
  cases compiled : x.compile env with
  | ok selection => exact B.follows_mutating (Mutating.delete x rfl compiled)
  | error e =>
      rw [Delete.run_of_compile_error compiled]
      exact R.follows_pure _

theorem follows_query (q : Query ε) : R.Follows (q.run env) := by
  unfold Query.run
  split
  · rename_i c ready
    obtain ⟨t, -, rfl⟩ := Query.of_prepare ready
    exact ((B.labour env q.storage).load q.type t []).outcome
  · exact R.follows_pure _

end Route.Builders

/-! ### Quiet parts -/

namespace Quiet

def route (σ ε : Type) : Route σ ε where
  leads s after := after.told = s.told
  refl _ := rfl
  trans first second := second.trans first

theorem pushed {e : Event} (silent : e.tells = false) (s : State σ ε) (outside : σ) :
    (route σ ε).leads s { s with outside, trail := s.trail.push e } := by
  simp [route, State.told, silent]

private theorem builders (σ ε : Type) : (route σ ε).Builders where
  pushed {e} silent := by
    refine pushed ?_
    cases e <;> first | rfl | cases silent
  assigned _ _ _ := rfl

end Quiet

structure Asks (s after : State σ ε) : Prop where
  told : after.told = s.told
  calls : after.calls = s.calls

namespace Asks

def route (σ ε : Type) : Route σ ε where
  leads := Asks
  refl _ := ⟨rfl, rfl⟩
  trans first second := ⟨second.told.trans first.told, second.calls.trans first.calls⟩

private theorem admits (m : Manager ε) : (route σ ε).manner.Admits m where
  hooks? := (route σ ε).refl
  asked point ahead id s := by
    change Asks s (s.recorded (.hook point id))
    refine ⟨Quiet.pushed ?_ s s.outside, ?_⟩
    · simpa [Event.tells] using ahead
    · simp [State.recorded, State.calls, Event.isCall]

end Asks

/-! ### Builders -/

/-- What a builder answers from state `s` on: it has no value, or no errors, or the last that it did
was a commit that failed. -/
def Honest (i : StorageId) (s : State σ ε) (ran : Outcome α × State σ ε) : Prop :=
  ran.1.value? = none ∨ ran.1.errors = [] ∨
    ∃ made, ran.2.calls = s.calls ++ made ++ [.commit i false]

private theorem honest_unit {work : Attempt σ ε α}
    (does : ∀ s, ∃ deeds r after, Does env i work s deeds r after) (s : State σ ε) :
    Honest i s ((Storage.runInsideTransaction env i work.outcome).run s) := by
  rw [Storage.run_unit]
  cases begun : (Storage.begin env i : Attempt σ ε _).run.run s with
  | mk result opened =>
    cases result with
    | error e => exact .inl rfl
    | ok t =>
        obtain ⟨depth, made, active, calls⟩ := Storage.begins begun
        obtain rfl := Storage.begin_storage begun
        obtain ⟨deeds, r, ended, did⟩ := does opened
        dsimp only
        rw [Attempt.outcome_run did.ran]
        cases r with
        | error e =>
            obtain ⟨succeeded, closes⟩ := did.rolledBack active
            exact .inl closes.value
        | ok a =>
            by_cases last : depth ≤ 1
            · obtain ⟨succeeded, closes⟩ := did.committed active last
              cases succeeded with
              | true => exact .inr (.inl (closes.errors.2 ⟨rfl, rfl⟩))
              | false =>
                  refine .inr (.inr ⟨made ++ Deed.calls t.storage deeds, closes.calls.trans ?_⟩)
                  rw [did.sends.calls, calls, List.append_assoc s.calls]
                  rfl
            · rw [← did.sends.coordinator] at active
              rw [Outcome.ofExcept,
                Transaction.close_pending env rfl active (Nat.lt_of_not_le last)]
              exact .inr (.inl rfl)

structure Builds (i : StorageId) (c : Engine σ ε (Outcome α)) : Prop where
  quiet : (Quiet.route σ ε).Follows c
  honest (s : State σ ε) : Honest i s (c.run s)

theorem Mutating.builds {work : Attempt σ ε α} {c : Engine σ ε (Outcome α)}
    (mutating : Mutating env i work c) : Builds i c := by
  refine ⟨(Quiet.builders σ ε).follows_mutating mutating, fun s => ?_⟩
  rw [mutating.unit]
  exact honest_unit (mutating.works (Does.labour env i)) s

theorem builds_error (i : StorageId) (e : EngineError) :
    Builds i (pure (.ofError e) : Engine σ ε (Outcome α)) :=
  ⟨(Quiet.route σ ε).follows_pure _, fun _ => .inl rfl⟩

private theorem Update.builds (u : Update ε) : Builds u.storage (u.run env) := by
  cases compiled : u.compile env with
  | ok found => exact (Mutating.update u rfl compiled).builds
  | error e =>
      rw [Update.run_of_compile_error compiled]
      exact builds_error _ e

private theorem Delete.builds (x : Delete ε) : Builds x.storage (x.run env) := by
  cases compiled : x.compile env with
  | ok selection => exact (Mutating.delete x rfl compiled).builds
  | error e =>
      rw [Delete.run_of_compile_error compiled]
      exact builds_error _ e

/-! ### Managers -/

namespace Manager

variable (m : Manager ε)

def creation (withId bulk : Bool) (accepted : List ε) : Create ε where
  type := m.type
  storage := m.storage
  items := accepted
  withId := withId
  bulk := bulk

def updating (fields : List String) (accepted : List ε) : Update ε where
  type := m.type
  storage := m.storage
  items := accepted
  fields := fields

def deletion (accepted : List ε) : Delete ε :=
  Delete.items m.type m.storage accepted

variable {m} (items : List ε) {accepted : List ε} {errors own : List EngineError}
  {s admitted built : State σ ε}

private theorem createItems_ends {withId bulk : Bool}
    (admits : (m.admitAll .create items).run s = ((accepted, errors), admitted))
    (builds : ((m.creation withId bulk accepted).run env).run admitted = (⟨none, own⟩, built)) :
    ((m.createItems env items withId bulk).run s).2 = built := by
  rw [createItems, Engine.run_bind, admits]
  dsimp only
  rw [Engine.run_bind, ← creation, builds]
  rfl

private theorem updateMany_ends {fields : List String}
    (admits : (m.admitAll .update items).run s = ((accepted, errors), admitted))
    (builds : ((m.updating fields accepted).run env).run admitted = (⟨none, own⟩, built)) :
    ((m.updateMany env items fields).run s).2 = built := by
  rw [updateMany, Engine.run_bind, admits]
  dsimp only
  rw [Engine.run_bind, ← updating, builds]
  rfl

private theorem deleteMany_ends
    (admits : (m.admitAll .delete items).run s = ((accepted, errors), admitted))
    (builds : ((m.deletion accepted).run env).run admitted = (⟨none, own⟩, built)) :
    ((m.deleteMany env items).run s).2 = built := by
  rw [deleteMany, Engine.run_bind, admits]
  dsimp only
  rw [Engine.run_bind, ← deletion, builds]
  rfl

end Manager

/-- The mutations of a manager, with the items that each asks the hooks to admit and the builder
that it has do the work. -/
inductive Mutates (env : Setting σ) (m : Manager ε) : {α β : Type} → Mutation → List ε →
    (List ε → Engine σ ε (Outcome α)) → Engine σ ε (Outcome β) → Prop
  | createMany (items : List ε) :
      Mutates env m .create items (fun accepted => (m.creation false false accepted).run env)
        (m.createMany env items)
  | bulkCreate (items : List ε) (withId : Bool) :
      Mutates env m .create items (fun accepted => (m.creation withId true accepted).run env)
        (m.bulkCreate env items withId)
  | create (item : ε) :
      Mutates env m .create [item] (fun accepted => (m.creation false false accepted).run env)
        (m.create env item)
  | updateMany (items : List ε) (fields : List String) :
      Mutates env m .update items (fun accepted => (m.updating fields accepted).run env)
        (m.updateMany env items fields)
  | update (item : ε) (fields : List String) :
      Mutates env m .update [item] (fun accepted => (m.updating fields accepted).run env)
        (m.update env item fields)
  | deleteMany (items : List ε) :
      Mutates env m .delete items (fun accepted => (m.deletion accepted).run env)
        (m.deleteMany env items)
  | delete (item : ε) :
      Mutates env m .delete [item] (fun accepted => (m.deletion accepted).run env)
        (m.delete env item)

namespace Mutates

variable {m : Manager ε} {mutation : Mutation} {items : List ε}
  {builder : List ε → Engine σ ε (Outcome α)} {op : Engine σ ε (Outcome β)}

private theorem builds (mutates : Mutates env m mutation items builder op) (accepted : List ε) :
    Builds m.storage (builder accepted) := by
  cases mutates with
  | createMany items => exact (Mutating.create (m.creation false false accepted) rfl).builds
  | bulkCreate items withId => exact (Mutating.create (m.creation withId true accepted) rfl).builds
  | create item => exact (Mutating.create (m.creation false false accepted) rfl).builds
  | updateMany items fields => exact (m.updating fields accepted).builds
  | update item fields => exact (m.updating fields accepted).builds
  | deleteMany items => exact (m.deletion accepted).builds
  | delete item => exact (m.deletion accepted).builds

/-- A mutation ends where its builder does if that gives no value. -/
theorem ends (mutates : Mutates env m mutation items builder op) {s admitted built : State σ ε}
    {accepted : List ε} {errors : List EngineError} {o : Outcome α}
    (admits : (m.admitAll mutation items).run s = ((accepted, errors), admitted))
    (builds : (builder accepted).run admitted = (o, built)) (nothing : o.value? = none) :
    (op.run s).2 = built := by
  obtain ⟨value?, own⟩ := o
  cases nothing
  -- A mutation of one item is that of a list, of which it takes the first afterwards.
  have first {c : Engine σ ε (Outcome (List ε))} (ended : (c.run s).2 = built) :
      ((do return ((← c).map List.head?).flatten : Engine σ ε (Outcome ε)).run s).2 = built := ended
  cases mutates with
  | createMany items => exact Manager.createItems_ends items admits builds
  | bulkCreate items withId => exact Manager.createItems_ends items admits builds
  | create item => exact first (Manager.createItems_ends [item] admits builds)
  | updateMany items fields => exact Manager.updateMany_ends items admits builds
  | update item fields => exact first (Manager.updateMany_ends [item] admits builds)
  | deleteMany items => exact Manager.deleteMany_ends items admits builds
  | delete item => exact first (Manager.deleteMany_ends [item] admits builds)

end Mutates

def Manager.carryOut (m : Manager ε) (mutation : Mutation) (items : List ε)
    (builder : List ε → Engine σ ε (Outcome α)) : Engine σ ε (Outcome α) := do
  let (accepted, _) ← m.admitAll mutation items
  builder accepted

/-- Hooks and observers are told of items only after the builder has ended, and only if it has made
no error, unless the last that it did was a commit that failed. -/
theorem told_only_of_success {m : Manager ε} {mutation : Mutation} {items : List ε}
    {builder : List ε → Engine σ ε (Outcome α)} {op : Engine σ ε (Outcome β)}
    (mutates : Mutates env m mutation items builder op) (s : State σ ε)
    (kept : ∀ made, ((m.carryOut mutation items builder).run s).2.calls ≠
      s.calls ++ made ++ [.commit m.storage false]) :
    ((m.carryOut mutation items builder).run s).2.told = s.told ∧
      (((m.carryOut mutation items builder).run s).1.errors ≠ [] →
        (op.run s).2.told = s.told) := by
  rcases admits : (m.admitAll mutation items).run s with ⟨⟨accepted, errors⟩, admitted⟩
  rcases builds : (builder accepted).run admitted with ⟨o, built⟩
  have carried : (m.carryOut mutation items builder).run s = (o, built) := by
    rw [Manager.carryOut, Engine.run_bind, admits]
    exact builds
  have asking := (Asks.admits m).follows_admitAll mutation items s
  rw [admits] at asking
  obtain ⟨quiet, honest⟩ := mutates.builds accepted
  have working := quiet admitted
  have answered := honest admitted
  rw [builds] at working answered
  rw [carried] at kept ⊢
  obtain ⟨told, calls⟩ := asking
  refine ⟨working.trans told, fun failed => ?_⟩
  rcases answered with nothing | success | ⟨made, ends⟩
  · rw [mutates.ends admits builds nothing]
    exact working.trans told
  · exact (failed success).elim
  · exact (kept made (by rw [ends, calls])).elim

def scribe : Manager Record := ⟨0, twoNotes.type, 0⟩

def firstNote : Record where
  values := [("body", .text "first")]

def watched (script : Script) : State Scripts Record where
  outside := ⟨fun _ => script⟩
  hooks? := fun _ => some (Hooks.ofRules [])
  observers := fun _ _ => [⟨"audit", fun _ => .ok ()⟩]

def noting : Engine Scripts Record (Outcome (List Record)) :=
  scribe.carryOut .create [firstNote] fun accepted =>
    (scribe.creation false false accepted).run Party.scripted

def failingInsert : State Scripts Record :=
  watched { insert := [.error (.execution "INSERT" "disk is full")] }

theorem failed_insert_is_not_told :
    Mutates Party.scripted scribe .create [firstNote]
        (fun accepted => (scribe.creation false false accepted).run Party.scripted)
        (scribe.createMany Party.scripted [firstNote]) ∧
      (∀ made, (noting.run failingInsert).2.calls ≠
        failingInsert.calls ++ made ++ [.commit scribe.storage false]) ∧
      (noting.run failingInsert).1.errors ≠ [] ∧ (noting.run failingInsert).2.told = [] ∧
      ((scribe.createMany Party.scripted [firstNote]).run failingInsert).2.told = [] := by
  have mutates : Mutates Party.scripted scribe .create _ _ _ := .createMany [firstNote]
  have kept : ∀ made, (noting.run failingInsert).2.calls ≠
      failingInsert.calls ++ made ++ [.commit scribe.storage false] := by
    intro made same
    have last := congrArg List.getLast? same
    rw [List.getLast?_concat] at last
    cases last
  have failed : (noting.run failingInsert).1.errors ≠ [] := List.cons_ne_nil _ _
  obtain ⟨waits, tells⟩ := told_only_of_success mutates failingInsert kept
  exact ⟨mutates, kept, failed, waits, tells failed⟩

def failingEnd : State Scripts Record :=
  watched { commit := [.error (.execution "COMMIT" "disk is full")] }

/-- A builder whose commit has failed reports the error and still gives its items back, and the
hook and the observer are told of them. -/
theorem failed_commit_is_told :
    (noting.run failingEnd).1.errors ≠ [] ∧
      ((scribe.createMany Party.scripted [firstNote]).run failingEnd).2.told =
        [.hook ⟨.after, .create⟩ 1, .observer .create "audit" 1] :=
  ⟨List.cons_ne_nil _ _, rfl⟩

end EntityStore
