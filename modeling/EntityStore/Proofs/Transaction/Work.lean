import EntityStore.Proofs.Engine.Requests
import EntityStore.Proofs.Transaction.Participants
import Mathlib.Data.Multiset.AddSub
import Mathlib.Logic.Relation

/-!
Work on a storage: statements, requests, units of work, and participants that begin and leave by
hand, in any order and with any answers of the database. However it is put together, what a storage
sees of it is a chain of steps: a statement, a begin that opens, joins or is refused, a participant
that leaves, or something that does not concern the storage.
-/

namespace EntityStore

variable {σ ε α β : Type}

/-! ### What a storage sees -/

def Event.isStatement (i : StorageId) : Event → Bool
  | .execute j _ _ | .query j _ _ | .insert j _ _ => j == i
  | _ => false

def Event.concerns (i : StorageId) : Event → Bool
  | .begin j _ | .commit j _ | .rollback j _ => j == i
  | e => e.isStatement i

private theorem Event.concerns_of_isStatement {i : StorageId} {e : Event}
    (statement : e.isStatement i = true) : e.concerns i = true := by
  cases e <;> first | exact statement | cases statement

theorem Event.not_concerns_of_not_call {i : StorageId} {e : Event} (inner : e.isCall = false) :
    e.concerns i = false := by
  cases e <;> first | rfl | cases inner

namespace State

def dealings (i : StorageId) (s : State σ ε) : List Event :=
  s.calls.filter (Event.concerns i)

variable {i : StorageId} {s after : State σ ε}

theorem dealings_of_calls {made : List Event} (calls : after.calls = s.calls ++ made)
    (concern : ∀ e ∈ made, e.concerns i = true) : after.dealings i = s.dealings i ++ made := by
  rw [dealings, calls, List.filter_append, List.filter_eq_self.2 concern]
  rfl

theorem dealings_same (calls : after.calls = s.calls) :
    after.dealings i = s.dealings i := by
  rw [dealings, calls]
  rfl

theorem dealings_added {e : Event} (calls : after.calls = s.calls ++ [e]) (concern : e.concerns i = true) :
    after.dealings i = s.dealings i ++ [e] :=
  dealings_of_calls calls (by simpa using concern)

theorem dealings_called {event : Bool → Event} {answer : Answer σ α}
    (statement : ∀ succeeded, (event succeeded).isStatement i = true) :
    (s.called event answer).dealings i =
      s.dealings i ++ [event (answer s.outside).1.isOk] := by
  have concern (succeeded : Bool) := Event.concerns_of_isStatement (statement succeeded)
  have isCall (succeeded : Bool) : (event succeeded).isCall = true := by
    cases inner : (event succeeded).isCall with
    | true => rfl
    | false =>
        have apart := Event.not_concerns_of_not_call (i := i) inner
        rw [concern] at apart
        cases apart
  exact dealings_of_calls (calls_called s event answer isCall) (by simp [concern])

end State

/-- Storage `i` has seen nothing of what happened between two states. -/
structure Aside (i : StorageId) (s after : State σ ε) : Prop where
  coordinator : after.coordinator i = s.coordinator i
  dealings : after.dealings i = s.dealings i

namespace Aside

variable (i : StorageId)

def route (σ ε : Type) : Route σ ε where
  leads := Aside i
  refl _ := ⟨rfl, rfl⟩
  trans first second :=
    ⟨second.coordinator.trans first.coordinator, second.dealings.trans first.dealings⟩

variable {i}

theorem pushed {e : Event} (apart : e.concerns i = false) (s : State σ ε) (outside : σ) :
    Aside i s { s with outside, trail := s.trail.push e } := by
  refine ⟨rfl, ?_⟩
  simp [State.dealings, State.calls, List.filter_cons, apart]

theorem follows_call {event : Bool → Event}
    (apart : ∀ succeeded, (event succeeded).concerns i = false) (answer : Answer σ α) :
    (route i σ ε).Follows (Engine.call event answer : Engine σ ε (Except StorageError α)) :=
  fun s => pushed (apart _) s _

private theorem follows_trace (level : TraceLevel) (message : String)
    (fields : List (String × TraceField)) :
    (route i σ ε).Follows (Storage.traceTransaction level message fields : Engine σ ε Unit) :=
  fun s => pushed rfl s _

variable {j : StorageId} (other : j ≠ i) (env : Setting σ)

include other

theorem coordinates : (route i σ ε).manner.Coordinates env j where
  coordinator := (route i σ ε).refl
  setCoordinator _ s := ⟨setAt_of_ne s.coordinator _ other.symm, rfl⟩
  trace := follows_trace
  begin := follows_call (by simp [Event.concerns, other]) _
  commit := follows_call (by simp [Event.concerns, other]) _
  rollback := follows_call (by simp [Event.concerns, other]) _

theorem tries_begin : (route i σ ε).Tries (Storage.begin env j : Attempt σ ε Transaction) :=
  (coordinates other env).tries_begin

omit other in
theorem follows_leave {t : Transaction} (other : t.storage ≠ i) (how : Leaving) :
    (route i σ ε).Follows (Party.leave env t how) := by
  have parts := coordinates other env (ε := ε)
  cases how with
  | commit =>
      exact Route.Follows.bind (parts.follows_commitId t.id) fun _ => Route.follows_pure _ _
  | rollback =>
      exact Route.Follows.bind (parts.follows_rollbackId t.id) fun _ => Route.follows_pure _ _
  | drop => exact Route.Follows.bind (parts.follows_drop t rfl) fun _ => Route.follows_pure _ _

end Aside

/-! ### Steps -/

structure Stage (σ ε : Type) where
  state : State σ ε
  held : Multiset Transaction

/-- The ways in which work changes what storage `i` sees. -/
inductive Step (env : Setting σ) (i : StorageId) : Stage σ ε → Stage σ ε → Prop
  | aside {s after : State σ ε} {held : Multiset Transaction} (aside : Aside i s after) :
      Step env i ⟨s, held⟩ ⟨after, held⟩
  | statement {s : State σ ε} {held : Multiset Transaction} (event : Bool → Event)
      (statement : ∀ succeeded, (event succeeded).isStatement i = true) {α : Type}
      (answer : Answer σ α) : Step env i ⟨s, held⟩ ⟨s.called event answer, held⟩
  | joined {s after : State σ ε} {held : Multiset Transaction} {t : Transaction}
      (begun : (Storage.begin env i : Attempt σ ε _).run.run s = (.ok t, after)) :
      Step env i ⟨s, held⟩ ⟨after, t ::ₘ held⟩
  | refused {s after : State σ ε} {held : Multiset Transaction} {e : EngineError}
      (begun : (Storage.begin env i : Attempt σ ε _).run.run s = (.error e, after)) :
      Step env i ⟨s, held⟩ ⟨after, held⟩
  | left {s : State σ ε} {held : Multiset Transaction} (t : Transaction) (here : t.storage = i)
      (how : Leaving) :
      Step env i ⟨s, t ::ₘ held⟩ ⟨((Party.leave env t how : Engine σ ε Reply).run s).2, held⟩

/-- Any number of steps. -/
abbrev Steps (env : Setting σ) (i : StorageId) : Stage σ ε → Stage σ ε → Prop :=
  Relation.ReflTransGen (Step env i)

section

variable {env : Setting σ} {i : StorageId}

private theorem Step.beside {g h : Stage σ ε} (step : Step env i g h) (more : Multiset Transaction) :
    Step env i ⟨g.state, more + g.held⟩ ⟨h.state, more + h.held⟩ := by
  cases step with
  | aside aside => exact .aside aside
  | statement event statement answer => exact .statement event statement answer
  | joined begun =>
      rw [Multiset.add_cons]
      exact .joined begun
  | refused begun => exact .refused begun
  | left t here how =>
      rw [Multiset.add_cons]
      exact .left t here how

theorem Steps.beside {g h : Stage σ ε} (steps : Steps env i g h) (more : Multiset Transaction) :
    Steps env i ⟨g.state, more + g.held⟩ ⟨h.state, more + h.held⟩ :=
  steps.lift (fun g => (⟨g.state, more + g.held⟩ : Stage σ ε)) fun _ _ step => step.beside more

/-! ### Units of work -/

theorem Storage.begin_storage {s after : State σ ε} {t : Transaction}
    (begun : (Storage.begin env i : Attempt σ ε _).run.run s = (.ok t, after)) :
    t.storage = i := by
  rw [Storage.run_begin] at begun
  cases found : (s.coordinator i).active? with
  | some active =>
      obtain ⟨_, run⟩ := Storage.run_join_open env found
      rw [run] at begun
      cases begun
      rfl
  | none =>
      rcases Storage.run_join_idle env found with ⟨_, _, run⟩ | ⟨_, _, run⟩
      · rw [run] at begun
        cases begun
        rfl
      · rw [run] at begun
        cases begun

theorem Transaction.run_close (t : Transaction) (o : Outcome α) (s : State σ ε) :
    ((t.close env o : Engine σ ε _).run s).2 =
      ((Party.leave env t (if o.isSuccess then .commit else .rollback) :
        Engine σ ε _).run s).2 := by
  unfold Transaction.close
  cases o.isSuccess with
  | true =>
      rw [if_pos rfl, if_pos rfl, Party.leave, Engine.run_bind, Engine.run_bind]
      split <;> rfl
  | false =>
      rw [if_neg Bool.false_ne_true, if_neg Bool.false_ne_true, Party.leave, Engine.run_bind,
        Engine.run_bind]
      split <;> rfl

theorem Storage.run_unit (j : StorageId) (action : Engine σ ε (Outcome α)) (s : State σ ε) :
    (runInsideTransaction env j action).run s =
      match (Storage.begin env j : Attempt σ ε _).run.run s with
      | (.error e, after) => (.ofError e, after)
      | (.ok t, opened) => (t.close env (action.run opened).1).run (action.run opened).2 := by
  rw [runInsideTransaction, Engine.run_bind]
  rcases (Storage.begin env j : Attempt σ ε _).run.run s with ⟨result, after⟩
  cases result <;> rfl

private theorem Step.begun (j : StorageId) {s opened : State σ ε} {t : Transaction}
    (begun : (Storage.begin env j : Attempt σ ε _).run.run s = (.ok t, opened))
    (held : Multiset Transaction) :
    Step env i ⟨s, held⟩ ⟨opened, (if j = i then {t} else 0) + held⟩ := by
  split
  · rename_i same
    subst same
    rw [Multiset.singleton_add]
    exact .joined begun
  · rename_i other
    have apart := Aside.tries_begin other env s
    rw [begun] at apart
    rw [Multiset.zero_add]
    exact .aside apart

/-- A unit of work makes the steps of its action, as one participant more. -/
theorem steps_unit {j : StorageId} {action : Engine σ ε (Outcome α)}
    (after : Outcome α → Multiset Transaction → Prop) {held : Multiset Transaction}
    (inside : ∀ s, ∃ rest, after (action.run s).1 rest ∧
      Steps env i ⟨s, held⟩ ⟨(action.run s).2, rest⟩) (s : State σ ε) :
    ∃ rest, (rest = held ∨ ∃ o, after o rest) ∧
      Steps env i ⟨s, held⟩ ⟨((Storage.runInsideTransaction env j action).run s).2, rest⟩ := by
  rw [Storage.run_unit]
  cases begun : (Storage.begin env j : Attempt σ ε _).run.run s with
  | mk result opened =>
    cases result with
    | error e =>
        refine ⟨held, .inl rfl, .single ?_⟩
        by_cases same : j = i
        · subst same
          exact .refused begun
        · have apart := Aside.tries_begin same env s
          rw [begun] at apart
          exact .aside apart
    | ok t =>
        obtain ⟨rest, answered, steps⟩ := inside opened
        refine ⟨rest, .inr ⟨_, answered⟩, ?_⟩
        have within := steps.beside (if j = i then {t} else 0)
        refine .head (Step.begun j begun held) (within.tail ?_)
        dsimp only
        rw [Transaction.run_close]
        have here := Storage.begin_storage begun
        by_cases same : j = i
        · rw [if_pos same, Multiset.singleton_add]
          exact .left t (here.trans same) _
        · rw [if_neg same, Multiset.zero_add]
          exact .aside (Aside.follows_leave env (here ▸ same) _ _)

theorem Step.ran (j : StorageId) (event : Bool → Event)
    (mine : j = i → ∀ succeeded, (event succeeded).isStatement i = true)
    (others : j ≠ i → ∀ succeeded, (event succeeded).concerns i = false) (answer : Answer σ α)
    (s : State σ ε) : Steps env i ⟨s, 0⟩ ⟨s.called event answer, 0⟩ := by
  by_cases same : j = i
  · exact .single (.statement event (mine same) answer)
  · exact .single (.aside (Aside.follows_call (others same) answer s))

def Steps.route (env : Setting σ) (i : StorageId) (ε : Type) : Route σ ε where
  leads s after := Steps env i ⟨s, 0⟩ ⟨after, 0⟩
  refl _ := .refl
  trans first second := first.trans second

def Steps.course (env : Setting σ) (i : StorageId) (ε : Type) : Course env ε where
  toManner := (Steps.route env i ε).manner
  statements j :=
    { record := fun _ inner s =>
        .single (.aside (Aside.pushed (Event.not_concerns_of_not_call inner) s _))
      query := fun _ s => Step.ran j _ (by simp [Event.isStatement])
        (by simp [Event.concerns, Event.isStatement]) _ s
      execute := fun _ s => Step.ran j _ (by simp [Event.isStatement])
        (by simp [Event.concerns, Event.isStatement]) _ s
      insert := fun _ s => Step.ran j _ (by simp [Event.isStatement])
        (by simp [Event.concerns, Event.isStatement]) _ s }
  models _ _ := .refl
  hooks? _ _ := .refl
  observers _ _ _ := .refl
  unit j _ inside s := by
    obtain ⟨rest, left, steps⟩ := steps_unit (j := j) (fun _ rest => rest = 0)
      (fun s => ⟨0, rfl, inside s⟩) s
    have nobody : rest = 0 := by
      rcases left with none | ⟨_, none⟩
      · exact none
      · exact none
    subst nobody
    exact steps

end

/-! ### Work -/

/-- What beginning by hand leads to: one participant more, unless it is refused. -/
def Begun (i : StorageId) (held : Multiset Transaction) :
    Except EngineError Transaction → Multiset Transaction → Prop
  | .ok t, after => t.storage = i ∧ after = t ::ₘ held
  | .error _, after => after = held

/-- Computations that work on storage `i`. Before them the participants `held` have begun and not
left; `after` says for every answer who has begun and not left then. Each leaves at most once. -/
inductive Work (env : Setting σ) (i : StorageId) : {α : Type} → Multiset Transaction →
    Engine σ ε α → (α → Multiset Transaction → Prop) → Prop
  | done {α : Type} (a : α) (held : Multiset Transaction) :
      Work env i held (pure a) fun _ after => after = held
  | request {α : Type} {c : Engine σ ε α} (requested : Requested env c)
      (held : Multiset Transaction) : Work env i held c fun _ after => after = held
  | elsewhere {α : Type} {c : Engine σ ε α} (apart : (Aside.route i σ ε).Follows c)
      (held : Multiset Transaction) : Work env i held c fun _ after => after = held
  | begin (held : Multiset Transaction) :
      Work env i held (Storage.begin env i : Attempt σ ε Transaction).run (Begun i held)
  | leave (t : Transaction) (here : t.storage = i) (how : Leaving) (held : Multiset Transaction) :
      Work env i (t ::ₘ held) (Party.leave env t how) fun _ after => after = held
  | unit {α : Type} (j : StorageId) {action : Engine σ ε (Outcome α)} {held : Multiset Transaction}
      {after : Outcome α → Multiset Transaction → Prop} (inside : Work env i held action after) :
      Work env i held (Storage.runInsideTransaction env j action) fun _ rest =>
        rest = held ∨ ∃ o, after o rest
  | bind {α β : Type} {c : Engine σ ε α} {next : α → Engine σ ε β} {held : Multiset Transaction}
      {middle : α → Multiset Transaction → Prop} {after : β → Multiset Transaction → Prop}
      (first : Work env i held c middle)
      (second : ∀ a rest, middle a rest → Work env i rest (next a) after) :
      Work env i held (c >>= next) after
  | weaken {α : Type} {c : Engine σ ε α} {held : Multiset Transaction}
      {after wider : α → Multiset Transaction → Prop} (work : Work env i held c after)
      (leads : ∀ a rest, after a rest → wider a rest) : Work env i held c wider

/-- Work makes steps, one chain of them from every state. -/
theorem Work.steps {env : Setting σ} {i : StorageId} {held : Multiset Transaction}
    {c : Engine σ ε α} {after : α → Multiset Transaction → Prop} (work : Work env i held c after)
    (s : State σ ε) : ∃ rest, after (c.run s).1 rest ∧
      Steps env i ⟨s, held⟩ ⟨(c.run s).2, rest⟩ := by
  induction work generalizing s with
  | done a held => exact ⟨held, rfl, .refl⟩
  | request requested held =>
      have steps := Steps.beside (requested.follows (Steps.course env i ε) s) held
      exact ⟨held, rfl, by simpa only [Multiset.add_zero] using steps⟩
  | elsewhere apart held => exact ⟨held, rfl, .single (.aside (apart s))⟩
  | begin held =>
      cases begun : (Storage.begin env i : Attempt σ ε _).run.run s with
      | mk result opened =>
        cases result with
        | ok t =>
            exact ⟨t ::ₘ held, ⟨Storage.begin_storage begun, rfl⟩, .single (.joined begun)⟩
        | error e => exact ⟨held, rfl, .single (.refused begun)⟩
  | leave t here how held => exact ⟨held, rfl, .single (.left t here how)⟩
  | unit j inside ih => exact steps_unit _ ih s
  | bind first second first_ih second_ih =>
      obtain ⟨middle, answered, begun⟩ := first_ih s
      obtain ⟨rest, finished, ended⟩ := second_ih _ middle answered _
      exact ⟨rest, finished, begun.trans ended⟩
  | weaken work leads ih =>
      obtain ⟨rest, answered, steps⟩ := ih s
      exact ⟨rest, leads _ _ answered, steps⟩

end EntityStore
