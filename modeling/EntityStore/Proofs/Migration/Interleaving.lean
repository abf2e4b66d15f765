import EntityStore.Migration.Run
import EntityStore.Proofs.Migration.Statements
import EntityStore.Proofs.Transaction.Tally

/-!
Units in the midst of others. While a unit runs, others begin, execute, commit, roll back and drop
on the same storages, at any moment between two things that the unit does. What the usual provider
does with such visits in between is described by computations beside its own; as long as others
leave the unit's own participant alone, all of it is made of steps.
-/

namespace EntityStore

variable {σ ε α β : Type}

/-- What a reader sees of the outside is not changed by answers of the database. -/
structure Provider.Keeps (p : Provider σ) (reader : σ → α) : Prop where
  connect (s : σ) : reader (p.connect s).2 = reader s
  execute (q : Sql.Statement) (s : σ) : reader (p.execute q s).2 = reader s
  query (q : Sql.Statement) (s : σ) : reader (p.query q s).2 = reader s
  insert (q : Sql.Statement) (s : σ) : reader (p.insert q s).2 = reader s
  begin (s : σ) : reader (p.begin s).2 = reader s
  commit (s : σ) : reader (p.commit s).2 = reader s
  rollback (s : σ) : reader (p.rollback s).2 = reader s

/-- Those who work on the storages beside a unit. Which participants they have begun and not left is
known outside of the engine. -/
structure Others (env : Setting σ) where
  held : σ → StorageId → Multiset Transaction
  keeps (j : StorageId) : (env.provider j).Keeps held

namespace Others

variable {env : Setting σ} (others : Others env) (i : StorageId)

def stage (s : State σ ε) : Stage σ ε :=
  ⟨s, others.held s.outside i⟩

theorem steps_of_aside {s after : State σ ε} (aside : Aside i s after)
    (held : others.held after.outside = others.held s.outside) :
    Steps env i (others.stage i s) (others.stage i after) := by
  rw [stage, stage, held]
  exact .single (.aside aside)

def beside (number : Nat) (ε : Type) : Route σ ε where
  leads s after := after.openUnit number = s.openUnit number ∧
    Steps env i (others.stage i s) (others.stage i after)
  refl _ := ⟨rfl, .refl⟩
  trans first second := ⟨second.1.trans first.1, first.2.trans second.2⟩

def route (ε : Type) : Route σ ε where
  leads s after := after.openUnit = s.openUnit ∧
    ∀ i, Steps env i (others.stage i s) (others.stage i after)
  refl _ := ⟨rfl, fun _ => .refl⟩
  trans first second := ⟨second.1.trans first.1, fun i => (first.2 i).trans (second.2 i)⟩

theorem beside_of_route {s after : State σ ε} (leads : (others.route ε).leads s after)
    (number : Nat) : (others.beside i number ε).leads s after :=
  ⟨congrFun leads.1 number, leads.2 i⟩

variable {i}

theorem route_recorded (s : State σ ε) {e : Event} (inner : e.isCall = false) :
    (others.route ε).leads s { s with trail := s.trail.push e } :=
  ⟨rfl, fun i =>
    others.steps_of_aside i (Aside.pushed (Event.not_concerns_of_not_call inner) s s.outside) rfl⟩

private theorem route_called (j : StorageId) (event : Bool → Event)
    (mine : ∀ succeeded, (event succeeded).isStatement j = true)
    (apart : ∀ i, j ≠ i → ∀ succeeded, (event succeeded).concerns i = false) (answer : Answer σ α)
    (kept : ∀ outside, others.held (answer outside).2 = others.held outside) (s : State σ ε) :
    (others.route ε).leads s (s.called event answer) := by
  refine ⟨rfl, fun i => ?_⟩
  have ran : Steps env i ⟨s, 0⟩ ⟨s.called event answer, 0⟩ :=
    Step.ran j event (fun same => same ▸ mine) (apart i) answer s
  have steps := ran.beside (others.held s.outside i)
  have held : others.held (s.called event answer).outside = others.held s.outside := kept s.outside
  rw [stage, stage, held]
  simpa only [Multiset.add_zero] using steps

def conduct (ε : Type) : Conduct env ε where
  toManner := (others.route ε).manner
  statements j :=
    { record := fun _ inner s => others.route_recorded s inner
      query := fun q => others.route_called j _ (by simp [Event.isStatement])
        (fun i apart => by simp [Event.concerns, Event.isStatement, apart]) _
        ((others.keeps j).query q)
      execute := fun q => others.route_called j _ (by simp [Event.isStatement])
        (fun i apart => by simp [Event.concerns, Event.isStatement, apart]) _
        ((others.keeps j).execute q)
      insert := fun q => others.route_called j _ (by simp [Event.isStatement])
        (fun i apart => by simp [Event.concerns, Event.isStatement, apart]) _
        ((others.keeps j).insert q) }

def still (ε : Type) : Route σ ε where
  leads s after := others.held after.outside = others.held s.outside
  refl _ := rfl
  trans first second := second.trans first

theorem still_coordinates (j : StorageId) : (others.still ε).manner.Coordinates env j where
  coordinator _ := rfl
  setCoordinator _ _ := rfl
  trace _ _ _ _ := rfl
  begin s := (others.keeps j).begin s.outside
  commit s := (others.keeps j).commit s.outside
  rollback s := (others.keeps j).rollback s.outside

end Others

/-! ### Visits -/

/-- The second computation does what the first does, and others visit between its parts. -/
inductive Amid (env : Setting σ) (visits : Route σ ε) :
    {α : Type} → Engine σ ε α → Engine σ ε α → Prop
  | pure {α : Type} (a : α) : Amid env visits (pure a) (pure a)
  | record (e : Event) (inner : e.isCall = false) :
      Amid env visits (Engine.record e) (Engine.record e)
  | execute (i : StorageId) (q : Sql.Statement) :
      Amid env visits (Engine.call (.execute i q) ((env.provider i).execute q))
        (Engine.call (.execute i q) ((env.provider i).execute q))
  | query (i : StorageId) (q : Sql.Statement) :
      Amid env visits (Engine.call (.query i q) ((env.provider i).query q))
        (Engine.call (.query i q) ((env.provider i).query q))
  | insert (i : StorageId) (q : Sql.Statement) :
      Amid env visits (Engine.call (.insert i q) ((env.provider i).insert q))
        (Engine.call (.insert i q) ((env.provider i).insert q))
  | visited {α : Type} {visit : Engine σ ε Unit} {c visited : Engine σ ε α}
      (follows : visits.Follows visit) (rest : Amid env visits c visited) :
      Amid env visits c (visit >>= fun _ => visited)
  | bind {α β : Type} {c visited : Engine σ ε α} {next next' : α → Engine σ ε β}
      (first : Amid env visits c visited) (second : ∀ a, Amid env visits (next a) (next' a)) :
      Amid env visits (c >>= next) (visited >>= next')

namespace Amid

variable (env : Setting σ) (visits : Route σ ε)

def conduct : Conduct env ε where
  Follows c := Amid env visits c c
  closed := ⟨Amid.pure, Amid.bind⟩
  statements i :=
    { record := Amid.record, query := Amid.query i, execute := Amid.execute i
      insert := Amid.insert i }

variable {env visits}

theorem follows (C : Conduct env ε)
    (welcome : ∀ visit : Engine σ ε Unit, visits.Follows visit → C.Follows visit)
    {c visited : Engine σ ε α} (amid : Amid env visits c visited) : C.Follows visited := by
  induction amid with
  | pure a => exact C.follows_pure a
  | record e inner => exact C.follows_record inner
  | execute i q => exact (C.statements i).execute q
  | query i q => exact (C.statements i).query q
  | insert i q => exact (C.statements i).insert q
  | visited follows rest ih => exact (welcome _ follows).bind fun _ => ih
  | bind first second first_ih second_ih => exact first_ih.bind second_ih

end Amid

def Attempt.between (before after : Engine σ ε Unit) (a : Attempt σ ε α) : Attempt σ ε α := do
  Attempt.lift before
  let result ← Attempt.lift a.run
  Attempt.lift after
  Attempt.ofExcept result

theorem Attempt.run_between (before after : Engine σ ε Unit) (a : Attempt σ ε α) (s : State σ ε) :
    (between before after a).run.run s =
      ((a.run.run (before.run s).2).1, (after.run (a.run.run (before.run s).2).2).2) :=
  rfl

namespace Migration

/-- When others come while a provider opens and closes a unit. Only the provider knows which
transaction it holds, so what happens between beginning a transaction and holding it might as well
happen after that, and likewise for giving it up. -/
structure Visits (σ ε : Type) where
  beforeOpening : Engine σ ε Unit := pure ()
  afterOpening : Engine σ ε Unit := pure ()
  beforeClosing (success : Bool) : Engine σ ε Unit := pure ()
  afterClosing (success : Bool) : Engine σ ε Unit := pure ()

/-- The usual provider of a storage, visited by others: while it opens and closes a unit as said,
and at any time while it runs statements. -/
structure Provider.Visited {env : Setting σ} (others : Others env) (i : StorageId) (number : Nat)
    (table : String) (visits : Visits σ ε) (p : Provider σ ε) : Prop where
  can (unitName : String) : Amid env (others.route ε)
    (StorageProvider.can env i table unitName).run (p.can unitName).run
  save (unitName : String) : Amid env (others.route ε)
    (StorageProvider.save env i table unitName).run (p.save unitName).run
  apply (change : ModelChange) : Amid env (others.route ε)
    (StorageProvider.apply env i change).run (p.apply change).run
  opening : p.beforeUp = (StorageProvider.beforeUp env i number).between
    visits.beforeOpening visits.afterOpening
  closing (success : Bool) : p.afterUp success =
    (StorageProvider.afterUp env i number success).between
      (visits.beforeClosing success) (visits.afterClosing success)
  beforeOpening : (others.route ε).Follows visits.beforeOpening
  afterOpening : (others.route ε).Follows visits.afterOpening
  beforeClosing (success : Bool) : (others.route ε).Follows (visits.beforeClosing success)
  afterClosing (success : Bool) : (others.route ε).Follows (visits.afterClosing success)

end Migration

end EntityStore
