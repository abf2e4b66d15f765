import EntityStore.Database.Dynamic
import EntityStore.Entity.Record
import EntityStore.Proofs.Engine.Run
import EntityStore.Proofs.Registry.Naming
import Mathlib.Data.List.Induction

/-!
A registry and the dispatcher in front of it, through every history of calls to either. The
dispatcher keeps what it has once looked up and is not told when the registry forgets its types. So
it answers for the registry as long as it is cleared too where the registry is, as a database does
when it is torn down.
-/

namespace EntityStore

variable {ε : Type}

/-- Calls to a registry and to the dispatcher in front of it. -/
inductive DirectoryCall (ε : Type)
  | register (m : Manager ε) (alias? : Option String)
  | clearRegistry
  | resolve (operation : Operation) (key : TypeKey)
  | clearDispatcher

/-- The database after one more call. -/
def Database.answered (d : Database ε) : DirectoryCall ε → Database ε
  | .register m alias? =>
    match d.registry.insert m alias? with
    | .ok (_, registry) => { d with registry }
    | .error _ => d
  | .clearRegistry => { d with registry := {} }
  | .resolve operation key =>
    { d with dispatcher := (d.dispatcher.resolve d.registry operation key).2 }
  | .clearDispatcher => { d with dispatcher := d.dispatcher.clear }

namespace Database

variable {σ : Type} (db : DatabaseId) (s : State σ ε)

/-- Registering in a database is one such call. -/
theorem registerNode_answered (type : EntityType ε) (storage : StorageId)
    (alias? : Option String) :
    ((registerNode db type storage alias? : Engine σ ε _).run s).2.database db =
      (s.database db).answered (.register ⟨s.managerCount, type, storage⟩ alias?) := by
  rw [registerNode, Engine.run_bind, Engine.run_bind, answered]
  dsimp only
  split
  · rename_i e failed
    rw [show (s.database db).registry.insert ⟨s.managerCount, type, storage⟩ alias? = .error e
      from failed]
    rfl
  · rename_i node registry inserted
    rw [show (s.database db).registry.insert ⟨s.managerCount, type, storage⟩ alias? =
      .ok (node, registry) from inserted]
    exact setAt_self ..

theorem resolve_answered (operation : Operation) (key : TypeKey) :
    ((resolve db operation key : Attempt σ ε _).run.run s).2.database db =
      (s.database db).answered (.resolve operation key) := by
  have ran : (resolve db operation key : Attempt σ ε _).run.run s =
      (Attempt.ofResult ((s.database db).dispatcher.resolve (s.database db).registry operation
        key).1 : Attempt σ ε _).run.run { s with
          database := setAt s.database db ((s.database db).answered (.resolve operation key)) } :=
    rfl
  rw [ran]
  cases ((s.database db).dispatcher.resolve (s.database db).registry operation key).1 with
  | ok r => exact setAt_self ..
  | error e => exact setAt_self ..

theorem teardown_answered :
    ((teardown db : Engine σ ε Unit).run s).2.database db =
      ((s.database db).answered .clearDispatcher).answered .clearRegistry := by
  show setAt (setAt s.database db _) db
    { (setAt s.database db _) db with registry := {} } db = _
  rw [setAt_self, setAt_self]
  rfl

end Database

def Database.after (calls : List (DirectoryCall ε)) : Database ε :=
  calls.foldl Database.answered {}

/-- What a registry that is asked each time answers to a resolution. -/
def Registry.answer (r : Registry ε) (operation : Operation) (key : TypeKey) :
    Except DispatchError (Resolved ε) :=
  match r.record? key with
  | some record => .ok ⟨record.type, record.manager⟩
  | none => .error (.methodNotFound operation key.label)

/-- All that is registered are types of the family. -/
def OfFamily (F : TypeFamily ε) (calls : List (DirectoryCall ε)) : Prop :=
  ∀ m alias?, .register m alias? ∈ calls → m.type = F.type m.type.key

/-- What the dispatcher of a database keeps was resolved by an earlier call, since which it has not
been cleared; and it is what the registry has, unless that has been cleared since. -/
structure Remembers (F : TypeFamily ε) (calls : List (DirectoryCall ε)) (d : Database ε) :
    Prop where
  coherent : d.registry.Coherent F
  kept : ∀ operation key resolved,
    d.dispatcher.cache.lookup operation = some (key, resolved) →
    ∃ before since, calls = before ++ .resolve operation key :: since ∧
      .clearDispatcher ∉ since ∧ (.clearRegistry ∉ since →
        ∃ record, d.registry.record? key = some record ∧
          resolved = ⟨record.type, record.manager⟩)

namespace Remembers

variable {F : TypeFamily ε} {calls : List (DirectoryCall ε)} {d : Database ε}

private theorem nothing (F : TypeFamily ε) : Remembers F [] {} :=
  ⟨.empty F, fun _ _ _ kept => by cases kept⟩

/-- What is kept stays remembered over a call that adds nothing to it. -/
theorem later (remembers : Remembers F calls d) {call : DirectoryCall ε} {after : Database ε}
    (other : call ≠ .clearDispatcher)
    (registry : call ≠ .clearRegistry → ∀ key record, d.registry.record? key = some record →
      after.registry.record? key = some record)
    {operation : Operation} {key : TypeKey} {resolved : Resolved ε}
    (kept : d.dispatcher.cache.lookup operation = some (key, resolved)) :
    ∃ before since, calls ++ [call] = before ++ .resolve operation key :: since ∧
      .clearDispatcher ∉ since ∧ (.clearRegistry ∉ since →
        ∃ record, after.registry.record? key = some record ∧
          resolved = ⟨record.type, record.manager⟩) := by
  obtain ⟨before, since, rfl, uncleared, known⟩ := remembers.kept _ _ _ kept
  refine ⟨before, since ++ [call], by simp, ?_, fun still => ?_⟩
  · simpa [uncleared] using other.symm
  · simp only [List.mem_append, List.mem_singleton, not_or] at still
    obtain ⟨record, found, same⟩ := known still.1
    exact ⟨record, registry (Ne.symm still.2) key record found, same⟩

/-- One call more is remembered. -/
theorem step (remembers : Remembers F calls d) {call : DirectoryCall ε}
    (typed : ∀ m alias?, call = .register m alias? → m.type = F.type m.type.key) :
    Remembers F (calls ++ [call]) (d.answered call) := by
  cases call with
  | register m alias? =>
      cases inserted : d.registry.insert m alias? with
      | error e =>
          have same : d.answered (.register m alias?) = d := by
            rw [Database.answered, inserted]
          rw [same]
          exact ⟨remembers.coherent, fun _ _ _ => remembers.later (by simp) fun _ _ _ => id⟩
      | ok found =>
          have own := typed m alias? rfl
          have after : d.answered (.register m alias?) = { d with registry := found.2 } := by
            rw [Database.answered, inserted]
          have coherent := remembers.coherent.insert own inserted
          rw [after]
          exact ⟨coherent, fun _ _ _ => remembers.later (by simp)
            fun _ _ _ => remembers.coherent.kept own inserted⟩
  | clearRegistry =>
      exact ⟨.empty F, fun _ _ _ => remembers.later (by simp) fun other => (other rfl).elim⟩
  | resolve operation key =>
      refine ⟨remembers.coherent, fun other otherKey resolved kept => ?_⟩
      rcases Dispatcher.resolve_kept kept with earlier | ⟨rfl, rfl, found⟩
      · exact remembers.later (by simp) (fun _ _ _ => id) earlier
      · exact ⟨calls, [], rfl, by simp, fun _ => found⟩
  | clearDispatcher => exact ⟨remembers.coherent, fun _ _ _ kept => by cases kept⟩

private theorem after (typed : OfFamily F calls) : Remembers F calls (Database.after calls) := by
  induction calls using List.reverseRecOn with
  | nil => exact nothing F
  | append_singleton calls call ih =>
      rw [Database.after, List.foldl_append]
      refine (ih fun m alias? member => typed m alias? (List.mem_append_left _ member)).step ?_
      rintro m alias? rfl
      exact typed m alias? (List.mem_append_right _ (List.mem_singleton.2 rfl))

end Remembers

/-- The dispatcher answers as a registry that is asked each time, as long as it has been cleared
wherever the registry was between two resolutions of the same operation for the same type. -/
theorem resolved_as_registered {F : TypeFamily ε} {calls : List (DirectoryCall ε)}
    (typed : OfFamily F calls) {operation : Operation} {key : TypeKey}
    (cleared : ∀ before since, calls = before ++ .resolve operation key :: since →
      .clearRegistry ∈ since → .clearDispatcher ∈ since) :
    ((Database.after calls).dispatcher.resolve (Database.after calls).registry operation key).1 =
      (Database.after calls).registry.answer operation key := by
  refine Dispatcher.resolve_answer fun resolved kept => ?_
  obtain ⟨before, since, split, uncleared, known⟩ := (Remembers.after typed).kept _ _ _ kept
  exact known fun forgotten => uncleared (cleared before since split forgotten)

def keyedTypes : TypeFamily Record where
  type key := Record.entityType key
    ⟨⟨"w::Person", "person", "id", [.generatedKey "id"]⟩, []⟩
  keyed _ := rfl

def forgotten : List (DirectoryCall Record) :=
  [.register ⟨0, keyedTypes.type ⟨0⟩, 0⟩ none, .resolve .getAll ⟨0⟩, .clearRegistry]

theorem forgotten_of_family : OfFamily keyedTypes forgotten := by
  intro m alias? member
  simp only [forgotten, List.mem_cons, DirectoryCall.register.injEq, reduceCtorEq, List.not_mem_nil,
    or_false] at member
  rw [member.1]
  rfl

def forgottenByBoth : List (DirectoryCall Record) :=
  forgotten ++ [.clearDispatcher]

theorem forgotten_by_both :
    OfFamily keyedTypes forgottenByBoth ∧
      (∀ before since, forgottenByBoth = before ++ .resolve .getAll ⟨0⟩ :: since →
        .clearRegistry ∈ since → .clearDispatcher ∈ since) ∧
      ((Database.after forgottenByBoth).dispatcher.resolve
          (Database.after forgottenByBoth).registry .getAll ⟨0⟩).1 =
        (Database.after forgottenByBoth).registry.answer .getAll ⟨0⟩ := by
  have typed : OfFamily keyedTypes forgottenByBoth := by
    intro m alias? member
    rcases List.mem_append.1 member with here | last
    · exact forgotten_of_family m alias? here
    · cases List.mem_singleton.1 last
  have cleared : ∀ before since, forgottenByBoth = before ++ .resolve .getAll ⟨0⟩ :: since →
      .clearRegistry ∈ since → .clearDispatcher ∈ since := by
    intro before since split forgets
    rcases List.eq_nil_or_concat since with rfl | ⟨rest, last, rfl⟩
    · cases forgets
    · rw [forgottenByBoth, List.concat_eq_append, ← List.cons_append, ← List.append_assoc] at split
      cases (List.append_inj' split rfl).2
      simp
  exact ⟨typed, cleared, resolved_as_registered typed cleared⟩

/-- A dispatcher that is not cleared resolves what the registry has forgotten. -/
theorem forgotten_still_resolved :
    ¬ ∀ (calls : List (DirectoryCall Record)) (operation : Operation) (key : TypeKey),
      OfFamily keyedTypes calls →
      ((Database.after calls).dispatcher.resolve (Database.after calls).registry operation key).1 =
        (Database.after calls).registry.answer operation key := by
  intro always
  have same := always forgotten .getAll ⟨0⟩ forgotten_of_family
  cases same

end EntityStore
