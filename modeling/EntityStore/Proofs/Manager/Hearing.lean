import EntityStore.Proofs.Manager.Telling

/-!
Which hooks and observers are called for which items. A mutation of a list first asks the hooks about one
item after the other, gives its builder those that they let through, as they left them, and then calls
the hook and each observer once for each item that comes back. A call that fails costs one error, and
neither an item nor another call.
-/

namespace EntityStore

variable {σ ε α : Type} {env : Setting σ}

namespace State

variable (s : State σ ε)

def callbacks : List Event :=
  s.trail.toList.filter Event.isCallback

def heard (events : List Event) : State σ ε :=
  { s with trail := s.trail ++ events.toArray }

@[simp]
theorem heard_nil : s.heard [] = s := by
  simp [heard]

@[simp]
theorem heard_heard (first second : List Event) :
    (s.heard first).heard second = s.heard (first ++ second) := by
  simp [heard]

end State

namespace Engine

theorem run_record (e : Event) (s : State σ ε) :
    (record e : Engine σ ε Unit).run s = ((), s.heard [e]) := by
  show ((), s.recorded e) = _
  simp [State.recorded, State.heard]

/-- Computations that answer alike and record events, wherever they start among certain states, do so
one after the other. -/
theorem run_mapM {β : Type} {P : State σ ε → Prop} {f : α → Engine σ ε β} {answer : α → β}
    {events : α → List Event} (stays : ∀ s l, P s → P (s.heard l))
    (each : ∀ a s, P s → (f a).run s = (answer a, s.heard (events a))) (items : List α)
    {s : State σ ε} (start : P s) :
    (items.mapM f).run s = (items.map answer, s.heard (items.flatMap events)) := by
  induction items generalizing s with
  | nil =>
      rw [List.map_nil, List.flatMap_nil, State.heard_nil]
      rfl
  | cons a rest ih =>
      rw [List.mapM_cons, run_bind, each a s start, run_bind, ih (stays s _ start), run_pure,
        State.heard_heard]
      rfl

end Engine

/-! ### What is asked before -/

namespace Manager

/-- What the hooks make of an item: the item as they leave it, or the error for it. An item that is to be
deleted stays as it is. -/
def verdict (hooks? : Option (Hooks ε)) (mutation : Mutation) (item : ε) : Except EngineError ε :=
  match hooks? with
  | none => .ok item
  | some hooks =>
    match hooks.can mutation item with
    | .error p => .error (p.error (HookPoint.label ⟨.can, mutation⟩))
    | .ok false => .error (refusal ⟨.can, mutation⟩)
    | .ok true =>
      match hooks.before mutation item with
      | .error p => .error (p.error (HookPoint.label ⟨.before, mutation⟩))
      | .ok changed => .ok (if mutation = .delete then item else changed)

/-- The hooks that are asked about an item: the second only if the first has let it through. -/
def asked (m : Manager ε) (hooks? : Option (Hooks ε)) (mutation : Mutation) (item : ε) : List Event :=
  match hooks? with
  | none => []
  | some hooks =>
    .hook ⟨.can, mutation⟩ (m.type.id item) ::
      match hooks.can mutation item with
      | .ok true => [.hook ⟨.before, mutation⟩ (m.type.id item)]
      | _ => []

private theorem verdict_hook {hooks? : Option (Hooks ε)} {mutation : Mutation} {item : ε}
    {e : EngineError}
    (judged : verdict hooks? mutation item = .error e) : ∃ text, e = .hook text := by
  unfold verdict at judged
  split at judged
  · cases judged
  · split at judged
    · cases judged
      exact ⟨_, rfl⟩
    · cases judged
      exact ⟨_, rfl⟩
    · split at judged
      · cases judged
        exact ⟨_, rfl⟩
      · cases judged

/-- What asking a hook answers and records. -/
theorem run_askHook (m : Manager ε) (point : HookPoint) (item : ε) (fallback : α)
    (ask : Hooks ε → Except Panic α) (s : State σ ε) :
    (m.askHook point item fallback ask : Engine σ ε _).run s =
      match s.hooks? m.number with
      | none => (.ok fallback, s)
      | some hooks =>
        ((ask hooks).mapError (·.error point.label), s.heard [.hook point (m.type.id item)]) := by
  unfold askHook
  rw [Engine.run_bind]
  have found : (m.hooks?.run s : Option (Hooks ε) × State σ ε) = (s.hooks? m.number, s) := rfl
  rw [found]
  cases s.hooks? m.number with
  | none => rfl
  | some hooks =>
      dsimp only
      rw [Engine.run_bind, Engine.run_record]
      cases ask hooks <;> rfl

private theorem run_admitOne (m : Manager ε) (mutation : Mutation) (item : ε) (s : State σ ε) :
    (m.admitOne mutation item).run s =
      (verdict (s.hooks? m.number) mutation item,
        s.heard (m.asked (s.hooks? m.number) mutation item)) := by
  unfold admitOne
  dsimp only
  rw [Engine.run_bind, run_askHook]
  cases set : s.hooks? m.number with
  | none =>
      dsimp only
      rw [Engine.run_bind, run_askHook, set]
      simp only [verdict, asked, State.heard_nil, ite_self]
      rfl
  | some hooks =>
      have still : (s.heard [.hook ⟨.can, mutation⟩ (m.type.id item)]).hooks? m.number = some hooks := set
      simp only [verdict, asked]
      cases first : hooks.can mutation item with
      | error p => rfl
      | ok lets =>
          cases lets with
          | false => rfl
          | true =>
              simp only [Except.mapError]
              rw [Engine.run_bind, run_askHook, still]
              simp only [State.heard_heard]
              cases second : hooks.before mutation item with
              | error p => rfl
              | ok changed => rfl

private theorem run_admitAll (m : Manager ε) (mutation : Mutation) (items : List ε) (s : State σ ε) :
    (m.admitAll mutation items).run s =
      ((admitted (items.map (verdict (s.hooks? m.number) mutation)),
          rejected (items.map (verdict (s.hooks? m.number) mutation))),
        s.heard (items.flatMap (m.asked (s.hooks? m.number) mutation))) := by
  have each (item : ε) (t : State σ ε) (same : t.hooks? m.number = s.hooks? m.number) :
      (m.admitOne mutation item).run t =
        (verdict (s.hooks? m.number) mutation item,
          t.heard (m.asked (s.hooks? m.number) mutation item)) := by
    rw [run_admitOne, same]
  unfold admitAll
  rw [Engine.run_bind, Engine.run_mapM (fun _ _ same => same) each items rfl]
  rfl

end Manager

/-! ### Who is told afterwards -/

structure Callback where
  event : Event
  label : String
  result : Except Panic Unit

def Callback.failure? (c : Callback) : Option EngineError :=
  match c.result with
  | .ok () => none
  | .error p => some (p.error c.label)

namespace Manager

def hookCall (m : Manager ε) (mutation : Mutation) (item : ε) (hooks : Hooks ε) : Callback where
  event := .hook ⟨.after, mutation⟩ (m.type.id item)
  label := HookPoint.label ⟨.after, mutation⟩
  result := hooks.after mutation item

def observerCall (m : Manager ε) (mutation : Mutation) (item : ε) (o : Observer ε) : Callback where
  event := .observer mutation o.tag (m.type.id item)
  label := mutation.eventLabel
  result := o.notify item

def calls (m : Manager ε) (hooks? : Option (Hooks ε)) (observers : List (Observer ε))
    (mutation : Mutation) (item : ε) : List Callback :=
  (hooks?.map (m.hookCall mutation item)).toList ++ observers.map (m.observerCall mutation item)

variable (m : Manager ε) (mutation : Mutation) (item : ε)

private theorem run_tellObserver (o : Observer ε) (s : State σ ε) :
    (m.tellObserver mutation item o).run s =
      ((m.observerCall mutation item o).failure?.toList,
        s.heard [(m.observerCall mutation item o).event]) := by
  unfold tellObserver observerCall Callback.failure?
  rw [Engine.run_bind, Engine.run_record]
  dsimp only
  cases o.notify item <;> rfl

/-- The calls to observers follow what the hook has answered. -/
theorem run_tellObservers (hookErrors : List EngineError) {s : State σ ε}
    {observers : List (Observer ε)} (set : s.observers m.number mutation = observers) :
    (do
      let observers ← m.observers mutation
      let told ← observers.mapM (m.tellObserver mutation item)
      return hookErrors ++ told.flatten : Engine σ ε (List EngineError)).run s =
      (hookErrors ++ (observers.map (m.observerCall mutation item)).filterMap Callback.failure?,
        s.heard ((observers.map (m.observerCall mutation item)).map Callback.event)) := by
  have found : (m.observers mutation).run s = (observers, s) := congrArg (·, s) set
  have failures : (observers.map fun o => (m.observerCall mutation item o).failure?.toList).flatten =
      (observers.map (m.observerCall mutation item)).filterMap Callback.failure? := by
    rw [List.filterMap_map, List.filterMap_eq_flatMap_toList]
    rfl
  have events : (observers.flatMap fun o => [(m.observerCall mutation item o).event]) =
      (observers.map (m.observerCall mutation item)).map Callback.event := by
    rw [List.map_map, List.map_eq_flatMap]
    rfl
  rw [Engine.run_bind, found, Engine.run_bind, Engine.run_mapM (P := fun _ => True)
    (fun _ _ _ => trivial) (fun o t _ => m.run_tellObserver mutation item o t) observers trivial,
    Engine.run_pure, failures, events]

private theorem run_tellOne (s : State σ ε) :
    (m.tellOne mutation item).run s =
      ((m.calls (s.hooks? m.number) (s.observers m.number mutation) mutation item).filterMap
          Callback.failure?,
        s.heard ((m.calls (s.hooks? m.number) (s.observers m.number mutation) mutation item).map
          Callback.event)) := by
  unfold tellOne calls
  rw [Engine.run_bind, run_askHook]
  cases set : s.hooks? m.number with
  | none =>
      dsimp only
      rw [Engine.run_bind, Engine.run_pure, m.run_tellObservers mutation item _ rfl]
      rfl
  | some hooks =>
      rw [Option.map_some, Option.toList_some, List.filterMap_append, List.map_append,
        ← State.heard_heard]
      simp only [hookCall, List.filterMap_cons, List.filterMap_nil, Callback.failure?]
      cases after : hooks.after mutation item with
      | error p =>
          simp only [Except.mapError]
          rw [Engine.run_bind, Engine.run_pure, m.run_tellObservers mutation item _ rfl]
          rfl
      | ok _ =>
          simp only [Except.mapError]
          rw [Engine.run_bind, Engine.run_pure, m.run_tellObservers mutation item _ rfl]
          rfl

private theorem run_tellAll (items : List ε) (s : State σ ε) :
    let calls := items.flatMap (m.calls (s.hooks? m.number) (s.observers m.number mutation) mutation)
    (m.tellAll mutation items).run s =
      (calls.filterMap Callback.failure?, s.heard (calls.map Callback.event)) := by
  have each (item : ε) (t : State σ ε) (same : t.hooks? m.number = s.hooks? m.number ∧
      t.observers m.number mutation = s.observers m.number mutation) :
      (m.tellOne mutation item).run t =
        ((m.calls (s.hooks? m.number) (s.observers m.number mutation) mutation item).filterMap
            Callback.failure?,
          t.heard ((m.calls (s.hooks? m.number) (s.observers m.number mutation) mutation item).map
            Callback.event)) := by
    rw [run_tellOne, same.1, same.2]
  dsimp only
  rw [List.filterMap_flatMap, List.map_flatMap, tellAll, Engine.run_bind,
    Engine.run_mapM (fun _ _ same => same) each items ⟨rfl, rfl⟩]
  rfl

end Manager

/-! ### What builders leave alone -/

structure Deaf (s after : State σ ε) : Prop where
  callbacks : after.callbacks = s.callbacks
  hooks? : after.hooks? = s.hooks?
  observers : after.observers = s.observers

namespace Deaf

def route (σ ε : Type) : Route σ ε where
  leads := Deaf
  refl _ := ⟨rfl, rfl, rfl⟩
  trans first second := ⟨second.callbacks.trans first.callbacks, second.hooks?.trans first.hooks?,
    second.observers.trans first.observers⟩

private theorem builders (σ ε : Type) : (route σ ε).Builders where
  pushed silent _ _ := ⟨by simp [State.callbacks, silent], rfl, rfl⟩
  assigned _ _ _ := ⟨rfl, rfl, rfl⟩

end Deaf

/-! ### Mutations of lists -/

namespace Manager

variable (env) (m : Manager ε)

def rewrite (fields : List String) (accepted : List ε) : Engine σ ε (Outcome (List ε)) := do
  let updated ← (m.updating fields accepted).run env
  match updated.value? with
  | none => return .ofErrors updated.errors
  | some _ =>
    let stored ← m.getByIds env (accepted.map m.type.id)
    return ⟨stored.value?, updated.errors ++ stored.errors⟩

def remove (accepted : List ε) : Engine σ ε (Outcome (List ε)) := do
  let deleted ← (m.deletion accepted).run env
  return deleted.withValue (deleted.value?.map fun _ => accepted)

/-- The mutations of lists of items, with the builder that each has do the work. -/
inductive Serves : Mutation → (List ε → Engine σ ε (Outcome (List ε))) →
    (List ε → Engine σ ε (Outcome (List ε))) → Prop
  | createMany : Serves .create (fun accepted => (m.creation false false accepted).run env)
      (m.createMany env)
  | bulkCreate (withId : Bool) : Serves .create
      (fun accepted => (m.creation withId true accepted).run env)
      (fun items => m.bulkCreate env items withId)
  | updateMany (fields : List String) : Serves .update (m.rewrite env fields)
      (fun items => m.updateMany env items fields)
  | deleteMany : Serves .delete (m.remove env) (m.deleteMany env)

namespace Serves

variable {env m} {mutation : Mutation} {builder op : List ε → Engine σ ε (Outcome (List ε))}

/-- A mutation asks first, has its builder do the work, and tells of what that gives. -/
theorem stages (serves : Serves env m mutation builder op) (items : List ε) :
    op items = (do
      let (accepted, errors) ← m.admitAll mutation items
      let done ← builder accepted
      m.conclude mutation (errors ++ done.errors) done.value?) := by
  cases serves with
  | createMany => rfl
  | bulkCreate withId => rfl
  | updateMany fields =>
      simp only [rewrite]
      refine bind_congr fun admitted => ?_
      rw [bind_assoc]
      refine bind_congr fun updated => ?_
      cases updated.value? with
      | none => rfl
      | some _ =>
          dsimp only
          rw [bind_assoc]
          refine bind_congr fun stored => ?_
          rw [pure_bind, List.append_assoc]
  | deleteMany => rfl

theorem deaf (serves : Serves env m mutation builder op) (accepted : List ε) :
    (Deaf.route σ ε).Follows (builder accepted) := by
  have B := Deaf.builders σ ε
  cases serves with
  | createMany => exact B.follows_mutating (Mutating.create (m.creation false false accepted) rfl)
  | bulkCreate withId =>
      exact B.follows_mutating (Mutating.create (m.creation withId true accepted) rfl)
  | updateMany fields =>
      refine (B.follows_update (m.updating fields accepted)).bind fun updated => ?_
      split
      · exact (Deaf.route σ ε).follows_pure _
      · refine Route.Follows.bind ?_ fun _ => (Deaf.route σ ε).follows_pure _
        exact (B.follows_query _).bind fun _ => (Deaf.route σ ε).follows_pure _
  | deleteMany =>
      exact (B.follows_delete (m.deletion accepted)).bind fun _ => (Deaf.route σ ε).follows_pure _

/-- What a mutation answers, and where it ends, in terms of its builder. -/
theorem run (serves : Serves env m mutation builder op) (items : List ε) (s : State σ ε) :
    let verdicts := items.map (verdict (s.hooks? m.number) mutation)
    let done := (builder (admitted verdicts)).run
      (s.heard (items.flatMap (m.asked (s.hooks? m.number) mutation)))
    let calls (given : List ε) := given.flatMap
      (m.calls (s.hooks? m.number) (s.observers m.number mutation) mutation)
    (op items).run s =
      match done.1.value? with
      | none => (⟨none, rejected verdicts ++ done.1.errors⟩, done.2)
      | some given =>
        (⟨some given, rejected verdicts ++ done.1.errors ++ (calls given).filterMap Callback.failure?⟩,
          done.2.heard ((calls given).map Callback.event)) := by
  intro verdicts done calls
  rw [serves.stages, Engine.run_bind, run_admitAll]
  dsimp only
  rw [Engine.run_bind]
  show (m.conclude mutation (rejected verdicts ++ done.1.errors) done.1.value?).run done.2 = _
  have leaves : Deaf _ done.2 := serves.deaf (admitted verdicts) _
  have hooks? : done.2.hooks? m.number = s.hooks? m.number := congrFun leaves.hooks? _
  have observers : done.2.observers m.number mutation = s.observers m.number mutation :=
    congrFun (congrFun leaves.observers _) _
  cases done.1.value? with
  | none => rfl
  | some given =>
      dsimp only [conclude]
      rw [Engine.run_bind, run_tellAll, hooks?, observers]
      rfl

end Serves

variable {env m}

private theorem rejected_hook {hooks? : Option (Hooks ε)} {mutation : Mutation} {items : List ε}
    {e : EngineError} (member : e ∈ rejected (items.map (verdict hooks? mutation))) :
    ∃ text, e = .hook text := by
  induction items with
  | nil => cases member
  | cons item rest ih =>
      rw [List.map_cons] at member
      cases judged : verdict hooks? mutation item with
      | ok accepted =>
          rw [judged] at member
          exact ih member
      | error first =>
          rw [judged] at member
          rcases List.mem_cons.1 member with rfl | later
          · exact verdict_hook judged
          · exact ih later

private theorem failures_hook {calls : List Callback} {e : EngineError}
    (member : e ∈ calls.filterMap Callback.failure?) : ∃ text, e = .hook text := by
  obtain ⟨c, -, failed⟩ := List.mem_filterMap.1 member
  unfold Callback.failure? at failed
  split at failed
  · cases failed
  · cases failed
    exact ⟨_, rfl⟩

/-- **Each item is seen the right number of times.** The builder of a mutation is given the items that
the hooks let through, in order and as they leave them, and each of the others costs one error ahead of
those of the builder. If the builder gives items back, the hook is called for each of them once, then each
observer once in order, and a call that fails costs one error and nothing else. -/
theorem hooks_see_each_item {mutation : Mutation}
    {builder op : List ε → Engine σ ε (Outcome (List ε))} (serves : Serves env m mutation builder op)
    (items : List ε) (s : State σ ε) :
    let verdicts := items.map (verdict (s.hooks? m.number) mutation)
    let asking := s.heard (items.flatMap (m.asked (s.hooks? m.number) mutation))
    let done := (builder (admitted verdicts)).run asking
    let calls (given : List ε) := given.flatMap
      (m.calls (s.hooks? m.number) (s.observers m.number mutation) mutation)
    (op items).run s =
        (match done.1.value? with
        | none => (⟨none, rejected verdicts ++ done.1.errors⟩, done.2)
        | some given =>
          (⟨some given,
              rejected verdicts ++ done.1.errors ++ (calls given).filterMap Callback.failure?⟩,
            done.2.heard ((calls given).map Callback.event))) ∧
      done.2.callbacks = asking.callbacks ∧
      (∀ e ∈ rejected verdicts, ∃ text, e = .hook text) ∧
      ∀ given, ∀ e ∈ (calls given).filterMap Callback.failure?, ∃ text, e = .hook text := by
  intro verdicts asking done calls
  exact ⟨serves.run items s, (serves.deaf (admitted verdicts) asking).callbacks,
    fun e => rejected_hook, fun given e => failures_hook⟩

def strict : State Scripts Record where
  outside := ⟨fun _ => {}⟩
  hooks? := fun _ => some (Hooks.ofRules
    [⟨⟨.can, .create⟩, fun note => note.values.isEmpty, .refuse⟩,
      ⟨⟨.after, .create⟩, fun _ => true, .fail .other⟩])
  observers := fun _ _ => [⟨"first", fun _ => .error (.text "no room")⟩, ⟨"second", fun _ => .ok ()⟩]

theorem empty_note_is_refused :
    Serves Party.scripted scribe .create
        (fun accepted => (scribe.creation false false accepted).run Party.scripted)
        (scribe.createMany Party.scripted) ∧
      ((scribe.createMany Party.scripted [{}, firstNote]).run strict).1.errors =
        [.hook "can_create refused the item", .hook "after_create panicked: unknown panic",
          .hook "on_created panicked: no room"] ∧
      ((scribe.createMany Party.scripted [{}, firstNote]).run strict).2.callbacks =
        [.hook ⟨.can, .create⟩ 0, .hook ⟨.can, .create⟩ 0, .hook ⟨.before, .create⟩ 0,
          .hook ⟨.after, .create⟩ 1, .observer .create "first" 1, .observer .create "second" 1] := by
  have serves : Serves Party.scripted scribe .create _ _ := .createMany
  obtain ⟨ran, -⟩ := hooks_see_each_item serves [{}, firstNote] strict
  refine ⟨serves, ?_, ?_⟩
  · rw [ran]
    rfl
  · rw [ran]
    rfl

end Manager

end EntityStore
