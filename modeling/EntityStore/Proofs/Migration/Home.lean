import EntityStore.Entity.Record
import EntityStore.Proofs.Migration.Agreement
import EntityStore.Proofs.Migration.Records
import EntityStore.Proofs.Registry.Naming
import EntityStore.Proofs.Schema.Order
import EntityStore.Proofs.Sql.Binding

/-!
The homes of models. A unit involves the storages on which the types of its models are registered,
and each of them holds the models that were registered there. Which participant changes a model is
decided again by what the storages hold, and a storage may hold models that are at home on another
one. So a change is made at home just if no participant before the home holds a model of its path.
-/

namespace EntityStore

variable {σ ε : Type}

def growing (σ ε : Type) : Route σ ε where
  leads s after := ∀ i, s.models i ⊆ after.models i
  refl s i := List.Subset.refl (s.models i)
  trans first second i := List.Subset.trans (first i) (second i)

def State.Holds (s : State σ ε) (i : StorageId) (path : String) : Prop :=
  ∃ m ∈ s.models i, m.path = path

theorem State.holds_iff {s : State σ ε} {i : StorageId} {m : EntityModel} :
    s.Holds i m.path ↔ (s.models i).any (·.same m) = true := by
  simp [Holds, EntityModel.same]

theorem State.Holds.grown {s after : State σ ε} {i : StorageId} {path : String}
    (holds : s.Holds i path) (grows : (growing σ ε).leads s after) : after.Holds i path := by
  obtain ⟨m, member, same⟩ := holds
  exact ⟨m, grows i member, same⟩

namespace Storage

theorem addModel_grows (i : StorageId) (m : EntityModel) :
    (growing σ ε).Follows (addModel i m) := by
  intro s j
  show s.models j ⊆ setAt s.models i (addDistinct (s.models i) m) j
  by_cases same : j = i
  · rw [same, setAt_self]
    exact subset_addDistinct _ _
  · rw [setAt_of_ne _ _ same]
    exact List.Subset.refl _

private theorem addModel_holds (i : StorageId) (m : EntityModel) (s : State σ ε) :
    ((addModel i m).run s).2.Holds i m.path := by
  obtain ⟨level, member, same⟩ := path_addDistinct (s.models i) m
  exact ⟨level, by rwa [← setAt_self s.models i (addDistinct (s.models i) m)] at member, same⟩

end Storage

namespace Database

/-- The states to which a history of a database leads, from one in which nothing is registered in
it: types are registered in it, it is torn down, storages are given models directly, and other
things happen that leave its registry alone and take no model away from a storage. -/
inductive Grown (db : DatabaseId) : State σ ε → Prop
  | fresh {s : State σ ε} (new : (s.database db).registry = {}) : Grown db s
  | registered {s : State σ ε} (earlier : Grown db s) (type : EntityType ε) (storage : StorageId)
      (alias? : Option String) : Grown db ((registerNode db type storage alias?).run s).2
  | tornDown {s : State σ ε} (earlier : Grown db s) : Grown db ((teardown db).run s).2
  | given {s : State σ ε} (earlier : Grown db s) (storage : StorageId) (m : EntityModel) :
      Grown db ((Storage.addModel storage m).run s).2
  | elsewhere {s after : State σ ε} (earlier : Grown db s)
      (registry : (after.database db).registry = (s.database db).registry)
      (grows : (growing σ ε).leads s after) : Grown db after

def Housed (db : DatabaseId) (s : State σ ε) : Prop :=
  ∀ key record, (s.database db).registry.record? key = some record →
    s.Holds record.storage record.model.path

variable {db : DatabaseId} {s : State σ ε}

theorem Housed.elsewhere {after : State σ ε} (housed : Housed db s)
    (registry : (after.database db).registry = (s.database db).registry)
    (grows : (growing σ ε).leads s after) : Housed db after := by
  intro key record found
  rw [registry] at found
  exact (housed key record found).grown grows

private theorem housed_of_empty (new : (s.database db).registry = {}) : Housed db s := by
  intro key record found
  rw [new] at found
  cases found

/-- Registering changes nothing that matters here, or it enters the type in the registry and gives
its model to the storage. -/
theorem registerNode_cases (db : DatabaseId) (type : EntityType ε) (storage : StorageId)
    (alias? : Option String) (s : State σ ε) {after : State σ ε}
    (ran : ((registerNode db type storage alias?).run s).2 = after) :
    (growing σ ε).leads s after ∧
      ((after.database db).registry = (s.database db).registry ∨
        after.Holds storage type.model.path ∧ ∃ node,
          (s.database db).registry.insert ⟨s.managerCount, type, storage⟩ alias? =
            .ok (node, (after.database db).registry)) := by
  subst ran
  rw [registerNode, Engine.run_bind, Engine.run_bind]
  dsimp only
  split
  · exact ⟨(growing σ ε).refl _, .inl rfl⟩
  · rename_i node registry inserted
    refine ⟨Storage.addModel_grows storage type.model s, .inr ⟨?_, node, ?_⟩⟩
    · exact Storage.addModel_holds storage type.model s
    · have entered :
          (setAt s.database db { s.database db with registry } db).registry = registry := by
        rw [setAt_self]
      exact inserted.trans (congrArg (fun r => Except.ok (node, r)) entered.symm)

private theorem Housed.registered (housed : Housed db s) (type : EntityType ε) (storage : StorageId)
    (alias? : Option String) : Housed db ((registerNode db type storage alias?).run s).2 := by
  obtain ⟨grows, same | ⟨holds, node, inserted⟩⟩ := registerNode_cases db type storage alias? s rfl
  · exact housed.elsewhere same grows
  · obtain ⟨-, -, -, types, -⟩ := Registry.insert_ok inserted
    intro key record found
    rw [Registry.record?, types, Assoc.lookup_put] at found
    split at found
    · cases found
      exact holds
    · exact (housed key record found).grown grows

private theorem Grown.housed (grown : Grown db s) : Housed db s := by
  induction grown with
  | fresh new => exact housed_of_empty new
  | registered _ type storage alias? ih => exact ih.registered type storage alias?
  | tornDown _ _ => exact housed_of_empty (congrArg Database.registry (setAt_self _ _ _))
  | given _ storage m ih => exact ih.elsewhere rfl (Storage.addModel_grows storage m _)
  | elsewhere _ registry grows ih => exact ih.elsewhere registry grows

end Database

namespace Migration

variable {db : DatabaseId} {s : State σ ε} {c : ModelChange}

/-- Whatever it is asked, the participant takes no model away from a storage. -/
def Slot.OnlyAdds (slot : Slot σ ε) : Prop :=
  ∀ (ask : Ask) unitName, (growing σ ε).Tries (ask.of unitName slot)

theorem Provider.Usual.onlyAdds {env : Setting σ} {i : StorageId} {number : Nat} {table : String}
    {slot : Slot σ ε} (usual : slot.provider.Usual env i number table) : slot.OnlyAdds := by
  have still : ∀ s : State σ ε, (growing σ ε).leads s s := (growing σ ε).refl
  intro ask unitName
  refine usual.tries ⟨⟨fun _ _ => still, fun _ => still⟩, fun _ => still, fun _ => still⟩ fun _ =>
    ⟨⟨still, fun _ => still, fun _ _ _ => still, still, still, still⟩, fun _ => still, still⟩

/-- A call of a conversation is made to a participant; where reports and participants go along a
route, it has led there until then. -/
theorem Conversation.at_call {R : Route σ ε} (reports : ∀ s t, R.leads s (s.reported t))
    {ps : List (Slot σ ε)} {unitName : String} {after : State σ ε} {said : List (Exchange σ ε)}
    (follows : ∀ slot ∈ ps, ∀ ask : Ask, R.Tries (ask.of unitName slot))
    (talk : Conversation ps unitName s said after) {x : Exchange σ ε} (member : x ∈ said) :
    (∃ slot, ps[x.who]? = some slot) ∧ R.leads s x.before := by
  obtain ⟨earlier, later, rfl⟩ := List.append_of_mem member
  obtain ⟨begun, ⟨slot, here, -⟩, -⟩ := talk.around
  exact ⟨⟨slot, here⟩, begun.leads reports fun y _ slot there ran =>
    Route.leads_of_ran (follows slot (List.mem_of_getElem? there) y.ask) ran⟩

namespace Migrator

private theorem storageFor_ok {m : Migrator σ ε} {registry : Registry ε} {unitName : String}
    {storage : StorageId} (found : m.storageFor registry unitName c = .ok storage) :
    ∃ record, registry.recordAt? c.path = some record ∧ record.storage = storage ∧
      ∃ slot ∈ m.slots, slot.storage = storage := by
  unfold storageFor at found
  cases known : registry.recordAt? c.path with
  | none =>
      rw [known] at found
      cases found
  | some record =>
      rw [known, Option.map_some] at found
      dsimp only at found
      split at found
      · next stands =>
          cases found
          obtain ⟨slot, member, same⟩ := List.any_eq_true.1 stands
          exact ⟨record, rfl, rfl, slot, member, of_decide_eq_true same⟩
      · cases found

/-- The storage on which the type of a pending model is registered takes part. -/
theorem home_participates (m : Migrator σ ε) (u : MigrationUnit)
    (pending : c ∈ u.plan.pendingModels) (inhabited : m.participantsAt db u s ≠ []) :
    ∃ record, (s.database db).registry.recordAt? c.path = some record ∧
      ∃ home ∈ m.participantsAt db u s, home.storage = record.storage := by
  unfold participantsAt at inhabited ⊢
  cases chosen : m.participants (s.database db).registry u.name u.plan with
  | error e =>
      rw [chosen] at inhabited
      exact (inhabited rfl).elim
  | ok slots =>
      rw [participants] at chosen
      obtain ⟨storages, wanted, whole⟩ := Sql.of_bind_ok chosen
      cases whole
      obtain ⟨storage, among, gives⟩ := Sql.exists_of_mapM wanted pending
      obtain ⟨record, known, rfl, home, member, same⟩ := storageFor_ok gives
      refine ⟨record, known, home, List.mem_filter.2 ⟨member, ?_⟩, same⟩
      rw [same, List.contains_iff_mem.2 among, Bool.or_true]

/-- A change of a model is made at its home, that is by the provider of the storage on which the
type of its path is registered, just if no participant before the home holds a model of that path.
Where the path is only an alias of that type, the home also has to hold a model of that path, or to
be the first participant where none does. This is so after every history of the database, and for
all pending models of every unit that finds its participants. -/
theorem applied_at_home (grown : Database.Grown db s) {m : Migrator σ ε}
    (adds : ∀ slot ∈ m.slots, slot.OnlyAdds) (u : MigrationUnit) :
    ∃ said, Conversation (m.participantsAt db u s) u.name s said ((m.runUnit db u).run.run s).2 ∧
      Orderly (m.participantsAt db u s).length u.plan.pendingModels said
        ((m.runUnit db u).run.run s).1 ∧
      ∀ x ∈ said, ∀ c, x.ask = .apply c → c ∈ u.plan.pendingModels ∧
        ∃ record k home, (s.database db).registry.recordAt? c.path = some record ∧
          (s.database db).registry.storageOf c.path = .ok home.storage ∧
          (m.participantsAt db u s)[k]? = some home ∧
          (x.who = k ↔ (∀ j < k, ¬ HoldsAt (m.participantsAt db u s) x.before c.model j) ∧
            (record.model.path = c.path ∨ HoldsAt (m.participantsAt db u s) x.before c.model k ∨
              k = 0 ∧ ∀ j, ¬ HoldsAt (m.participantsAt db u s) x.before c.model j)) := by
  obtain ⟨said, talk, went, fits⟩ := m.runUnit_fits db u s
  refine ⟨said, talk, went.orderly, fun x member c ask => ?_⟩
  obtain ⟨pending, chosen⟩ := fits x member c ask
  have follows : ∀ slot ∈ m.participantsAt db u s, ∀ ask : Ask,
      (growing σ ε).Tries (ask.of u.name slot) := fun slot inside ask =>
    adds slot ((m.participantsAt_sublist db u s).subset inside) ask u.name
  obtain ⟨⟨slot, there⟩, grows⟩ := talk.at_call (fun s _ => (growing σ ε).refl s) follows member
  have inhabited : m.participantsAt db u s ≠ [] :=
    List.ne_nil_of_mem (List.mem_of_getElem? there)
  obtain ⟨record, found, home, among, same⟩ := m.home_participates u pending inhabited
  obtain ⟨k, here⟩ := List.mem_iff_getElem?.1 among
  have storage : (s.database db).registry.storageOf c.path = .ok home.storage := by
    rw [Registry.storageOf, found, same]
  -- The home was given the model when its type was registered, and no participant takes it away.
  have held (own : record.model.path = c.path) :
      HoldsAt (m.participantsAt db u s) x.before c.model k := by
    obtain ⟨key, -, listed⟩ := Option.bind_eq_some_iff.1 found
    have housed := grown.housed key record listed
    rw [own, ← same] at housed
    exact ⟨home, here, State.holds_iff.1 (housed.grown grows)⟩
  refine ⟨pending, record, k, home, found, storage, here, ?_, fun ⟨first, holds⟩ => ?_⟩
  · rintro rfl
    exact ⟨chosen.first, .inr chosen.holds⟩
  · refine chosen.unique ⟨?_, first⟩
    rcases holds with own | holds
    · exact .inl (held own)
    · exact holds

end Migrator

def idle : Provider Unit Record where
  name := "idle"
  prepare := pure ()
  can _ := pure true
  save _ := pure ()
  beforeUp := pure ()
  afterUp _ := pure ()
  apply _ := pure ()

def twoStorages : Migrator Unit Record where
  config := {}
  slots := [⟨0, idle⟩, ⟨1, idle⟩]

theorem idle_follows (R : Route Unit Record) (records : ∀ e : Event, R.Follows (Engine.record e))
    {slot : Slot Unit Record} (member : slot ∈ twoStorages.slots) (ask : Ask) (unitName : String) :
    R.Tries (ask.of unitName slot) := by
  have does : slot.provider = idle := by
    rcases List.mem_cons.1 member with rfl | second
    · rfl
    · rw [List.mem_singleton.1 second]
  refine Ask.tries_of ?_ fun e _ => records e
  rw [does]
  cases ask <;> exact R.manner.tries_pure true

private theorem twoStorages_onlyAdds : ∀ slot ∈ twoStorages.slots, slot.OnlyAdds :=
  fun _ member ask unitName =>
    idle_follows (growing Unit Record) (fun _ s => (growing Unit Record).refl s) member ask unitName

def unsettled : State Unit Record where
  outside := ()

def settling (s : State Unit Record) (home : StorageId) : State Unit Record :=
  let shelved := ((Database.registerNode 0 (Record.entityType ⟨0⟩ Lending.book) 0 none).run s).2
  ((Database.registerNode 0 (Record.entityType ⟨1⟩ Lending.person) home none).run shelved).2

theorem settling_grown {s : State Unit Record} (grown : Database.Grown 0 s) (home : StorageId) :
    Database.Grown 0 (settling s home) :=
  (grown.registered _ 0 none).registered _ home none

theorem unsettled_grown : Database.Grown 0 unsettled :=
  .fresh rfl

def settled : State Unit Record :=
  settling unsettled 1

theorem settled_grown : Database.Grown 0 settled :=
  settling_grown unsettled_grown 1

def founding : MigrationUnit where
  name := "001"
  declarations := [⟨Lending.book, .create, []⟩, ⟨Lending.person, .create, []⟩]

def holding (σ ε : Type) : Route σ ε where
  leads s after := after.models = s.models
  refl _ := rfl
  trans first second := second.trans first

/-- Persons are made on the second storage: only books are known on the first one. -/
theorem persons_made_at_home :
    ∃ said, Conversation twoStorages.slots "001" settled said
        ((twoStorages.runUnit 0 founding).run.run settled).2 ∧
      (said.filter (·.ask.isApply)).map Exchange.ask = founding.plan.pendingModels.map Ask.apply ∧
      ∀ x ∈ said, ∀ c, x.ask = .apply c → c.path = "person" → x.who = 1 := by
  obtain ⟨said, talk, orderly, homes⟩ :=
    Migrator.applied_at_home settled_grown twoStorages_onlyAdds founding
  have ran : ((twoStorages.runUnit 0 founding).run.run settled).1 = .ok true := rfl
  obtain ⟨⟨last, closing, closes⟩, -⟩ := orderly.reported.1 ran
  refine ⟨said, talk, ((orderly.told closing closes).1.1 rfl).applied, ?_⟩
  intro x member c ask isPerson
  obtain ⟨-, record, k, home, found, storage, here, atHome⟩ := homes x member c ask
  rw [isPerson] at found storage atHome
  have second : home.storage = 1 := Except.ok.inj (storage.symm.trans (b := .ok 1) rfl)
  have placed : k = 1 := by
    match k, here with
    | 0, first =>
        cases first
        cases second
    | 1, _ => rfl
  have own : ((settled.database 0).registry.recordAt? "person").map (·.model.path) =
      some "person" := rfl
  rw [found] at own
  subst placed
  refine atHome.2 ⟨fun j before => ?_, .inl (Option.some.inj own)⟩
  obtain rfl : j = 0 := Nat.lt_one_iff.1 before
  -- The first storage still holds what it held when the unit began.
  rintro ⟨slot, first, holds⟩
  cases first
  have held : x.before.models = settled.models :=
    (talk.at_call (R := holding Unit Record) (fun _ _ => rfl)
      (fun _ there ask => idle_follows _ (fun _ _ => rfl) there ask "001") member).2
  obtain ⟨m, known, same⟩ := State.holds_iff.2 holds
  rw [held] at known
  cases List.mem_singleton.1 known
  exact absurd (same.trans isPerson) (by decide)

def appliedOn? : Event → Option (StorageId × String)
  | .unitCall i (.apply path) true => some (i, path)
  | _ => none

def visited : State Unit Record :=
  ((Storage.addModel 0 Lending.person).run settled).2

def moved : State Unit Record :=
  settling ((Database.teardown 0).run (settling unsettled 0)).2 1

/-- A history by which persons are at home on the second storage, where the unit makes them on the
first one. -/
def MadeElsewhere (s : State Unit Record) : Prop :=
  Database.Grown 0 s ∧ (s.database 0).registry.storageOf "person" = .ok 1 ∧
    ((twoStorages.runUnit 0 founding).run.run s).1 = .ok true ∧
    ((twoStorages.runUnit 0 founding).run.run s).2.trail.toList.filterMap appliedOn? =
      [(0, "book"), (0, "person")]

/-- It is enough that the first storage holds a model of persons too, or still. -/
theorem persons_made_elsewhere : MadeElsewhere visited ∧ MadeElsewhere moved :=
  ⟨⟨settled_grown.given 0 Lending.person, rfl, rfl, rfl⟩,
    ⟨settling_grown (settling_grown unsettled_grown 0).tornDown 1, rfl, rfl, rfl⟩⟩

end Migration

end EntityStore
