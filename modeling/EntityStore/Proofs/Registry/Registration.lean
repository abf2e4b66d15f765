import Mathlib.Data.List.Nodup
import EntityStore.Database.Basic
import EntityStore.Entity.Record
import EntityStore.Proofs.Engine.Run
import EntityStore.Proofs.Model.Inheritance
import EntityStore.Proofs.Registry.Naming

/-!
Sequences of registrations. A registration writes to five tables: the forest, the records, the names,
the storages in use and the models of one storage, which other registries may share. It writes to all
of them or to none, and the tables tell the same after any sequence of registrations, refused ones
included.
-/

namespace EntityStore

variable {σ ε : Type}

/-! ### Tables that only grow -/

private theorem eraseDups_snoc {α : Type} [BEq α] [LawfulBEq α] (l : List α) (a : α) :
    (l ++ [a]).eraseDups = if l.contains a then l.eraseDups else l.eraseDups ++ [a] := by
  rw [List.eraseDups_append]
  by_cases known : a ∈ l <;> simp [List.removeAll, List.eraseDups_cons, known]

namespace Registry

variable {r after : Registry ε} {m : Manager ε} {alias? : Option String} {node : Nat}

/-- What else is so of a registration that succeeds: no parent is registered elsewhere, and the storage
comes last of those in use unless it was in use before. -/
theorem insert_storages (inserted : r.insert m alias? = .ok (node, after)) :
    r.parentElsewhere? m.type.model m.storage = none ∧
      after.storages = if r.storages.contains m.storage then r.storages
        else r.storages ++ [m.storage] := by
  unfold insert at inserted
  dsimp only at inserted
  cases elsewhere : r.parentElsewhere? m.type.model m.storage with
  | some parent =>
      rw [elsewhere] at inserted
      cases inserted
  | none =>
      rw [elsewhere] at inserted
      cases grown : r.forest.insert m.type.model alias? with
      | error e =>
          rw [grown] at inserted
          cases inserted
      | ok found =>
          rw [grown] at inserted
          cases inserted
          exact ⟨rfl, rfl⟩

private theorem storage_of_parentElsewhere {model parent : EntityModel} {storage : StorageId}
    {above : TypeRecord ε} (nowhere : r.parentElsewhere? model storage = none)
    (extended : model.parent? = some parent) (found : r.recordAt? parent.path = some above) :
    above.storage = storage := by
  simp only [parentElsewhere?, extended, found] at nowhere
  by_contra elsewhere
  rw [if_neg elsewhere] at nowhere
  cases nowhere

variable {F : TypeFamily ε} {key : TypeKey} {parent? : Option Nat}

private theorem Entered.recordAt_old (coherent : Coherent F r)
    (entered : Entered r after key m alias? parent?) {name : String} {record : TypeRecord ε}
    (found : r.recordAt? name = some record) : after.recordAt? name = some record := by
  obtain ⟨other, listed, known⟩ := Option.bind_eq_some_iff.1 found
  have old : name ∉ m.type.model.path :: alias?.toList := by
    intro new
    have placed := coherent.placed name
    rw [entered.unplaced new, listed] at placed
    cases placed
  rw [recordAt?, entered.lookup, if_neg old, listed, Option.bind_some]
  exact entered.record_old known

private theorem Entered.path_new (coherent : Coherent F r)
    (entered : Entered r after key m alias? parent?)
    {other : TypeKey} {record : TypeRecord ε} (found : r.record? other = some record) :
    ¬ record.model.same m.type.model := by
  intro same
  have listed := (coherent.named m.type.model.path other).2
    ⟨record, found, eq_of_beq same ▸ List.mem_cons_self⟩
  have placed := coherent.placed m.type.model.path
  rw [entered.unplaced List.mem_cons_self, listed] at placed
  cases placed

private theorem Entered.parent_known (coherent : Coherent F r)
    (entered : Entered r after key m alias? parent?) {parent : EntityModel}
    (extended : m.type.model.parent? = some parent) :
    ∃ above, r.recordAt? parent.path = some above := by
  have sought := entered.parent
  rw [extended, Option.map_some] at sought
  obtain ⟨p, -, found⟩ := Option.map_eq_some_iff.1 sought.symm
  have placed := coherent.placed parent.path
  rw [← found, Option.isSome_some] at placed
  obtain ⟨other, listed⟩ := Option.isSome_iff_exists.1 placed.symm
  obtain ⟨above, known, -⟩ := (coherent.named _ _).1 listed
  exact ⟨above, by rw [recordAt?, listed, Option.bind_some, known]⟩

end Registry

/-! ### Registrations -/

structure Registration where
  key : TypeKey
  storage : StorageId
  alias? : Option String := none

structure Enrolment (σ ε : Type) where
  state : State σ ε
  accepted : List Registration := []

namespace Registration

variable (F : TypeFamily ε) (db : DatabaseId)

def perform (c : Registration) (s : State σ ε) : Except RegistryError Nat × State σ ε :=
  (Database.registerNode db (F.type c.key) c.storage c.alias?).run s

def enrol (e : Enrolment σ ε) (c : Registration) : Enrolment σ ε where
  state := (c.perform F db e.state).2
  accepted := if (c.perform F db e.state).1.isOk then e.accepted ++ [c] else e.accepted

def enrolAll (calls : List Registration) (s : State σ ε) : Enrolment σ ε :=
  calls.foldl (enrol F db) { state := s }

variable {F db} {c : Registration} {s : State σ ε}

/-- A registration is refused and changes neither databases nor models, or it is accepted and changes
one registry and the models of one storage. -/
theorem perform_cases (F : TypeFamily ε) (db : DatabaseId) (c : Registration) (s : State σ ε) :
    (∃ e, (c.perform F db s).1 = .error e ∧ (c.perform F db s).2.database = s.database ∧
      (c.perform F db s).2.models = s.models) ∨
    ∃ node registry, (s.database db).registry.insert ⟨s.managerCount, F.type c.key, c.storage⟩ c.alias? =
        .ok (node, registry) ∧
      (c.perform F db s).1 = .ok node ∧
      ((c.perform F db s).2.database db).registry = registry ∧
      (c.perform F db s).2.models = setAt s.models c.storage
        (Storage.addDistinct (s.models c.storage) (F.type c.key).model) := by
  unfold perform Database.registerNode
  rw [Engine.run_bind, Engine.run_bind]
  dsimp only
  split
  · exact .inl ⟨_, rfl, rfl, rfl⟩
  · rename_i node registry inserted
    refine .inr ⟨node, registry, inserted, rfl, ?_, rfl⟩
    exact congrArg Database.registry (setAt_self s.database db { s.database db with registry })

private theorem added_or_same {models given : StorageId → List EntityModel} {i : StorageId}
    {m : EntityModel}
    (gives : given = setAt models i (Storage.addDistinct (models i) m)) :
    m ∈ given i ∨ ∃ other ∈ models i, other.same m := by
  rw [gives, setAt_self, Storage.addDistinct]
  split
  · next known =>
      exact .inr (List.any_eq_true.1 known)
  · exact .inl (List.mem_append_right _ (List.mem_singleton_self m))

private theorem mem_given {models : StorageId → List EntityModel} {i j : StorageId}
    {m other : EntityModel}
    (member : other ∈ setAt models i (Storage.addDistinct (models i) m) j) :
    other ∈ models j ∨ j = i ∧ other = m := by
  by_cases same : j = i
  · rw [same, setAt_self, Storage.addDistinct] at member
    rw [same]
    split at member
    · exact .inl member
    · exact (List.mem_append.1 member).imp_right fun last => ⟨rfl, List.mem_singleton.1 last⟩
  · rw [setAt_of_ne _ _ same] at member
    exact .inl member

private theorem given_of_mem {models : StorageId → List EntityModel} {i j : StorageId}
    {m other : EntityModel}
    (member : other ∈ models j) : other ∈ setAt models i (Storage.addDistinct (models i) m) j := by
  by_cases same : j = i
  · rw [same, setAt_self, Storage.addDistinct]
    rw [same] at member
    split
    · exact member
    · exact List.mem_append_left _ member
  · rwa [setAt_of_ne _ _ same]

private theorem enrolAll_snoc (calls : List Registration) (c : Registration) (s : State σ ε) :
    enrolAll F db (calls ++ [c]) s = enrol F db (enrolAll F db calls s) c :=
  List.foldl_append ..

/-! ### Agreement -/

/-- The tables of a registry and the models of the storages tell the same of what was registered. Before
the first registration the storages held `held`. -/
structure Agree (F : TypeFamily ε) (held : StorageId → List EntityModel) (e : Enrolment σ ε)
    (r : Registry ε) : Prop extends r.Coherent F where
  recorded : r.types.map (fun entry => (entry.1, entry.2.storage)) =
    e.accepted.map (fun c => (c.key, c.storage))
  distinct : (r.types.map (·.1)).Nodup
  numbered : r.types.map (·.2.node) = List.range r.forest.size
  pointed {name : String} {key : TypeKey} (listed : r.paths.lookup name = some key) :
    ∃ record node, r.record? key = some record ∧ r.forest.find? name = some record.node ∧
      r.forest.node? record.node = some node ∧ node.model = record.model
  modelled {key : TypeKey} {record : TypeRecord ε} (found : r.record? key = some record) :
    record.model ∈ e.state.models record.storage ∨
      ∃ m ∈ held record.storage, m ∈ e.state.models record.storage ∧ m.same record.model
  holds {i : StorageId} {m : EntityModel} (member : m ∈ e.state.models i) :
    m ∈ held i ∨ ∃ key record, r.record? key = some record ∧ record.storage = i ∧ record.model = m
  storages : r.storages = (r.types.map (·.2.storage)).eraseDups
  unrepeated : r.storages.Nodup
  together {key : TypeKey} {record : TypeRecord ε} {parent : EntityModel}
    (found : r.record? key = some record) (extended : record.model.parent? = some parent) :
    ∃ above, r.recordAt? parent.path = some above ∧ above.storage = record.storage

variable {held : StorageId → List EntityModel} {e : Enrolment σ ε} {r after : Registry ε}
  {number node : Nat}

private theorem Agree.empty (F : TypeFamily ε) (s : State σ ε) :
    Agree F s.models { state := s } ({} : Registry ε) where
  toCoherent := .empty F
  recorded := rfl
  distinct := List.nodup_nil
  numbered := rfl
  pointed listed := by cases listed
  modelled found := by cases found
  holds member := .inl member
  storages := rfl
  unrepeated := List.nodup_nil
  together found _ := by cases found

/-- What is entered in a registry is entered in all tables. -/
theorem Agree.accepted (agree : Agree F held e r) {s : State σ ε}
    (inserted : r.insert ⟨number, F.type c.key, c.storage⟩ c.alias? = .ok (node, after))
    (models : s.models = setAt e.state.models c.storage
      (Storage.addDistinct (e.state.models c.storage) (F.type c.key).model)) :
    Agree F held ⟨s, e.accepted ++ [c]⟩ after := by
  obtain ⟨nowhere, storages⟩ := Registry.insert_storages inserted
  obtain ⟨parent?, entered⟩ := agree.toCoherent.entered rfl inserted
  have onceOnly : r.storages.contains c.storage = (r.types.map (·.2.storage)).contains c.storage := by
    rw [agree.storages, Bool.eq_iff_iff, List.contains_iff_mem, List.contains_iff_mem,
      List.mem_eraseDups]
  constructor
  case toCoherent => exact agree.toCoherent.insert rfl inserted
  case recorded => rw [entered.types, List.map_append, agree.recorded, List.map_append]; rfl
  case distinct =>
      have apart : c.key ∉ r.types.map (·.1) := by
        intro listed
        obtain ⟨entry, member, same⟩ := List.mem_map.1 listed
        exact bne_iff_ne.1 (List.lookup_eq_none_iff.1 entered.unknown entry member) same.symm
      rw [entered.types, List.map_append]
      exact agree.distinct.append (List.nodup_singleton _) (List.disjoint_singleton.2 apart)
  case numbered =>
      rw [entered.types, List.map_append, agree.numbered, entered.forest, Forest.size_append,
        List.range_succ]
      rfl
  case pointed =>
      intro name key listed
      rw [entered.lookup] at listed
      split at listed
      · next new =>
          cases listed
          refine ⟨_, _, (entered.record _).trans (if_pos rfl), ?_,
            entered.forest ▸ Forest.node?_append_new parent?, rfl⟩
          rw [entered.forest, Forest.find?_append, entered.unplaced new, if_pos new]
          rfl
      · obtain ⟨record, found, known, placed, there, same⟩ := agree.pointed listed
        obtain ⟨added, still⟩ := Forest.node?_append_old there (F.type c.key).model c.alias? parent?
        refine ⟨record, { found with children := found.children ++ added },
          entered.record_old known, ?_, entered.forest ▸ still, same⟩
        rw [entered.forest, Forest.find?_append, placed]
        rfl
  case modelled =>
      intro key record found
      rcases entered.record_cases found with ⟨-, rfl⟩ | earlier
      · refine (added_or_same models).imp_right fun ⟨m, member, same⟩ => ?_
        rcases agree.holds member with before | ⟨other, record, known, -, rfl⟩
        · exact ⟨m, before, models ▸ given_of_mem member, same⟩
        · exact absurd same (entered.path_new agree.toCoherent known)
      · rw [models]
        exact (agree.modelled earlier).imp given_of_mem fun ⟨m, before, member, same⟩ =>
          ⟨m, before, given_of_mem member, same⟩
  case holds =>
      intro i m member
      rw [models] at member
      rcases mem_given member with before | ⟨rfl, rfl⟩
      · refine (agree.holds before).imp_right fun ⟨key, record, known, placed⟩ => ?_
        exact ⟨key, record, entered.record_old known, placed⟩
      · exact .inr ⟨c.key, _, (entered.record _).trans (if_pos rfl), rfl, rfl⟩
  case storages =>
      rw [storages, entered.types, List.map_append, List.map_cons, List.map_nil, eraseDups_snoc,
        ← onceOnly, agree.storages]
  case unrepeated =>
      rw [storages]
      split
      · exact agree.unrepeated
      · next fresh =>
          have new : c.storage ∉ r.storages := fun member => fresh (List.contains_iff_mem.2 member)
          exact agree.unrepeated.append (List.nodup_singleton _) (List.disjoint_singleton.2 new)
  case together =>
      intro key record parent found extended
      rcases entered.record_cases found with ⟨-, rfl⟩ | earlier
      · obtain ⟨above, known⟩ := entered.parent_known agree.toCoherent extended
        exact ⟨above, entered.recordAt_old agree.toCoherent known,
          Registry.storage_of_parentElsewhere nowhere extended known⟩
      · obtain ⟨above, known, same⟩ := agree.together earlier extended
        exact ⟨above, entered.recordAt_old agree.toCoherent known, same⟩

private theorem Agree.elsewhere (agree : Agree F held e r) {s : State σ ε}
    (models : s.models = e.state.models) : Agree F held ⟨s, e.accepted⟩ r :=
  { agree with
    modelled := fun found => models ▸ agree.modelled found
    holds := fun member => agree.holds (models ▸ member) }

private theorem Agree.enrol (agree : Agree F held e (e.state.database db).registry)
    (c : Registration) :
    Agree F held (enrol F db e c) ((enrol F db e c).state.database db).registry := by
  unfold Registration.enrol
  rcases perform_cases F db c e.state with ⟨_, refused, databases, models⟩ |
    ⟨node, registry, inserted, answer, entered, models⟩
  · rw [refused, databases]
    exact agree.elsewhere models
  · rw [answer, entered]
    exact agree.accepted inserted models

/-- **Registrations keep the tables in agreement.** From a registry in which nothing is registered,
whatever was registered, accepted or not, the tables of the registry and the models of the storages agree,
and one more registration either is accepted or leaves all of them as they are. -/
theorem enrolAll_agree (F : TypeFamily ε) (db : DatabaseId) {s : State σ ε}
    (new : (s.database db).registry = {}) (calls : List Registration) :
    let e := enrolAll F db calls s
    Agree F s.models e (e.state.database db).registry ∧
      ∀ (c : Registration) (error : RegistryError), (c.perform F db e.state).1 = .error error →
        (c.perform F db e.state).2.database = e.state.database ∧
          (c.perform F db e.state).2.models = e.state.models := by
  refine ⟨?_, fun c error refused => ?_⟩
  · induction calls using List.reverseRecOn with
    | nil =>
        show Agree F s.models { state := s } (s.database db).registry
        rw [new]
        exact .empty F s
    | append_singleton calls c ih =>
        rw [enrolAll_snoc]
        exact ih.enrol c
  · rcases perform_cases F db c (enrolAll F db calls s).state with ⟨_, -, databases, models⟩ |
      ⟨node, _, -, answer, -⟩
    · exact ⟨databases, models⟩
    · rw [answer] at refused
      cases refused

/-! ### A staff -/

def staffTypes : TypeFamily Record where
  type key := Record.entityType key
    (if key.number = 0 then Forest.person else if key.number = 1 then Forest.employee else Forest.tag)
  keyed _ := rfl

def staffCalls : List Registration :=
  [⟨⟨1⟩, 0, none⟩, ⟨⟨0⟩, 0, some "people"⟩, ⟨⟨1⟩, 1, none⟩, ⟨⟨1⟩, 0, none⟩,
    ⟨⟨2⟩, 1, some "w::Person"⟩, ⟨⟨2⟩, 1, none⟩]

def unstaffed : State Unit Record where
  outside := ()

theorem staff_agree :
    (unstaffed.database 0).registry = {} ∧
      (enrolAll staffTypes 0 staffCalls unstaffed).accepted.map (·.key.number) = [0, 1, 2] ∧
      Agree staffTypes unstaffed.models (enrolAll staffTypes 0 staffCalls unstaffed)
        ((enrolAll staffTypes 0 staffCalls unstaffed).state.database 0).registry :=
  ⟨rfl, by decide, (enrolAll_agree staffTypes 0 rfl staffCalls).1⟩

end Registration

end EntityStore
