import EntityStore.Proofs.Migration.Fate
import EntityStore.Entity.Record

/-!
Histories of migrations. Units are run again and again on the same storages, with failures at any
point. Every attempt at a unit leaves its storages at rest, so what is true of one attempt is true
all along: a unit is recorded where its changes last, it is recorded once, and it is not run again.
-/

namespace EntityStore.Migration

open Manner

variable {σ ε α : Type}

/-! ### Attempts -/

/-- An attempt to run a unit, with its result and the states before and after. -/
structure Attempted (σ ε : Type) where
  unit : MigrationUnit
  before : State σ ε
  result : Except EngineError Bool
  after : State σ ε

namespace Attempted

def applied (a : Attempted σ ε) : Bool :=
  match a.result with
  | .ok applied => applied
  | .error _ => false

def appliedNames (attempts : List (Attempted σ ε)) : List String :=
  (attempts.filter applied).map (·.unit.name)

end Attempted

/-- Units are attempted in order, up to the first that fails. -/
inductive Migrator.Goes (m : Migrator σ ε) (db : DatabaseId) :
    List MigrationUnit → State σ ε → List (Attempted σ ε) → State σ ε → Prop
  | done (s : State σ ε) : Goes m db [] s [] s
  | failed {a : Attempted σ ε} {rest : List MigrationUnit} {e : EngineError} (t : Trace)
      (ran : (m.runUnit db a.unit).run.run a.before = (a.result, a.after))
      (failed : a.result = .error e) : Goes m db (a.unit :: rest) a.before [a] (a.after.reported t)
  | went {a : Attempted σ ε} {rest : List MigrationUnit} {applied : Bool}
      {attempts : List (Attempted σ ε)} {after : State σ ε}
      (ran : (m.runUnit db a.unit).run.run a.before = (a.result, a.after))
      (went : a.result = .ok applied) (others : Goes m db rest a.after attempts after) :
      Goes m db (a.unit :: rest) a.before (a :: attempts) after

private theorem Migrator.Goes.stops {m : Migrator σ ε} {db : DatabaseId} {units : List MigrationUnit}
    {s after : State σ ε} {attempts : List (Attempted σ ε)}
    (goes : m.Goes db units s attempts after) {earlier later : List (Attempted σ ε)}
    {a : Attempted σ ε} (split : attempts = earlier ++ a :: later) {e : EngineError}
    (failed : a.result = .error e) : later = [] := by
  induction goes generalizing earlier with
  | done s => simp at split
  | failed t ran failed' =>
      cases earlier with
      | nil =>
          cases split
          rfl
      | cons b rest =>
          cases rest <;> cases split
  | went ran went others ih =>
      cases earlier with
      | nil =>
          cases split
          rw [went] at failed
          cases failed
      | cons b rest =>
          cases split
          exact ih rfl

/-- Running units is attempting them in order; the names of those that count as applied are
returned. -/
theorem Migrator.runUnits_goes (m : Migrator σ ε) (db : DatabaseId) (units : List MigrationUnit)
    (s : State σ ε) : ∃ attempts, m.Goes db units s attempts ((m.runUnits db units).run s).2 ∧
      ((m.runUnits db units).run s).1.1 = Attempted.appliedNames attempts := by
  induction units generalizing s with
  | nil => exact ⟨[], .done s, rfl⟩
  | cons u rest ih =>
      rw [runUnits, Engine.run_bind]
      cases ran : (m.runUnit db u).run.run s with
      | mk result middle =>
          cases result with
          | error e =>
              let a : Attempted σ ε := ⟨u, s, .error e, middle⟩
              exact ⟨[a], .failed (a := a) _ ran rfl, rfl⟩
          | ok applied =>
              obtain ⟨attempts, goes, names⟩ := ih middle
              let a : Attempted σ ε := ⟨u, s, .ok applied, middle⟩
              refine ⟨a :: attempts, .went (a := a) ran rfl goes, ?_⟩
              dsimp only
              rw [Engine.run_bind, Engine.run_pure]
              dsimp only
              rw [names]
              cases applied <;> rfl

/-! ### Order -/

private theorem nodup_of_repeatedName {units : List MigrationUnit}
    (sorted : units.Pairwise fun a b => a.name ≤ b.name)
    (single : Migrator.repeatedName? units = none) :
    (units.map MigrationUnit.name).Nodup := by
  induction units with
  | nil => exact List.nodup_nil
  | cons a rest ih =>
      obtain ⟨first, others⟩ := List.pairwise_cons.1 sorted
      cases rest with
      | nil => exact List.nodup_singleton _
      | cons b rest =>
          rw [Migrator.repeatedName?] at single
          split at single
          · cases single
          · rename_i apart
            refine List.nodup_cons.2 ⟨fun member => ?_, ih others single⟩
            obtain ⟨c, inside, same⟩ := List.mem_map.1 member
            rcases List.mem_cons.1 inside with rfl | inside
            · exact apart same.symm
            · have above := (List.pairwise_cons.1 others).1 c inside
              rw [same] at above
              exact apart (String.le_antisymm (first b List.mem_cons_self) above)

private theorem nodup_inNameOrder {units : List MigrationUnit}
    (single : Migrator.repeatedName? (Migrator.inNameOrder units) = none) :
    ((Migrator.inNameOrder units).map MigrationUnit.name).Nodup := by
  refine nodup_of_repeatedName (List.Pairwise.imp of_decide_eq_true
    (List.pairwise_mergeSort ?_ ?_ units)) single
  · intro a b c first second
    exact decide_eq_true (String.le_trans (of_decide_eq_true first) (of_decide_eq_true second))
  · intro a b
    rw [Bool.or_eq_true, decide_eq_true_iff, decide_eq_true_iff]
    exact String.le_total a.name b.name

/-! ### States along the way -/

section

variable {env : Setting σ} {table : String} (R : Records env table)

def Records.forward (ε : Type) : Route σ ε where
  leads s after := (∀ i, (s.coordinator i).active? = none) → ∀ i,
    (after.coordinator i).active? = none ∧ R.names s.outside i <+: R.names after.outside i ∧
      ((R.names s.outside i).Nodup → (R.names after.outside i).Nodup)
  refl _ idle i := ⟨idle i, List.prefix_rfl, id⟩
  trans := by
    intro _ _ _ first second idle i
    obtain ⟨idle', grown, once⟩ := second (fun i => (first idle i).1) i
    exact ⟨idle', (first idle i).2.1.trans grown, once ∘ (first idle i).2.2⟩

def Records.calm (ε : Type) : Route σ ε where
  leads s after := after.database = s.database ∧ ∀ i,
    after.coordinator i = s.coordinator i ∧ R.names after.outside i = R.names s.outside i
  refl _ := ⟨rfl, fun _ => ⟨rfl, rfl⟩⟩
  trans first second := ⟨second.1.trans first.1, fun i =>
    ⟨(second.2 i).1.trans (first.2 i).1, (second.2 i).2.trans (first.2 i).2⟩⟩

variable {R} {s after : State σ ε}

theorem Records.forward_of_calm (leads : (R.calm ε).leads s after) :
    (R.forward ε).leads s after := by
  intro idle i
  obtain ⟨coordinator, names⟩ := leads.2 i
  rw [coordinator, names]
  exact ⟨idle i, List.prefix_rfl, id⟩

namespace Records.Settled

variable {i : StorageId} {unitName : String} (settled : R.Settled i unitName s after)

include settled

private theorem names_grow : R.names s.outside i <+: R.names after.outside i := by
  rcases settled.fate.recorded with same | ⟨-, more⟩
  · exact same ▸ List.prefix_rfl
  · rw [more]
    exact List.prefix_append _ _

private theorem nodup (once : (R.names s.outside i).Nodup) : (R.names after.outside i).Nodup := by
  rcases settled.fate.recorded with same | ⟨fresh, more⟩
  · rwa [same]
  · rw [more]
    refine List.nodup_append.2 ⟨once, List.nodup_singleton _, fun a member b single same => ?_⟩
    rw [List.mem_singleton] at single
    exact fresh (single ▸ same ▸ member)

private theorem mem_iff {other : String} (apart : other ≠ unitName) :
    other ∈ R.names after.outside i ↔ other ∈ R.names s.outside i := by
  rcases settled.fate.recorded with same | ⟨-, more⟩
  · rw [same]
  · rw [more, List.mem_append, List.mem_singleton]
    exact or_iff_left apart

end Records.Settled

private theorem Records.forward_of_settled {unitName : String}
    (settled : ∀ i, R.Settled i unitName s after) : (R.forward ε).leads s after :=
  fun _ i => ⟨(settled i).idle, (settled i).names_grow, (settled i).nodup⟩

def databases (σ ε : Type) : Route σ ε where
  leads s after := after.database = s.database
  refl _ := rfl
  trans first second := second.trans first

end

/-! ### Records of units -/

section

variable {env : Setting σ} {table : String} (R : Records env table) (m : Migrator σ ε)
  (db : DatabaseId) (u : MigrationUnit) {s after : State σ ε}

def Migrator.recorded (s : State σ ε) : Bool :=
  match m.participants (s.database db).registry u.name u.plan with
  | .ok slots => slots.all fun slot => decide (u.name ∈ R.names s.outside slot.storage)
  | .error _ => false

variable {R m db u}

private theorem Migrator.mem_of_recorded (recorded : m.recorded R db u s = true) {slot : Slot σ ε}
    (member : slot ∈ m.participantsAt db u s) : u.name ∈ R.names s.outside slot.storage := by
  rw [Migrator.recorded] at recorded
  rw [participantsAt] at member
  cases found : m.participants (s.database db).registry u.name u.plan with
  | error e =>
      rw [found] at recorded
      cases recorded
  | ok slots =>
      rw [found] at recorded member
      exact of_decide_eq_true (List.all_eq_true.1 recorded slot member)

private theorem Migrator.recorded_of_ran {b : Bool} (ran : (m.runUnit db u).run.run s = (.ok b, after))
    (all : ∀ slot ∈ m.participantsAt db u s, u.name ∈ R.names s.outside slot.storage) :
    m.recorded R db u s = true := by
  obtain ⟨d, mid, current, rest⟩ := Attempt.of_run_bind ran
  cases current
  obtain ⟨slots, mid, told, -⟩ := Attempt.of_run_bind rest
  have found := (Attempt.of_ofResult_run told).1
  rw [participantsAt] at all
  rw [Migrator.recorded]
  rw [found] at all ⊢
  exact List.all_eq_true.2 fun slot member => decide_eq_true (all slot member)

theorem Migrator.recorded_congr (database : after.database = s.database)
    (names : ∀ i, u.name ∈ R.names after.outside i ↔ u.name ∈ R.names s.outside i) :
    m.recorded R db u after = m.recorded R db u s := by
  rw [Migrator.recorded, Migrator.recorded, database]
  simp only [names]

end

/-! ### One attempt -/

section

variable {env : Setting σ} {table : String} (R : Records env table) (m : Migrator σ ε)
  (db : DatabaseId)

/-- An attempt has met its fate on every storage. A unit that counts as applied is recorded on all
its participants; a unit that was recorded on all of them does not, and nothing is changed for
it. -/
structure Attempted.Met (a : Attempted σ ε) : Prop where
  ran : (m.runUnit db a.unit).run.run a.before = (a.result, a.after)
  settled (i : StorageId) : R.Settled i a.unit.name a.before a.after
  kept (applied : a.applied = true) (slot : Slot σ ε)
    (member : slot ∈ m.participantsAt db a.unit a.before) :
    a.unit.name ∈ R.names a.after.outside slot.storage
  skipped (recorded : m.recorded R db a.unit a.before = true) :
    a.applied = false ∧ ∀ i, changes (a.before.since i a.after) = []

variable {R m db} {number : StorageId → Nat} {u : MigrationUnit} {s after : State σ ε}

private theorem databases_statements (env : Setting σ) (j : StorageId) :
    (databases σ ε).manner.Statements env j where
  record _ _ _ := rfl
  query _ _ := rfl
  execute _ _ := rfl
  insert _ _ := rfl

private theorem databases_coordinates (env : Setting σ) (j : StorageId) :
    (databases σ ε).manner.Coordinates env j where
  coordinator _ := rfl
  setCoordinator _ _ := rfl
  trace _ _ _ _ := rfl
  begin _ := rfl
  commit _ := rfl
  rollback _ := rfl

private theorem Migrator.Usual.database_same {ps : List (Slot σ ε)} {unitName : String}
    {said : List (Exchange σ ε)} (usual : m.Usual env table number) (among : ps.Sublist m.slots)
    (talk : Conversation ps unitName s said after) : after.database = s.database := by
  refine talk.leads (R := databases σ ε) (fun _ _ => rfl) fun x _ slot here ran => ?_
  have provider := usual.providers slot (among.subset (List.mem_of_getElem? here))
  refine Route.leads_of_ran (provider.tries (databases_statements env slot.storage) fun _ => ?_) ran
  exact ⟨databases_coordinates env slot.storage, fun _ _ => rfl, fun _ => rfl⟩

private theorem Migrator.Usual.met (usual : m.Usual env table number)
    (within : ∀ c ∈ u.plan.pendingModels, c.Within R.other env.schema)
    (idle : ∀ i, (s.coordinator i).active? = none) {result : Except EngineError Bool}
    (ran : (m.runUnit db u).run.run s = (result, after)) :
    Attempted.Met R m db ⟨u, s, result, after⟩ ∧ after.database = s.database ∧
      (result = .ok false → m.recorded R db u s = true) := by
  obtain ⟨said, talk, went⟩ := m.runUnit_converses db u s
  rw [ran] at talk went
  have among := m.participantsAt_sublist db u s
  obtain ⟨all, still⟩ := usual.skipped among R idle talk went
  have settled (i : StorageId) := usual.settled (R := R) among (idle i) talk went within
  have applied {a : Attempted σ ε} (yes : a.applied = true) : a.result = .ok true := by
    rw [Attempted.applied] at yes
    cases same : a.result with
    | ok b =>
        rw [same] at yes
        exact congrArg Except.ok yes
    | error e =>
        rw [same] at yes
        cases yes
  refine ⟨⟨ran, fun i => (settled i).1, fun yes slot member => ?_, fun recorded => ?_⟩,
    usual.database_same among talk, fun skipped => ?_⟩
  · exact (settled slot.storage).2 (applied yes) slot member rfl
  · obtain ⟨notApplied, rests⟩ := still fun slot member => mem_of_recorded recorded member
    refine ⟨Bool.eq_false_iff.2 fun yes => notApplied (applied yes), fun i => ?_⟩
    obtain ⟨-, -, made, quiet, dealings⟩ := rests i (idle i)
    rw [State.since_of_dealings dealings]
    exact changes_quiet quiet
  · subst skipped
    exact recorded_of_ran ran (all rfl)

end

/-! ### Many attempts -/

section

variable {env : Setting σ} {table : String} {R : Records env table} {m : Migrator σ ε}
  {db : DatabaseId} {number : StorageId → Nat} {units : List MigrationUnit}
  {attempts : List (Attempted σ ε)} {s after : State σ ε}

def Migrator.missing (R : Records env table) (m : Migrator σ ε) (db : DatabaseId)
    (units : List MigrationUnit) (s : State σ ε) : List String :=
  (units.filter fun u => !m.recorded R db u s).map MigrationUnit.name

theorem Migrator.missing_congr (same : ∀ u ∈ units, m.recorded R db u after = m.recorded R db u s) :
    m.missing R db units after = m.missing R db units s := by
  rw [missing, missing]
  exact congrArg _ (List.filter_congr fun u member => by rw [same u member])

/-- Attempts leave the storages at rest, each meets its fate, and those units count as applied that
were missing, in order up to the first that fails. -/
theorem Migrator.Goes.met (goes : m.Goes db units s attempts after)
    (usual : m.Usual env table number)
    (within : ∀ u ∈ units, ∀ c ∈ u.plan.pendingModels, c.Within R.other env.schema)
    (distinct : (units.map MigrationUnit.name).Nodup)
    (idle : ∀ i, (s.coordinator i).active? = none) :
    (R.forward ε).leads s after ∧ (∀ a ∈ attempts, a.Met R m db) ∧
      Attempted.appliedNames attempts <+: m.missing R db units s := by
  induction goes with
  | done s => exact ⟨(R.forward ε).refl s, by simp, List.nil_prefix⟩
  | @failed a rest e t ran failed =>
      obtain ⟨met, -, -⟩ := usual.met (R := R) (within a.unit List.mem_cons_self) idle ran
      have names : Attempted.appliedNames [a] = [] := by
        simp [Attempted.appliedNames, Attempted.applied, failed]
      rw [names]
      have reported : (R.calm ε).leads a.after (a.after.reported t) := ⟨rfl, fun _ => ⟨rfl, rfl⟩⟩
      exact ⟨(R.forward ε).trans (Records.forward_of_settled met.settled)
        (Records.forward_of_calm reported), by simpa using met, List.nil_prefix⟩
  | @went a rest applied attempts after ran went others ih =>
      obtain ⟨met, database, skipped⟩ :=
        usual.met (R := R) (within a.unit List.mem_cons_self) idle ran
      obtain ⟨fresh, distinct⟩ := List.nodup_cons.1 distinct
      have first : (R.forward ε).leads a.before a.after := Records.forward_of_settled met.settled
      obtain ⟨forward, mets, names⟩ := ih (fun u member => within u (List.mem_cons_of_mem _ member))
        distinct fun i => (first idle i).1
      -- The other units are missing after this attempt as they were before it.
      have others : m.missing R db rest a.after = m.missing R db rest a.before :=
        missing_congr fun u member => recorded_congr database fun i =>
          (met.settled i).mem_iff fun same => fresh (same ▸ List.mem_map_of_mem member)
      rw [others] at names
      refine ⟨(R.forward ε).trans first forward, List.forall_mem_cons.2 ⟨met, mets⟩, ?_⟩
      cases applied with
      | true =>
          have yes : a.applied = true := by rw [Attempted.applied, went]
          have missing : m.recorded R db a.unit a.before = false := by
            refine Bool.eq_false_iff.2 fun recorded => ?_
            have no := (met.skipped recorded).1
            rw [yes] at no
            cases no
          simpa [Attempted.appliedNames, Migrator.missing, yes, missing] using names
      | false =>
          have no : a.applied = false := by rw [Attempted.applied, went]
          simpa [Attempted.appliedNames, Migrator.missing, no, skipped went] using names

end

/-! ### Preparing -/

section

variable {env : Setting σ} {table : String} {R : Records env table} {m : Migrator σ ε}
  {number : StorageId → Nat}

theorem Records.calm_call {event : Bool → Event} {answer : Answer σ α}
    (names : ∀ s i, R.names (answer s).2 i = R.names s i) :
    (R.calm ε).Follows (Engine.call event answer : Engine σ ε _) :=
  fun s => ⟨rfl, fun i => ⟨rfl, names s.outside i⟩⟩

theorem Records.names_everywhere {j : StorageId} {outside outside' : σ}
    (own : R.names outside' j = R.names outside j)
    (others : ∀ i, j ≠ i →
      (R.names outside' i, R.saved outside' i) = (R.names outside i, R.saved outside i))
    (i : StorageId) : R.names outside' i = R.names outside i := by
  by_cases same : j = i
  · exact same ▸ own
  · exact congrArg Prod.fst (others i same)

theorem Records.calm_queries (j : StorageId) : (R.calm ε).manner.Queries env j where
  record _ _ _ := ⟨rfl, fun _ => ⟨rfl, rfl⟩⟩
  query q := calm_call fun s => names_everywhere (R.querying j q s).1 fun _ other =>
    (R.elsewhere other).query q s

private theorem Records.calm_connect (j : StorageId) :
    (R.calm ε).Tries (Storage.connect env j : Attempt σ ε Unit) :=
  Follows.answered <| calm_call fun s => names_everywhere (R.connecting j s) fun _ other =>
    (R.elsewhere other).connect s

/-- Making the table of records leaves it empty. -/
theorem Records.calm_creates (j : StorageId) : (R.calm ε).Tries
    (Storage.executeTemplate env j (createTracking (Storage.dialect env j) table) :
      Attempt σ ε Nat) := by
  have queries : (R.calm ε).manner.Queries env j := calm_queries j
  let made := createTracking (Storage.dialect env j) table
  intro s
  change (R.calm ε).leads s ((Storage.executeTemplate env j made : Attempt σ ε Nat).run.run s).2
  cases bound : made.bind [] with
  | error e =>
      have ran : (Storage.executeTemplate env j made : Attempt σ ε Nat).run.run s = (.error e, s) :=
        Attempt.run_bind_error (Storage.bound_fails bound)
      rw [ran]
      exact (R.calm ε).refl s
  | ok q =>
      have ran : (Storage.executeTemplate env j made : Attempt σ ε Nat).run.run s =
          (Storage.execute env j q : Attempt σ ε Nat).run.run s :=
        Attempt.run_bind_ok (Storage.bound_run bound)
      have executes : (R.calm ε).Tries (Storage.execute env j q : Attempt σ ε Nat) :=
        Tries.bind (queries.tries_traceStatement q) fun _ =>
          Follows.answered <| calm_call fun s => names_everywhere (R.creating j s bound)
            fun _ other => (R.elsewhere other).execute q s
      rw [ran]
      exact executes s

private theorem Migrator.Usual.prepare_calm (R : Records env table)
    (usual : m.Usual env table number) :
    (R.calm ε).Tries (m.prepare env) := by
  have each (slot : Slot σ ε) (member : slot ∈ m.slots) :
      (R.calm ε).Tries (do
        Storage.connect env slot.storage
        slot.prepare : Attempt σ ε PUnit) := by
    have queries : (R.calm ε).manner.Queries env slot.storage := Records.calm_queries _
    have prepares := queries.probing.prepare (Records.calm_creates slot.storage)
    rw [← (usual.providers slot member).prepare] at prepares
    refine Tries.bind (Records.calm_connect slot.storage) fun _ => ?_
    refine Tries.bind (Follows.lift prepares) fun result => ?_
    exact Tries.bind (Follows.lift (queries.record (.unitCall _ _ _) rfl)) fun _ =>
      (R.calm ε).manner.tries_ofExcept result
  have loop := (R.calm ε).manner.closed_attempt.forM_mem each
  unfold Migrator.prepare
  dsimp only
  split
  · exact Tries.bind ((R.calm ε).manner.tries_ofResult _) fun _ => loop
  · exact loop

end

/-! ### Calls to run units -/

/-- A call to run units prepares the storages and attempts the units, or none of them. -/
theorem Migrator.run_goes (env : Setting σ) (m : Migrator σ ε) (db : DatabaseId)
    (units : List MigrationUnit) (s : State σ ε) :
    ∃ attempts, ((m.run env db units).run s).1.value? = some (Attempted.appliedNames attempts) ∧
      (attempts = [] ∧ ((m.run env db units).run s).2 = ((m.prepare env).run.run s).2 ∨
        ((inNameOrder units).map MigrationUnit.name).Nodup ∧
          m.Goes db (inNameOrder units) ((m.prepare env).run.run s).2 attempts
            ((m.run env db units).run s).2) := by
  rw [run, Engine.run_bind]
  generalize (m.prepare env).run.run s = prepared
  obtain ⟨result, after⟩ := prepared
  cases result with
  | error e => exact ⟨[], rfl, .inl ⟨rfl, rfl⟩⟩
  | ok _ =>
      dsimp only
      cases single : repeatedName? (inNameOrder units) with
      | some name => exact ⟨[], rfl, .inl ⟨rfl, rfl⟩⟩
      | none =>
          dsimp only
          obtain ⟨attempts, goes, names⟩ := m.runUnits_goes db (inNameOrder units) after
          refine ⟨attempts, ?_, .inr ⟨nodup_inNameOrder single, goes⟩⟩
          rw [Engine.run_bind, Engine.run_pure]
          dsimp only
          rw [names]

/-- A call to run units, with its outcome and the states before and after. -/
structure Call (σ ε : Type) where
  migrator : Migrator σ ε
  db : DatabaseId
  units : List MigrationUnit
  before : State σ ε
  outcome : Outcome (List String)
  after : State σ ε

/-- Units are run again and again, and nothing happens to the storages between the calls. -/
inductive Calls (env : Setting σ) : State σ ε → List (Call σ ε) → State σ ε → Prop
  | done (s : State σ ε) : Calls env s [] s
  | between {s middle after : State σ ε} {calls : List (Call σ ε)}
      (coordinator : middle.coordinator = s.coordinator) (outside : middle.outside = s.outside)
      (rest : Calls env middle calls after) : Calls env s calls after
  | ran (c : Call σ ε) {after : State σ ε} {calls : List (Call σ ε)}
      (ran : (c.migrator.run env c.db c.units).run c.before = (c.outcome, c.after))
      (rest : Calls env c.after calls after) : Calls env c.before (c :: calls) after

section

variable {env : Setting σ} {table : String} (R : Records env table)

/-- What is known of a call to run units, by the attempts that are made in it. -/
structure Call.Kept (c : Call σ ε) (attempts : List (Attempted σ ε)) : Prop where
  goes : ∃ prepared, (R.calm ε).leads c.before prepared ∧
    (attempts = [] ∧ c.after = prepared ∨
      c.migrator.Goes c.db (Migrator.inNameOrder c.units) prepared attempts c.after)
  met (a : Attempted σ ε) (member : a ∈ attempts) : a.Met R c.migrator c.db
  once (i : StorageId) : (R.names c.before.outside i).Nodup ∧ (R.names c.after.outside i).Nodup
  reported : c.outcome.value? = some (Attempted.appliedNames attempts)
  inOrder : Attempted.appliedNames attempts <+:
    c.migrator.missing R c.db (Migrator.inNameOrder c.units) c.before
  stops (earlier later : List (Attempted σ ε)) (a : Attempted σ ε)
    (split : attempts = earlier ++ a :: later) (e : EngineError) (failed : a.result = .error e) :
    later = []

variable {R} {s after : State σ ε}

private theorem Call.kept (R : Records env table) (c : Call σ ε) {number : StorageId → Nat}
    (usual : c.migrator.Usual env table number)
    (within : ∀ u ∈ c.units, ∀ change ∈ u.plan.pendingModels, change.Within R.other env.schema)
    (idle : ∀ i, (c.before.coordinator i).active? = none)
    (once : ∀ i, (R.names c.before.outside i).Nodup)
    (ran : (c.migrator.run env c.db c.units).run c.before = (c.outcome, c.after)) :
    (R.forward ε).leads c.before c.after ∧ ∃ attempts, c.Kept R attempts := by
  have prepared := usual.prepare_calm R c.before
  obtain ⟨attempts, reported, made⟩ := c.migrator.run_goes env c.db c.units c.before
  rw [ran] at reported made
  generalize ((c.migrator.prepare env).run.run c.before).2 = ready at prepared made
  have arriving := Records.forward_of_calm prepared
  rcases made with ⟨rfl, rfl⟩ | ⟨distinct, goes⟩
  · refine ⟨arriving, [], ?_⟩
    exact {
      goes := ⟨_, prepared, .inl ⟨rfl, rfl⟩⟩
      met := by simp
      once := fun i => ⟨once i, (arriving idle i).2.2 (once i)⟩
      reported := reported
      inOrder := List.nil_prefix
      stops := by simp }
  · have within' (u : MigrationUnit) (member : u ∈ Migrator.inNameOrder c.units) :=
      within u ((List.mergeSort_perm c.units _).mem_iff.1 member)
    obtain ⟨forward, met, names⟩ :=
      goes.met (R := R) usual within' distinct fun i => (arriving idle i).1
    have missing : c.migrator.missing R c.db (Migrator.inNameOrder c.units) ready =
        c.migrator.missing R c.db (Migrator.inNameOrder c.units) c.before :=
      Migrator.missing_congr fun u _ => Migrator.recorded_congr prepared.1 fun i => by
        rw [(prepared.2 i).2]
    have through := (R.forward ε).trans arriving forward
    exact ⟨through, attempts, {
      goes := ⟨ready, prepared, .inr goes⟩
      met := met
      once := fun i => ⟨once i, (through idle i).2.2 (once i)⟩
      reported := reported
      inOrder := missing ▸ names
      stops := fun earlier later a split e failed => goes.stops split failed }⟩

/-- Records and schema changes stand or fall together, once. Units are run again and again on
storages at rest, whatever fails on the way, and none of their models goes by a name that the table
of records may have. Then no storage ever has a record twice. What a unit has changed on a storage
lasts just if the unit is recorded there. A unit that is recorded on all its participants changes
nothing. Within a call the units applied are the first, in the order of names, of those that were
missing a record, and none is attempted after one that fails. And what has been recorded stays. -/
theorem Records.stand_with_changes (R : Records env table) {calls : List (Call σ ε)}
    (made : Calls env s calls after)
    (usual : ∀ c ∈ calls, ∃ number, c.migrator.Usual env table number)
    (within : ∀ c ∈ calls, ∀ u ∈ c.units, ∀ change ∈ u.plan.pendingModels,
      change.Within R.other env.schema)
    (idle : ∀ i, (s.coordinator i).active? = none)
    (once : ∀ i, (R.names s.outside i).Nodup) :
    (∀ c ∈ calls, (∃ attempts, c.Kept R attempts) ∧
        ∀ i, R.names c.after.outside i <+: R.names after.outside i) ∧
      ∀ i, (after.coordinator i).active? = none ∧ R.names s.outside i <+: R.names after.outside i ∧
        (R.names after.outside i).Nodup := by
  induction made with
  | done s => exact ⟨by simp, fun i => ⟨idle i, List.prefix_rfl, once i⟩⟩
  | between coordinator outside rest ih =>
      rw [← outside] at once ⊢
      rw [← coordinator] at idle
      exact ih usual within idle once
  | ran c ran rest ih =>
      obtain ⟨⟨number, usual⟩, others⟩ := List.forall_mem_cons.1 usual
      obtain ⟨within, others'⟩ := List.forall_mem_cons.1 within
      obtain ⟨forward, kept⟩ := c.kept R usual within idle once ran
      have rested := forward idle
      obtain ⟨later, ended⟩ := ih others others' (fun i => (rested i).1)
        fun i => (rested i).2.2 (once i)
      refine ⟨List.forall_mem_cons.2 ⟨⟨kept, fun i => (ended i).2.1⟩, later⟩, fun i => ?_⟩
      exact ⟨(ended i).1, (rested i).2.1.trans (ended i).2.1, (ended i).2.2⟩

end

namespace Shelf

/-! ### A unit that makes a table, and one that makes the table of records anew -/

def book : EntityModel := ⟨⟨"Book", "book", "id", [.generatedKey "id"]⟩, []⟩

def journal : EntityModel := ⟨⟨"Journal", table, "id", [.generatedKey "id"]⟩, []⟩

def journalAnew : EntityModel where
  own := ⟨"JournalAnew", table, "id",
    [.generatedKey "id", .text "name" (.bounded 255), .scalar "applied_at" .dateTime]⟩

def known (m : EntityModel) (number : Nat) : TypeKey × TypeRecord Record :=
  (⟨number⟩, ⟨number, 0, ⟨number, Record.entityType ⟨number⟩ m, 0⟩⟩)

def registry : Registry Record where
  types := [known book 0, known journal 1, known journalAnew 2]
  paths := [("Book", ⟨0⟩), ("Journal", ⟨1⟩), ("JournalAnew", ⟨2⟩)]
  storages := [0]

def start : State (StorageId → Shelf) Record where
  outside _ := {}
  database _ := { registry }

def migrator : Migrator (StorageId → Shelf) Record where
  config := {}
  slots := [⟨0, ((StorageProvider.create setting 0 table).run start).1⟩]

def call (units : List MigrationUnit) (s : State (StorageId → Shelf) Record) :
    Call (StorageId → Shelf) Record :=
  let ran := (migrator.run setting 0 units).run s
  ⟨migrator, 0, units, s, ran.1, ran.2⟩

def makesBook : MigrationUnit := ⟨"001", [⟨book, .create, []⟩]⟩

def makesJournal : MigrationUnit :=
  ⟨"002", [⟨journal, .delete, []⟩, ⟨journalAnew, .create, []⟩]⟩

theorem migrator_usual : migrator.Usual setting table id where
  storages := List.nodup_singleton _
  numbers _ _ _ _ same := same
  providers slot member := by
    cases List.mem_singleton.1 member
    exact StorageProvider.usual_create setting 0 table start

theorem calls_call (units : List MigrationUnit) :
    Calls setting start [call units start] (call units start).after :=
  .ran (call units start) rfl (.done _)

private theorem within_makesBook {c : ModelChange} (member : c ∈ makesBook.plan.pendingModels) :
    c.Within records.other setting.schema := by
  cases List.mem_singleton.1 member
  exact {
    table := ⟨by decide, by decide⟩
    old := by rintro _ ⟨⟩
    links := by rintro _ ⟨⟩ }

/-- The table of books stands together with the record of the unit that makes it. -/
theorem book_stands_with_record :
    ((call [makesBook] start).outcome.value? = some ["001"] ∧
        records.names (call [makesBook] start).after.outside 0 = ["001"]) ∧
      (∃ attempts, (call [makesBook] start).Kept records attempts) ∧
      (records.names (call [makesBook] start).after.outside 0).Nodup := by
  have usual (c : Call (StorageId → Shelf) Record) (only : c ∈ [call [makesBook] start]) :
      ∃ number, c.migrator.Usual setting table number := by
    cases List.mem_singleton.1 only
    exact ⟨id, migrator_usual⟩
  have within (c : Call (StorageId → Shelf) Record) (only : c ∈ [call [makesBook] start]) :
      ∀ u ∈ c.units, ∀ change ∈ u.plan.pendingModels,
        change.Within records.other setting.schema := by
    cases List.mem_singleton.1 only
    intro u among change member
    cases List.mem_singleton.1 among
    exact within_makesBook member
  obtain ⟨kept, ended⟩ := records.stand_with_changes (calls_call [makesBook]) usual within
    (fun _ => rfl) fun _ => List.nodup_nil
  exact ⟨by decide +kernel, (kept _ List.mem_cons_self).1, (ended 0).2.2⟩

/-- A unit that makes the table of records anew loses the records in it, while the changes of the
units that were recorded there last. -/
theorem book_outlasts_record :
    let c := call [makesBook, makesJournal] start
    (migrator.Usual setting table id ∧ Calls setting start [c] c.after) ∧
      c.outcome.value? = some ["001", "002"] ∧
      "CREATE TABLE \"book\" (\"id\" INTEGER PRIMARY KEY AUTOINCREMENT)" ∈
        (changes (lasting (start.since 0 c.after))).filterMap Event.text? ∧
      records.names c.after.outside 0 = ["002"] := by
  have ordered : Migrator.inNameOrder [makesBook, makesJournal] = [makesBook, makesJournal] :=
    List.mergeSort_of_pairwise (by decide +kernel)
  refine ⟨⟨migrator_usual, calls_call _⟩, ?_⟩
  simp only [call, Migrator.run, ordered]
  decide +kernel

end Shelf

end EntityStore.Migration
