import EntityStore.Migration.Run
import EntityStore.Proofs.Migration.Merging
import EntityStore.Proofs.Schema.Completion

/-!
Models that are not wanted after all. The requests about a model are merged as they come, so a
deletion takes back a creation that is still to happen, and puts an end to a renaming. What is
merged of its properties is another matter, and so is the name that its table had before.
-/

namespace EntityStore

namespace Migration

open Storage (executed Executes)

variable {σ ε : Type}

namespace ModelRequest

def action? : ModelRequest → Option Action
  | create => some .create
  | rename _ => some .update
  | delete => some .delete
  | select => none

def onto (current? : Option Action) (r : ModelRequest) : Option Action :=
  match r.action? with
  | some action => Action.merge current? action
  | none => current?

def standing (rs : List ModelRequest) : Option Action :=
  rs.foldl onto none

theorem standing_snoc (rs : List ModelRequest) (r : ModelRequest) :
    standing (rs ++ [r]) = onto (standing rs) r := by
  rw [standing, List.foldl_append]
  rfl

private theorem standing_last_deleted {between : List ModelRequest} :
    standing (.create :: (between ++ [.delete])) = none ↔
      standing (.create :: between) = some .create := by
  rw [← List.cons_append, standing_snoc]
  cases standing (.create :: between) with
  | none => simp [onto, action?, Action.merge]
  | some action => cases action <;> simp [onto, action?, Action.merge]

private theorem foldl_onto_delete (rs : List ModelRequest) :
    rs.foldl onto (some .delete) = some .delete := by
  induction rs with
  | nil => rfl
  | cons r rest ih =>
      have absorbed : onto (some .delete) r = some .delete := by
        cases r <;> rfl
      rw [List.foldl_cons, absorbed, ih]

private theorem foldl_onto_update {rs : List ModelRequest} (asked : delete ∈ rs) :
    rs.foldl onto (some .update) = some .delete := by
  induction rs with
  | nil => cases asked
  | cons r rest ih =>
      rw [List.foldl_cons]
      cases r with
      | delete => exact foldl_onto_delete rest
      | create | rename | select =>
          rcases List.mem_cons.1 asked with absurd | later
          · cases absurd
          · exact ih later

private theorem standing_deleted {old : String} {rs : List ModelRequest} (asked : delete ∈ rs) :
    standing (rename old :: rs) = some .delete :=
  foldl_onto_update asked

end ModelRequest

namespace Plan

open ModelRequest

variable {ds : List Declaration} {d : Declaration} {m : ModelChange} {model : EntityModel}

def requests (model : EntityModel) (ds : List Declaration) : List ModelRequest :=
  ((ds.filter fun d => d.model.path = model.path).map Declaration.request).filter
    fun r => r.action?.isSome

private theorem requests_snoc_other (other : d.model.path ≠ model.path) :
    requests model (ds ++ [d]) = requests model ds := by
  simp [requests, other]

private theorem standing_requests_snoc (same : d.model.path = model.path) :
    standing (requests model (ds ++ [d])) = onto (standing (requests model ds)) d.request := by
  have split : requests model (ds ++ [d]) =
      requests model ds ++ [d.request].filter fun r => r.action?.isSome := by
    simp [requests, same]
  rw [split]
  cases asked : d.request.action? with
  | none =>
      rw [List.filter_cons_of_neg (by simp [asked]), List.filter_nil, List.append_nil, onto, asked]
  | some action =>
      rw [List.filter_cons_of_pos (by simp [asked]), List.filter_nil, standing_snoc]

private theorem apply_action (d : Declaration) (m : ModelChange) :
    (d.apply m).action? = onto m.action? d.request := by
  have kept (ps : List PropertyDeclaration) (m : ModelChange) :
      (ps.foldl ModelChange.declareProperty m).action? = m.action? := by
    induction ps generalizing m with
    | nil => rfl
    | cons p rest ih => exact ih _
  rw [Declaration.apply, kept]
  cases d.request <;> rfl

theorem models_snoc (ds : List Declaration) (d : Declaration) :
    (ofDeclarations (ds ++ [d])).models =
      changeModel d.model d.apply (ofDeclarations ds).models := by
  simp [ofDeclarations, declare]

/-- What is to happen to a model is what stands of the requests about it. -/
theorem action_eq (ds : List Declaration) :
    ∀ m ∈ (ofDeclarations ds).models, m.action? = standing (requests m.model ds) := by
  induction ds using List.reverseRecOn with
  | nil => exact fun m absurd => nomatch absurd
  | append_singleton ds d ih =>
      have gathers := gathers_ofDeclarations ds
      have still {m : ModelChange} (known : m ∈ (ofDeclarations ds).models)
          (other : m.path ≠ d.model.path) :
          m.action? = standing (requests m.model (ds ++ [d])) := by
        rw [requests_snoc_other other.symm, ih m known]
      rw [models_snoc]
      -- The declaration makes an entry, or changes the one that goes under its path.
      rcases changeModel_cases d.model d.apply (ofDeclarations ds).models with
        ⟨new, made⟩ | ⟨before, m, after, was, known, made⟩
      · rw [made]
        intro m inside
        rcases List.mem_append.1 inside with old | last
        · exact still old fun same => new (same ▸ List.mem_map_of_mem old)
        · have fresh : requests d.model ds = [] := by
            have none : ds.filter (fun e => e.model.path = d.model.path) = [] := by
              rw [List.filter_eq_nil_iff]
              intro e among same
              exact new (of_decide_eq_true same ▸ gathers.complete e among)
            rw [requests, none]
            rfl
          rw [List.mem_singleton.1 last, apply_model, apply_action, standing_requests_snoc rfl,
            fresh]
          rfl
      · have apart := gathers.apart
        rw [was, List.map_append, List.map_cons, List.nodup_append, List.nodup_cons, known] at apart
        obtain ⟨-, ⟨notAfter, -⟩, notBefore⟩ := apart
        rw [made]
        intro n inside
        rw [List.mem_append, List.mem_cons] at inside
        rcases inside with old | rfl | old
        · refine still (by simp [was, old]) fun same => ?_
          exact notBefore _ (List.mem_map_of_mem old) _ List.mem_cons_self same
        · rw [apply_model, apply_action, standing_requests_snoc known.symm, ih m (by simp [was])]
        · exact still (by simp [was, old]) fun same => notAfter (same ▸ List.mem_map_of_mem old)

/-! ### A unit without a model -/

def others (model : EntityModel) (ds : List Declaration) : List Declaration :=
  ds.filter fun d => d.model.path ≠ model.path

private theorem changeModel_filter (d : Declaration) (path : String) (ms : List ModelChange) :
    (changeModel d.model d.apply ms).filter (fun m => m.path ≠ path) =
      if d.model.path = path then ms.filter fun m => m.path ≠ path
      else changeModel d.model d.apply (ms.filter fun m => m.path ≠ path) := by
  induction ms with
  | nil =>
      have named : (d.apply { model := d.model }).path = d.model.path := path_apply d _
      by_cases same : d.model.path = path <;> simp [changeModel, named, same]
  | cons first rest ih =>
      have changed := path_apply d first
      by_cases here : first.path = d.model.path
      · have found : first.model.same d.model = true := beq_of_eq here
        by_cases same : d.model.path = path
        · simp [changeModel, found, changed, here, same]
        · simp [changeModel, found, changed, here, same]
      · have missed : first.model.same d.model = false := beq_false_of_ne here
        by_cases kept : first.path = path
        · simp_all [changeModel]
        · by_cases same : d.model.path = path <;> simp_all [changeModel]

private theorem models_others (model : EntityModel) (ds : List Declaration) :
    (ofDeclarations (others model ds)).models =
      (ofDeclarations ds).models.filter fun m => m.path ≠ model.path := by
  induction ds using List.reverseRecOn with
  | nil => rfl
  | append_singleton ds d ih =>
      rw [models_snoc, changeModel_filter, ← ih]
      by_cases same : d.model.path = model.path
      · rw [if_pos same, others, others, List.filter_append,
          List.filter_cons_of_neg (by simpa using same), List.filter_nil, List.append_nil]
      · rw [if_neg same, others, List.filter_append, List.filter_cons_of_pos (by simpa using same),
          List.filter_nil, models_snoc]
        rfl

private theorem pendingModels_others {m : ModelChange} (planned : m ∈ (ofDeclarations ds).models)
    (still : m.isPending = false) :
    (ofDeclarations (others m.model ds)).pendingModels = (ofDeclarations ds).pendingModels := by
  have apart := (gathers_ofDeclarations ds).apart
  unfold pendingModels
  rw [models_others, List.filter_filter]
  refine List.filter_congr fun n inside => ?_
  by_cases same : n.path = m.model.path
  · have itself : n = m := List.inj_on_of_nodup_map apart inside planned same
    simp [itself, still]
  · simp [same]

end Plan

private theorem Migrator.runUnit_congr {u v : MigrationUnit} (names : u.name = v.name)
    (same : u.plan.pendingModels = v.plan.pendingModels) (migrator : Migrator σ ε)
    (db : DatabaseId) :
    migrator.runUnit db u = migrator.runUnit db v := by
  have chosen (registry : Registry ε) : migrator.participants registry v.name u.plan =
      migrator.participants registry v.name v.plan := by
    unfold participants
    rw [same]
  have ran (slots : List (Slot σ ε)) : runOn slots v.name u.plan = runOn slots v.name v.plan := by
    unfold runOn applyPlan
    rw [same]
  unfold runUnit
  simp only [names, chosen, ran]

/-- A statement that removes a table takes it out of the database. -/
def Drops (p : EntityStore.Provider σ) (tables : σ → Set String) : Prop :=
  ∀ {q table w n after}, Sql.droppedTable? p.dialect q.sql = some table →
    p.execute q w = (.ok n, after) → tables after = tables w \ {table}

namespace StorageProvider

variable {env : Setting σ} {i : StorageId} {m : ModelChange}

def applying (m : ModelChange) : Trace where
  level := .debug
  target := .migration
  message := "applying model"
  fields := [("path", .text m.path), ("action", .text (actionText m.action?))]

private theorem apply_still (action : m.action? = none)
    (properties : ∀ p ∈ m.properties, p.isPending = false)
    (s : State σ ε) : (apply env i m).run.run s = (.ok (), s.reported (applying m)) := by
  have none : m.pendingProperties = [] :=
    List.filter_eq_nil_iff.2 fun p inside => by simp [properties p inside]
  unfold apply applyProperties ModelChange.propertyIndexes applying
  rw [action, none]
  rfl

theorem apply_deleted (deleted : m.action? = some .delete) (s : State σ ε) :
    (apply env i m).run.run s =
      (Storage.executeAll env i
        [Sql.plainTemplate (Storage.dialect env i)
          ((Storage.dialect env i).dropTable m.table)]).run.run (s.reported (applying m)) := by
  unfold apply applying
  rw [deleted]
  rfl

private theorem apply_deleted_run {tables : σ → Set String} (drops : Drops (env.provider i) tables)
    (deleted : m.action? = some .delete) {s after : State σ ε}
    (ran : (apply env i m).run.run s = (.ok (), after)) :
    tables after.outside = tables s.outside \ {Sql.unmarked m.table} ∧
      after.written i = s.written i ++ executed i
        [⟨(Sql.plainTemplate (Storage.dialect env i)
          ((Storage.dialect env i).dropTable m.table)).sql, []⟩] := by
  have plain := Sql.bind_plain (Storage.dialect env i) ((Storage.dialect env i).dropTable m.table)
  have dropped := Sql.droppedTable_dropTable (Storage.dialect env i) m.table
  rw [apply_deleted deleted, Storage.executeAll_cons] at ran
  -- Nothing but its text matters of the statement, which is long to unfold.
  generalize Sql.plainTemplate (Storage.dialect env i)
    ((Storage.dialect env i).dropTable m.table) = t at ran plain dropped ⊢
  obtain ⟨n, mid, sent, ended⟩ := Attempt.of_run_bind ran
  cases ended
  obtain ⟨answered, -, written⟩ := Storage.executeTemplate_run plain sent
  exact ⟨drops (q := ⟨t.sql, []⟩) dropped answered, by rw [written, State.written_reported]; rfl⟩

private theorem apply_deleted_succeeds (executes : Executes (env.provider i))
    (deleted : m.action? = some .delete) (s : State σ ε) :
    ∃ after, (apply env i m).run.run s = (.ok (), after) := by
  rw [apply_deleted deleted]
  exact Storage.executeAll_succeeds executes
    (List.forall_mem_singleton.2 (Sql.bind_plain _ _)) _

end StorageProvider

namespace Plan

open ModelRequest StorageProvider

variable {ds : List Declaration} {m : ModelChange}

private theorem isPending_eq_false {m : ModelChange} :
    m.isPending = false ↔ m.action? = none ∧ ∀ p ∈ m.properties, p.isPending = false := by
  simp [ModelChange.isPending, ModelChange.pendingProperties]

/-- A model that is created first and deleted last is out of the plan just where its creation still
stood and nothing is left to be done for its properties; then the unit runs as if it did not name
the model, and for the model itself nothing is sent. A model that is renamed first and deleted later
is deleted under its new name only, so the table that had the old name stays. -/
theorem unwanted_models_settled {env : Setting σ} {i : StorageId} {tables : σ → Set String}
    (drops : Drops (env.provider i) tables) (planned : m ∈ (ofDeclarations ds).models) :
    (∀ between, requests m.model ds = .create :: (between ++ [.delete]) →
      (m.isPending = false ↔ standing (.create :: between) = some .create ∧
        ∀ p ∈ m.properties, p.isPending = false) ∧
      (m.isPending = false →
        (∀ (migrator : Migrator σ ε) db name,
          migrator.runUnit db ⟨name, ds⟩ = migrator.runUnit db ⟨name, others m.model ds⟩) ∧
        ∀ s : State σ ε, (apply env i m).run.run s = (.ok (), s.reported (applying m)))) ∧
    (∀ old later, requests m.model ds = .rename old :: later → .delete ∈ later →
      ∀ s : State σ ε,
        (Executes (env.provider i) → ∃ after, (apply env i m).run.run s = (.ok (), after)) ∧
        ∀ after, (apply env i m).run.run s = (.ok (), after) →
          tables after.outside = tables s.outside \ {Sql.unmarked m.table} ∧
          after.written i = s.written i ++ executed i
            [⟨(Sql.plainTemplate (Storage.dialect env i)
              ((Storage.dialect env i).dropTable m.table)).sql, []⟩] ∧
          (old ∈ tables after.outside ↔ old ∈ tables s.outside ∧ old ≠ Sql.unmarked m.table)) := by
  have stands := action_eq ds m planned
  constructor
  · intro between asked
    have taken : m.action? = none ↔ standing (.create :: between) = some .create := by
      rw [stands, asked, standing_last_deleted]
    refine ⟨isPending_eq_false.trans (and_congr_left' taken), fun still => ⟨?_, fun s => ?_⟩⟩
    · intro migrator db name
      exact Migrator.runUnit_congr (u := ⟨name, ds⟩) (v := ⟨name, others m.model ds⟩) rfl
        (pendingModels_others planned still).symm migrator db
    · obtain ⟨action, properties⟩ := isPending_eq_false.1 still
      exact apply_still action properties s
  · intro old later asked deleted s
    have dropped : m.action? = some .delete := by
      rw [stands, asked, standing_deleted deleted]
    refine ⟨fun executes => apply_deleted_succeeds executes dropped s, fun after ran => ?_⟩
    obtain ⟨remain, written⟩ := apply_deleted_run drops dropped ran
    exact ⟨remain, written, by rw [remain]; rfl⟩

end Plan

end Migration

namespace TableNames

open Sql

def dropping : Provider TableNames :=
  { provider with
    execute := fun q names => (.ok 0, names.filter fun t => droppedTable? .sqlite q.sql ≠ some t) }

private theorem dropping_drops : Migration.Drops dropping fun names => {t | t ∈ names} := by
  intro q table names n after removes given
  cases given
  have dropped : droppedTable? .sqlite q.sql = some table := removes
  ext t
  show t ∈ names.filter (fun t => droppedTable? .sqlite q.sql ≠ some t) ↔ t ∈ names ∧ t ≠ table
  rw [List.mem_filter, dropped, decide_eq_true_iff, ne_eq, Option.some_inj, eq_comm]

private theorem dropping_executes : Storage.Executes dropping :=
  fun q names => ⟨0, names.filter fun t => droppedTable? .sqlite q.sql ≠ some t, rfl⟩

end TableNames

namespace Migration.Plan

open ModelRequest StorageProvider Lending TableNames

def emptying : Setting TableNames :=
  { setting schema with provider := fun _ => dropping }

def reconsidered : List Declaration :=
  [⟨person, .create, [.add "age" .int {}]⟩, ⟨series, .rename "cycles", []⟩,
    ⟨person, .select, [.remove "age"]⟩, ⟨person, .delete, []⟩, ⟨series, .delete, []⟩]

theorem reconsidered_settled :
    (∃ m ∈ (ofDeclarations reconsidered).models, m.path = "person" ∧ m.isPending = false ∧
      ∀ s : State TableNames Unit,
        (apply emptying 0 m).run.run s = (.ok (), s.reported (applying m))) ∧
    ∃ m ∈ (ofDeclarations reconsidered).models, m.path = "series" ∧
      ∃ after : State TableNames Unit,
        (apply emptying 0 m).run.run (start ["cycles", "series"] []) = (.ok (), after) ∧
          "cycles" ∈ after.outside ∧ "series" ∉ after.outside := by
  have drops : Drops (emptying.provider 0) fun names => {t | t ∈ names} := dropping_drops
  constructor
  · obtain ⟨m, planned, isPerson, properties⟩ : ∃ m ∈ (ofDeclarations reconsidered).models,
        m.model = person ∧ ∀ p ∈ m.properties, p.isPending = false :=
      ⟨_, List.mem_cons_self, rfl, by decide⟩
    have asked : requests m.model reconsidered = .create :: ([] ++ [.delete]) := by
      rw [isPerson]
      rfl
    have settled := (unwanted_models_settled (ε := Unit) drops planned).1 [] asked
    have still : m.isPending = false := settled.1.2 ⟨rfl, properties⟩
    exact ⟨m, planned, congrArg EntityModel.path isPerson, still, (settled.2 still).2⟩
  · obtain ⟨m, planned, isSeries⟩ : ∃ m ∈ (ofDeclarations reconsidered).models, m.model = series :=
      ⟨_, List.mem_cons_of_mem _ List.mem_cons_self, rfl⟩
    have asked : requests m.model reconsidered = .rename "cycles" :: [.delete] := by
      rw [isSeries]
      rfl
    obtain ⟨succeeds, settled⟩ := (unwanted_models_settled (ε := Unit) drops planned).2 "cycles" _
      asked List.mem_cons_self (start ["cycles", "series"] [])
    obtain ⟨after, ran⟩ := succeeds dropping_executes
    obtain ⟨remain, -, old⟩ := settled after ran
    have named : Sql.unmarked m.table = "series" := by
      rw [ModelChange.table, isSeries]
      decide
    refine ⟨m, planned, congrArg EntityModel.path isSeries, after, ran, ?_, fun there => ?_⟩
    · exact old.2 ⟨List.mem_cons_self, by rw [named]; decide⟩
    · have absurd : "series" ∈ {t | t ∈ after.outside} := there
      rw [remain, named] at absurd
      exact absurd.2 rfl

/-- A model that is created with a column and then deleted is still in its unit, which adds the
column to a table that is not to be; a second deletion after the first one removes a table that the
unit did not make; and after a renaming the deletion leaves the table with the old name. -/
theorem unwanted_models_remain :
    (∃ m ∈ (ofDeclarations [⟨person, .create, [.add "age" .int {}]⟩, ⟨person, .delete, []⟩]).models,
      m.isPending = true ∧
        ((apply emptying 0 m).run.run
          (start ["person"] [] : State TableNames Unit)).2.written 0 ≠ []) ∧
    (∃ m ∈ (ofDeclarations [⟨person, .create, []⟩, ⟨person, .delete, []⟩,
        ⟨person, .delete, []⟩]).models,
      m.isPending = true ∧
        ((apply emptying 0 m).run.run
          (start ["person"] [] : State TableNames Unit)).2.outside = []) ∧
    ∃ m ∈ (ofDeclarations [⟨person, .rename "people", []⟩, ⟨person, .delete, []⟩]).models,
      ((apply emptying 0 m).run.run (start ["people"] [] : State TableNames Unit)).1.isOk = true ∧
        ((apply emptying 0 m).run.run (start ["people"] [] : State TableNames Unit)).2.outside =
          ["people"] := by
  refine ⟨⟨_, List.mem_cons_self, rfl, ?_⟩, ⟨_, List.mem_cons_self, rfl, ?_⟩,
    ⟨_, List.mem_cons_self, ?_, ?_⟩⟩
  all_goals decide +kernel

end Migration.Plan

end EntityStore
