import Mathlib.Data.Set.Insert
import EntityStore.Proofs.Engine.Run
import EntityStore.Proofs.Engine.Course
import EntityStore.Proofs.Schema.Order
import EntityStore.Proofs.Storing.Attempts

/-!
Making the tables of a storage. A table is made if it is neither there nor has been made before,
with its indexes after it; all others are left alone. So a run that succeeds completes the schema,
and another one has nothing left to make.
-/

namespace EntityStore

namespace Sql

theorem bind_plain (d : Dialect) (text : String) :
    (plainTemplate d text).bind [] = .ok ⟨(plainTemplate d text).sql, []⟩ := by
  rw [bind_plainTemplate, sql_plainTemplate, unmarked]

private theorem madeTable_createLinkTable (d : Dialect) (link : LinkTable) :
    madeTable? d (createLinkTable d link).sql = some (unmarked link.table) := by
  rw [createLinkTable, sql_plainTemplate, unmarked_tableText, madeTable_tableText]

theorem madeTable_createIndexes {d : Dialect} {level : EntityModel} {t : Template}
    (member : t ∈ createIndexes d level) : madeTable? d t.sql = none := by
  obtain ⟨c, -, rfl⟩ := List.mem_map.1 member
  have spelled : d.createIndex level.table c.name c.unique =
      "CREATE " ++ (if c.unique then "UNIQUE " else "") ++ "INDEX "
        ++ (d.quote (Dialect.indexName level.table c.name) ++ (" ON " ++ (d.quote level.table
          ++ (" (" ++ (d.quote c.name ++ ")"))))) := by
    unfold Dialect.createIndex
    rw [String.append_assoc, String.append_assoc, String.append_assoc, String.append_assoc,
      String.append_assoc]
  have sent : unmarked ("CREATE " ++ (if c.unique then "UNIQUE " else "") ++ "INDEX ") =
      "CREATE " ++ (if c.unique then "UNIQUE " else "") ++ "INDEX " := by
    split <;> exact unmarked_free (by decide)
  have begins : Closes d (letters ("CREATE " ++ (if c.unique then "UNIQUE " else "") ++ "INDEX "))
      (if c.unique then [.word "CREATE", .word "UNIQUE", .word "INDEX"]
        else [.word "CREATE", .word "INDEX"]) := by
    intro rest
    split <;> cases d <;> rfl
  rw [sql_plainTemplate, spelled, unmarked_append, sent, madeTable?, letters_append, begins]
  cases c.unique <;> rfl

theorem bind_createIndexes {d : Dialect} {level : EntityModel} {t : Template}
    (member : t ∈ createIndexes d level) : t.bind [] = .ok ⟨t.sql, []⟩ := by
  obtain ⟨c, -, rfl⟩ := List.mem_map.1 member
  exact bind_plain d _

def Statement.tableMade? (d : Dialect) (q : Statement) : Option String :=
  madeTable? d q.sql

end Sql

namespace Storage

open Sql

structure Making where
  table : String
  template : Template
  indexes : List Template

namespace Making

def ofLevel (schema : Schema) (d : Dialect) (level : EntityModel) : Making :=
  ⟨level.table, createTable schema d level, createIndexes d level⟩

def ofLink (d : Dialect) (link : LinkTable) : Making :=
  ⟨link.table, createLinkTable d link, []⟩

def templates (m : Making) : List Template :=
  m.template :: m.indexes

def statements (m : Making) : List Statement :=
  m.templates.map fun t => ⟨t.sql, []⟩

/-- The statements have no parameters, the first makes the table, and the others make indexes. -/
structure Sound (d : Dialect) (m : Making) : Prop where
  plain : ∀ t ∈ m.templates, t.bind [] = .ok ⟨t.sql, []⟩
  makes : madeTable? d m.template.sql = some m.table
  indexes : ∀ t ∈ m.indexes, ∃ level, t ∈ createIndexes d level

theorem plain_ofLevel (schema : Schema) (d : Dialect) (level : EntityModel) :
    ∀ t ∈ (ofLevel schema d level).templates, t.bind [] = .ok ⟨t.sql, []⟩ :=
  List.forall_mem_cons.2 ⟨bind_plain d _, fun _ index => bind_createIndexes index⟩

theorem plain_ofLink (d : Dialect) (link : LinkTable) :
    ∀ t ∈ (ofLink d link).templates, t.bind [] = .ok ⟨t.sql, []⟩ :=
  List.forall_mem_singleton.2 (bind_plain d _)

private theorem sound_ofLevel (schema : Schema) (d : Dialect) {level : EntityModel}
    (free : MarkFree level.table) : (ofLevel schema d level).Sound d where
  plain := plain_ofLevel schema d level
  makes := (madeTable_createTable schema d level).trans (congrArg some (unmarked_free free))
  indexes _ member := ⟨level, member⟩

private theorem sound_ofLink (d : Dialect) {link : LinkTable} (free : MarkFree link.table) :
    (ofLink d link).Sound d where
  plain := plain_ofLink d link
  makes := (madeTable_createLinkTable d link).trans (congrArg some (unmarked_free free))
  indexes := List.forall_mem_nil _

private theorem Sound.made {d : Dialect} {m : Making} (sound : m.Sound d) :
    m.statements.filterMap (Statement.tableMade? d) = [m.table] := by
  have first : Statement.tableMade? d ⟨m.template.sql, []⟩ = some m.table := sound.makes
  have others : (m.indexes.map fun t => (⟨t.sql, []⟩ : Statement)).filterMap
      (Statement.tableMade? d) = [] := by
    refine List.filterMap_eq_nil_iff.2 fun q member => ?_
    obtain ⟨t, index, rfl⟩ := List.mem_map.1 member
    obtain ⟨level, among⟩ := sound.indexes t index
    exact madeTable_createIndexes among
  rw [statements, templates, List.map_cons, List.filterMap_cons_some first, others]

theorem tables_cons (m : Making) (rest : List Making) :
    {t | ∃ n ∈ m :: rest, n.table = t} = {m.table} ∪ {t | ∃ n ∈ rest, n.table = t} := by
  ext t
  simp [eq_comm]

private theorem made_of_sound {d : Dialect} {made : List Making} (sound : ∀ m ∈ made, m.Sound d) :
    (made.flatMap statements).filterMap (Statement.tableMade? d) = made.map table := by
  induction made with
  | nil => rfl
  | cons m rest ih =>
      obtain ⟨first, others⟩ := List.forall_mem_cons.1 sound
      rw [List.flatMap_cons, List.filterMap_append, first.made, ih others]
      rfl

end Making

/-- All tables that a storage is to have: those of the levels, then those behind relations to many
rows. -/
def makings (schema : Schema) (d : Dialect) (models : List EntityModel) : List Making :=
  (creationOrder schema models).map (Making.ofLevel schema d)
    ++ (models.flatMap (linkTables schema)).map (Making.ofLink d)

variable {σ ε : Type} {env : Setting σ} {i : StorageId}

def createAll (env : Setting σ) (i : StorageId) (wanted : List Making) (p : Progress) :
    Attempt σ ε Progress :=
  wanted.foldlM (fun p m => createMissing env i m.table m.templates p) p

private theorem createTables_eq : (createTables env i : Attempt σ ε _) = do
    let models ← Attempt.lift (models i)
    let p ← createAll env i (makings env.schema (dialect env i) models) {}
    return p.created := by
  unfold createTables createAll
  refine congrArg _ (funext fun models => ?_)
  rw [makings, List.foldlM_append, List.foldlM_map, bind_assoc]
  refine congrArg _ (funext fun p => ?_)
  rw [List.foldlM_map]
  rfl

theorem createTables_run {s after : State σ ε} {r : Except EngineError Progress}
    (ran : (createAll env i (makings env.schema (dialect env i) (s.models i)) {}).run.run s =
      (r, after)) :
    (createTables env i).run.run s = (r.map Progress.created, after) := by
  have models : (Attempt.lift (models i) : Attempt σ ε _).run.run s = (.ok (s.models i), s) := rfl
  rw [createTables_eq, Attempt.run_bind_ok models]
  cases r with
  | ok p =>
      rw [Attempt.run_bind_ok ran]
      rfl
  | error e => exact Attempt.run_bind_error ran

theorem of_createTables_run {s after : State σ ε} {created : List String}
    (ran : (createTables env i).run.run s = (.ok created, after)) :
    ∃ p : Progress, p.created = created ∧
      (createAll env i (makings env.schema (dialect env i) (s.models i)) {}).run.run s =
        (.ok p, after) := by
  cases went : (createAll env i (makings env.schema (dialect env i) (s.models i)) {} :
      Attempt σ ε _).run.run s with
  | mk r reached =>
      have given := (createTables_run went).symm.trans ran
      cases r with
      | ok p =>
          cases given
          exact ⟨p, rfl, rfl⟩
      | error e => cases given

/-! ### A database and its tables -/

/-- The database keeps these tables: a probe finds those that are there, a statement that makes a
table adds it, and an index changes nothing. -/
structure KeepsTables (p : Provider σ) (tables : σ → Set String) : Prop where
  probes : ∀ {table q} s, (tableProbe p.dialect table).bind [] = .ok q →
    ∃ row rest n w, p.query q s = (.ok (row :: rest), w) ∧ row.get Int64 countColumn = .ok n ∧
      (0 < n.toInt.toNat ↔ table ∈ tables s) ∧ tables w = tables s
  makes : ∀ {q table s n w}, madeTable? p.dialect q.sql = some table →
    p.execute q s = (.ok n, w) → tables w = tables s ∪ {table}
  indexes : ∀ {level t q s n w}, t ∈ createIndexes p.dialect level → t.bind [] = .ok q →
    p.execute q s = (.ok n, w) → tables w = tables s

def quiet (i : StorageId) : Route σ ε where
  leads s after := after.models = s.models ∧ after.written i = s.written i
  refl _ := ⟨rfl, rfl⟩
  trans first second := ⟨second.1.trans first.1, second.2.trans first.2⟩

private theorem quiet_record (e : Event) (silent : e.writes i = false) (s : State σ ε) :
    (quiet i : Route σ ε).leads s (s.recorded e) := by
  refine ⟨rfl, ?_⟩
  rw [State.written_recorded, silent]
  exact List.append_nil _

theorem quiet_queries (env : Setting σ) (i : StorageId) :
    (quiet i : Route σ ε).manner.Queries env i where
  record e inner s := by
    refine quiet_record e ?_ s
    cases e <;> first | rfl | cases inner
  query q s := quiet_record (i := i) _ rfl { s with outside := _ }

variable {tables : σ → Set String} (keeps : KeepsTables (env.provider i) tables)

include keeps

/-- Looking for a table finds it if it is there, and leaves everything as it was. -/
theorem tableExists_run (table : String) (s : State σ ε) :
    ∃ found after, (tableExists env i table).run.run s = (.ok found, after) ∧
      (found = true ↔ table ∈ tables s.outside) ∧ tables after.outside = tables s.outside ∧
      (quiet i).leads s after := by
  obtain ⟨q, bound⟩ : ∃ q, (tableProbe (dialect env i) table).bind [] = .ok q := ⟨_, rfl⟩
  obtain ⟨row, rest, n, w, answers, reads, counts, same⟩ := keeps.probes s.outside bound
  obtain ⟨after, queried⟩ := query_run (ε := ε) answers
  have outside : after.outside = w := by
    have given := of_query_run queried
    rw [answers] at given
    exact (Prod.mk.inj given).2.symm
  have ran : (tableExists env i table).run.run s = (.ok (decide (0 < n.toInt.toNat)), after) := by
    have counted : (count env i q).run.run s = (.ok n.toInt.toNat, after) := by
      rw [count, Attempt.run_bind_ok queried]
      dsimp only
      rw [reads]
      rfl
    rw [tableExists, Attempt.run_bind_ok (bound_run bound), Attempt.run_bind_ok counted]
    rfl
  refine ⟨_, after, ran, decide_eq_true_iff.trans counts, by rw [outside, same], ?_⟩
  exact Route.leads_of_ran ((quiet_queries env i).tries_tableExists table) ran

omit keeps

private theorem called_of_answered {α : Type} {event : Bool → Event} {answer : Answer σ α} {a : α}
    {s after : State σ ε}
    (ran : (answered (Engine.call event answer) : Attempt σ ε α).run.run s = (.ok a, after)) :
    after = s.called event answer ∧ (answer s.outside).1.isOk = true := by
  rw [answered, Attempt.run_bind_ok (Attempt.run_lift _ s), Engine.run_call] at ran
  cases given : (answer s.outside).1 with
  | ok found =>
      rw [given] at ran
      cases ran
      exact ⟨rfl, rfl⟩
  | error e =>
      rw [given] at ran
      cases ran

theorem executeTemplate_run {t : Template} (plain : t.bind [] = .ok ⟨t.sql, []⟩) {n : Nat}
    {s after : State σ ε} (ran : (executeTemplate env i t).run.run s = (.ok n, after)) :
    (env.provider i).execute ⟨t.sql, []⟩ s.outside = (.ok n, after.outside) ∧
      after.models = s.models ∧
      after.written i = s.written i ++ [.execute i ⟨t.sql, []⟩ true] := by
  obtain ⟨q, mid, binds, executes⟩ := Attempt.of_run_bind ran
  obtain ⟨bound, rfl⟩ := of_bound_run binds
  cases plain.symm.trans bound
  obtain ⟨⟨⟩, before, traced, answered⟩ := Attempt.of_run_bind executes
  obtain ⟨models, written⟩ : (quiet i).leads mid before :=
    Route.leads_of_ran ((quiet_queries env i).tries_traceStatement _) traced
  obtain ⟨rfl, succeeded⟩ := called_of_answered answered
  refine ⟨of_execute_run executes, models, ?_⟩
  have writes : (Event.execute i ⟨t.sql, []⟩ true).writes i = true := beq_self_eq_true i
  rw [State.written_called, succeeded, written, if_pos writes]

theorem executeAll_cons (t : Template) (rest : List Template) :
    (executeAll env i (t :: rest) : Attempt σ ε Unit) =
      executeTemplate env i t >>= fun _ => executeAll env i rest := by
  show ((executeTemplate env i t >>= fun _ => pure ()) >>= fun _ => executeAll env i rest) = _
  rw [bind_assoc]
  rfl

def executed (i : StorageId) (statements : List Statement) : List Event :=
  statements.map fun q => .execute i q true

include keeps

private theorem executeIndexes_run {indexes : List Template}
    (plain : ∀ t ∈ indexes, t.bind [] = .ok ⟨t.sql, []⟩)
    (known : ∀ t ∈ indexes, ∃ level, t ∈ createIndexes (dialect env i) level) {s after : State σ ε}
    (ran : (executeAll env i indexes).run.run s = (.ok (), after)) :
    tables after.outside = tables s.outside ∧ after.models = s.models ∧
      after.written i = s.written i ++ executed i (indexes.map fun t => ⟨t.sql, []⟩) := by
  induction indexes generalizing s with
  | nil =>
      cases ran
      exact ⟨rfl, rfl, (List.append_nil _).symm⟩
  | cons t rest ih =>
      rw [executeAll_cons] at ran
      obtain ⟨n, mid, sent, others⟩ := Attempt.of_run_bind ran
      obtain ⟨level, index⟩ := known t List.mem_cons_self
      have bound := plain t List.mem_cons_self
      obtain ⟨answered, models, written⟩ := executeTemplate_run bound sent
      obtain ⟨same, modelsNext, writtenNext⟩ :=
        ih (fun u member => plain u (List.mem_cons_of_mem t member))
          (fun u member => known u (List.mem_cons_of_mem t member)) others
      refine ⟨same.trans (keeps.indexes index bound answered), modelsNext.trans models, ?_⟩
      rw [writtenNext, written, List.append_assoc]
      rfl

private theorem executeMaking_run {m : Making} (sound : m.Sound (dialect env i)) {s after : State σ ε}
    (ran : (executeAll env i m.templates).run.run s = (.ok (), after)) :
    tables after.outside = tables s.outside ∪ {m.table} ∧ after.models = s.models ∧
      after.written i = s.written i ++ executed i m.statements := by
  rw [Making.templates, executeAll_cons] at ran
  obtain ⟨n, mid, sent, others⟩ := Attempt.of_run_bind ran
  have first : m.template ∈ m.templates := List.mem_cons_self
  obtain ⟨answered, models, written⟩ := executeTemplate_run (sound.plain _ first) sent
  have plain : ∀ t ∈ m.indexes, t.bind [] = .ok ⟨t.sql, []⟩ :=
    fun t member => sound.plain t (List.mem_cons_of_mem _ member)
  obtain ⟨same, modelsNext, writtenNext⟩ := executeIndexes_run keeps plain sound.indexes others
  have makes : madeTable? (env.provider i).dialect (⟨m.template.sql, []⟩ : Statement).sql =
      some m.table := sound.makes
  refine ⟨same.trans (keeps.makes makes answered), modelsNext.trans models, ?_⟩
  rw [writtenNext, written, List.append_assoc]
  rfl

/-- A table that is there is left alone, and one that is missing is made. -/
theorem createMissing_run {m : Making} (sound : m.Sound (dialect env i)) {p q : Progress}
    {s after : State σ ε} (there : ∀ t ∈ p.seen, t ∈ tables s.outside)
    (ran : (createMissing env i m.table m.templates p).run.run s = (.ok q, after)) :
    after.models = s.models ∧ (∀ t ∈ q.seen, t ∈ tables after.outside) ∧
      ((m.table ∈ tables s.outside ∧ q.created = p.created ∧
          tables after.outside = tables s.outside ∧
          after.written i = s.written i) ∨
        (m.table ∉ tables s.outside ∧ q.created = p.created ++ [m.table] ∧
          tables after.outside = tables s.outside ∪ {m.table} ∧
          after.written i = s.written i ++ executed i m.statements)) := by
  unfold createMissing at ran
  split at ran
  · next seen =>
      cases ran
      exact ⟨rfl, there, Or.inl ⟨there _ (List.contains_iff_mem.1 seen), rfl, rfl, rfl⟩⟩
  · dsimp only at ran
    obtain ⟨found, mid, looked, rest⟩ := Attempt.of_run_bind ran
    obtain ⟨found', mid', looked', finds, same, models, written⟩ :=
      tableExists_run (ε := ε) keeps m.table s
    cases looked.symm.trans looked'
    cases found with
    | true =>
        cases rest
        have known := finds.1 rfl
        refine ⟨models, ?_, Or.inl ⟨known, rfl, same, written⟩⟩
        rw [same]
        exact List.forall_mem_cons.2 ⟨known, there⟩
    | false =>
        obtain ⟨⟨⟩, mid, all, ⟨⟩⟩ := Attempt.of_run_bind rest
        obtain ⟨made, modelsNext, writtenNext⟩ := executeMaking_run keeps sound all
        have missing : m.table ∉ tables s.outside := fun member => Bool.noConfusion (finds.2 member)
        rw [same] at made
        refine ⟨modelsNext.trans models, ?_, Or.inr ⟨missing, rfl, made, writtenNext.trans ?_⟩⟩
        · rw [made]
          exact List.forall_mem_cons.2 ⟨Or.inr rfl, fun t member => Or.inl (there t member)⟩
        · rw [written]

structure Completed (tables : σ → Set String) (i : StorageId) (wanted made : List Making)
    (s after : State σ ε) : Prop where
  among : made.Sublist wanted
  once : (made.map Making.table).Nodup
  missing : ∀ m ∈ made, m.table ∉ tables s.outside
  tables : tables after.outside = tables s.outside ∪ {t | ∃ m ∈ wanted, m.table = t}
  written : after.written i = s.written i ++ executed i (made.flatMap Making.statements)
  models : after.models = s.models

omit keeps in
private theorem Completed.kept {m : Making} {rest made : List Making} {s mid after : State σ ε}
    (completed : Completed tables i rest made mid after) (known : m.table ∈ tables s.outside)
    (same : tables mid.outside = tables s.outside) (written : mid.written i = s.written i)
    (models : mid.models = s.models) : Completed tables i (m :: rest) made s after where
  among := completed.among.cons m
  once := completed.once
  missing := by
    rw [← same]
    exact completed.missing
  tables := by
    rw [completed.tables, same, Making.tables_cons, ← Set.union_assoc,
      Set.union_eq_self_of_subset_right (Set.singleton_subset_iff.2 known)]
  written := completed.written.trans (congrArg (· ++ _) written)
  models := completed.models.trans models

omit keeps in
private theorem Completed.added {m : Making} {rest made : List Making} {s mid after : State σ ε}
    (completed : Completed tables i rest made mid after) (missing : m.table ∉ tables s.outside)
    (makes : tables mid.outside = tables s.outside ∪ {m.table})
    (written : mid.written i = s.written i ++ executed i m.statements)
    (models : mid.models = s.models) : Completed tables i (m :: rest) (m :: made) s after where
  among := completed.among.cons_cons m
  once := by
    refine List.nodup_cons.2 ⟨fun again => ?_, completed.once⟩
    obtain ⟨n, member, same⟩ := List.mem_map.1 again
    refine completed.missing n member ?_
    rw [same, makes]
    exact Or.inr rfl
  missing := by
    refine List.forall_mem_cons.2 ⟨missing, fun n member known => completed.missing n member ?_⟩
    rw [makes]
    exact Or.inl known
  tables := by
    rw [completed.tables, makes, Making.tables_cons, Set.union_assoc]
  written := by
    rw [completed.written, written, List.append_assoc, List.flatMap_cons, executed, executed,
      executed, List.map_append]
  models := completed.models.trans models

theorem createAll_run {wanted : List Making} (sound : ∀ m ∈ wanted, m.Sound (dialect env i))
    {p q : Progress} {s after : State σ ε} (there : ∀ t ∈ p.seen, t ∈ tables s.outside)
    (ran : (createAll env i wanted p).run.run s = (.ok q, after)) :
    ∃ made, Completed tables i wanted made s after ∧
      q.created = p.created ++ made.map Making.table := by
  induction wanted generalizing p s with
  | nil =>
      cases ran
      refine ⟨[], ⟨.slnil, List.nodup_nil, List.forall_mem_nil _, ?_, ?_, rfl⟩, ?_⟩
      · have none : {t | ∃ m ∈ ([] : List Making), m.table = t} = ∅ := by simp
        rw [none, Set.union_empty]
      · exact (List.append_nil _).symm
      · exact (List.append_nil _).symm
  | cons m rest ih =>
      rw [createAll, List.foldlM_cons] at ran
      obtain ⟨r, mid, first, others⟩ := Attempt.of_run_bind ran
      obtain ⟨models, thereNext, step⟩ :=
        createMissing_run keeps (sound m List.mem_cons_self) there first
      obtain ⟨made, completed, created⟩ :=
        ih (fun n member => sound n (List.mem_cons_of_mem m member)) thereNext others
      rcases step with ⟨known, createdHere, same, written⟩ | ⟨missing, createdHere, makes, written⟩
      · exact ⟨made, completed.kept known same written models, by rw [created, createdHere]⟩
      · refine ⟨m :: made, completed.added missing makes written models, ?_⟩
        rw [created, createdHere, List.append_assoc]
        rfl

private theorem createAll_present {wanted : List Making} {p : Progress} {s : State σ ε}
    (there : ∀ m ∈ wanted, m.table ∈ tables s.outside) :
    ∃ q after, (createAll env i wanted p).run.run s = (.ok q, after) ∧ q.created = p.created ∧
      (quiet i).leads s after ∧ tables after.outside = tables s.outside := by
  induction wanted generalizing p s with
  | nil => exact ⟨p, s, rfl, rfl, (quiet i).refl s, rfl⟩
  | cons m rest ih =>
      have first : ∃ q mid, (createMissing env i m.table m.templates p).run.run s = (.ok q, mid) ∧
          q.created = p.created ∧ (quiet i).leads s mid ∧
            tables mid.outside = tables s.outside := by
        unfold createMissing
        split
        · exact ⟨p, s, rfl, rfl, (quiet i).refl s, rfl⟩
        · obtain ⟨found, mid, looked, finds, same, still⟩ :=
            tableExists_run (ε := ε) keeps m.table s
          have known : found = true := finds.2 (there m List.mem_cons_self)
          subst known
          refine ⟨{ p with seen := m.table :: p.seen }, mid, ?_, rfl, still, same⟩
          dsimp only
          rw [Attempt.run_bind_ok looked]
          rfl
      obtain ⟨q, mid, ran, created, still, same⟩ := first
      obtain ⟨q', after, others, createdNext, stillNext, sameNext⟩ :=
        ih (p := q) (s := mid) fun n member => by
          rw [same]
          exact there n (List.mem_cons_of_mem m member)
      refine ⟨q', after, ?_, createdNext.trans created, (quiet i).trans still stillNext,
        sameNext.trans same⟩
      rw [createAll, List.foldlM_cons, Attempt.run_bind_ok ran]
      exact others

omit keeps

theorem mem_makings {schema : Schema} {d : Dialect} {models : List EntityModel} {m : Making}
    (member : m ∈ makings schema d models) :
    (∃ level ∈ levelsOf models, m = .ofLevel schema d level) ∨
      ∃ owner ∈ models, ∃ link ∈ linkTables schema owner, m = .ofLink d link := by
  rcases List.mem_append.1 member with own | linked
  · obtain ⟨level, listed, rfl⟩ := List.mem_map.1 own
    exact Or.inl ⟨level, mem_of_listed ((creationOrder_perm schema models).mem_iff.1 listed), rfl⟩
  · obtain ⟨link, known, rfl⟩ := List.mem_map.1 linked
    obtain ⟨owner, among, leads⟩ := List.mem_flatMap.1 known
    exact Or.inr ⟨owner, among, link, leads, rfl⟩

/-- The tables of all levels are to be there, and those of all relations to many rows. -/
theorem tables_makings {schema : Schema} (d : Dialect) {models : List EntityModel}
    (paths : ∀ a ∈ levelsOf models, ∀ b ∈ levelsOf models, a.path = b.path → a.table = b.table)
    (t : String) :
    (∃ m ∈ makings schema d models, m.table = t) ↔
      (∃ m ∈ models, ∃ level ∈ m.levels, level.table = t) ∨
        ∃ m ∈ models, ∃ member ∈ m.manyColumns, ∃ link,
          m.linkTable? schema member.2.name = some link ∧ link.table = t := by
  have levels : (∃ m ∈ models, ∃ level ∈ m.levels, level.table = t) ↔
      ∃ level ∈ levelsOf models, level.table = t := by
    simp only [levelsOf, List.mem_flatMap]
    grind
  have links : (∃ m ∈ models, ∃ member ∈ m.manyColumns, ∃ link,
        m.linkTable? schema member.2.name = some link ∧ link.table = t) ↔
      ∃ m ∈ models, ∃ link ∈ linkTables schema m, link.table = t := by
    simp only [linkTables, List.mem_filterMap]
    grind
  rw [levels, links]
  constructor
  · rintro ⟨m, member, rfl⟩
    rcases mem_makings member with ⟨level, known, rfl⟩ | ⟨owner, known, link, leads, rfl⟩
    · exact Or.inl ⟨level, known, rfl⟩
    · exact Or.inr ⟨owner, known, link, leads, rfl⟩
  · rintro (⟨level, known, rfl⟩ | ⟨owner, known, link, leads, rfl⟩)
    · -- Only the first level of each path is listed, but all of one path have one table.
      obtain ⟨other, listed, same⟩ := exists_listed known
      have ordered : other ∈ creationOrder schema models :=
        (creationOrder_perm schema models).mem_iff.2 listed
      exact ⟨.ofLevel schema d other,
        List.mem_append_left _ (List.mem_map_of_mem ordered),
        paths other (mem_of_listed listed) level known same⟩
    · exact ⟨.ofLink d link, List.mem_append_right _ (List.mem_map_of_mem
        (List.mem_flatMap.2 ⟨owner, known, leads⟩)), rfl⟩

theorem sound_makings {schema : Schema} {d : Dialect} {models : List EntityModel}
    (levelsFree : ∀ level ∈ levelsOf models, MarkFree level.table)
    (linksFree : ∀ m ∈ models, ∀ link ∈ linkTables schema m, MarkFree link.table) :
    ∀ m ∈ makings schema d models, m.Sound d := by
  intro m member
  rcases mem_makings member with ⟨level, known, rfl⟩ | ⟨owner, known, link, leads, rfl⟩
  · exact Making.sound_ofLevel schema d (levelsFree level known)
  · exact Making.sound_ofLink d (linksFree owner known link leads)

/-- A run that succeeds completes the schema: afterwards the tables are those that were there, those
of all levels and those of all relations to many rows. It makes the ones that were missing, each
once, with its indexes, and names them in the order in which it has made them; another run makes
nothing. Models of one path have one table, and no name has the character that marks slots. -/
theorem createTables_completes {tables : σ → Set String}
    (keeps : KeepsTables (env.provider i) tables)
    {s after : State σ ε} {created : List String}
    (paths : ∀ a ∈ levelsOf (s.models i), ∀ b ∈ levelsOf (s.models i), a.path = b.path →
      a.table = b.table)
    (levelsFree : ∀ level ∈ levelsOf (s.models i), MarkFree level.table)
    (linksFree : ∀ m ∈ s.models i, ∀ link ∈ linkTables env.schema m, MarkFree link.table)
    (ran : (createTables env i).run.run s = (.ok created, after)) :
    ∃ made : List Making, made.Sublist (makings env.schema (dialect env i) (s.models i)) ∧
      created = made.map Making.table ∧ created.Nodup ∧ (∀ t ∈ created, t ∉ tables s.outside) ∧
      (∀ t, t ∈ tables after.outside ↔ t ∈ tables s.outside ∨
        (∃ m ∈ s.models i, ∃ level ∈ m.levels, level.table = t) ∨
        ∃ m ∈ s.models i, ∃ member ∈ m.manyColumns, ∃ link,
          m.linkTable? env.schema member.2.name = some link ∧ link.table = t) ∧
      after.written i = s.written i ++ executed i (made.flatMap Making.statements) ∧
      (made.flatMap Making.statements).filterMap (Statement.tableMade? (dialect env i)) = created ∧
      ∃ again, (createTables env i).run.run after = (.ok [], again) ∧
        again.written i = after.written i ∧ tables again.outside = tables after.outside := by
  have sound := sound_makings (d := dialect env i) levelsFree linksFree
  obtain ⟨p, named, whole⟩ := of_createTables_run ran
  obtain ⟨made, completed, collected⟩ :=
    createAll_run keeps sound (List.forall_mem_nil _) whole
  have isCreated : created = made.map Making.table := named.symm.trans collected
  refine ⟨made, completed.among, isCreated, isCreated ▸ completed.once, ?_, fun t => ?_,
    completed.written, ?_, ?_⟩
  · rw [isCreated]
    exact List.forall_mem_map.2 completed.missing
  · rw [completed.tables, ← tables_makings (dialect env i) paths t]
    rfl
  · rw [isCreated]
    exact Making.made_of_sound fun m member => sound m (completed.among.subset member)
  · -- The storage still holds its models, so the second run asks for the same tables.
    have there : ∀ m ∈ makings env.schema (dialect env i) (after.models i),
        m.table ∈ tables after.outside := by
      intro m member
      rw [completed.models] at member
      rw [completed.tables]
      exact Or.inr ⟨m, member, rfl⟩
    obtain ⟨q, again, repeated, none, ⟨-, written⟩, same⟩ := createAll_present (p := {}) keeps there
    refine ⟨again, ?_, written, same⟩
    rw [createTables_run repeated]
    exact congrArg (fun created => (Except.ok created, again)) none

/-! ### Runs that succeed -/

def Executes (p : Provider σ) : Prop :=
  ∀ q w, ∃ n after, p.execute q w = (.ok n, after)

section

variable (executes : Executes (env.provider i))

include executes

theorem executeAll_succeeds {templates : List Template}
    (plain : ∀ t ∈ templates, t.bind [] = .ok ⟨t.sql, []⟩) (s : State σ ε) :
    ∃ after, (executeAll env i templates).run.run s = (.ok (), after) := by
  induction templates generalizing s with
  | nil => exact ⟨s, rfl⟩
  | cons t rest ih =>
      obtain ⟨before, traced, -⟩ : ∃ before,
          (traceStatement env i ⟨t.sql, []⟩ : Attempt σ ε Unit).run.run s = (.ok (), before) ∧
            before.outside = s.outside := trace_run _ s
      obtain ⟨n, w, answers⟩ := executes ⟨t.sql, []⟩ before.outside
      obtain ⟨mid, answered, -⟩ := answered_run (ε := ε) (.execute i ⟨t.sql, []⟩) answers
      obtain ⟨after, others⟩ := ih (fun u member => plain u (List.mem_cons_of_mem t member)) mid
      have sent : (executeTemplate env i t : Attempt σ ε Nat).run.run s = (.ok n, mid) := by
        rw [executeTemplate, Attempt.run_bind_ok (bound_run (plain t List.mem_cons_self))]
        exact (Attempt.run_bind_ok traced).trans answered
      refine ⟨after, ?_⟩
      rw [executeAll_cons, Attempt.run_bind_ok sent, others]

include keeps

private theorem createAll_succeeds {wanted : List Making}
    (plain : ∀ m ∈ wanted, ∀ t ∈ m.templates, t.bind [] = .ok ⟨t.sql, []⟩) (p : Progress)
    (s : State σ ε) : ∃ q after, (createAll env i wanted p).run.run s = (.ok q, after) := by
  induction wanted generalizing p s with
  | nil => exact ⟨p, s, rfl⟩
  | cons m rest ih =>
      have first :
          ∃ q mid, (createMissing env i m.table m.templates p).run.run s = (.ok q, mid) := by
        unfold createMissing
        split
        · exact ⟨p, s, rfl⟩
        · obtain ⟨found, mid, looked, -⟩ := tableExists_run (ε := ε) keeps m.table s
          dsimp only
          rw [Attempt.run_bind_ok looked]
          cases found with
          | true => exact ⟨_, mid, rfl⟩
          | false =>
              obtain ⟨after, all⟩ :=
                executeAll_succeeds executes (plain m List.mem_cons_self) mid
              exact ⟨_, after, Attempt.run_bind_ok all⟩
      obtain ⟨q, mid, ran⟩ := first
      obtain ⟨q', after, others⟩ :=
        ih (fun n member => plain n (List.mem_cons_of_mem m member)) q mid
      refine ⟨q', after, ?_⟩
      rw [createAll, List.foldlM_cons, Attempt.run_bind_ok ran]
      exact others

theorem createTables_succeeds (s : State σ ε) :
    ∃ created after, (createTables env i).run.run s = (.ok created, after) := by
  have plain : ∀ m ∈ makings env.schema (dialect env i) (s.models i), ∀ t ∈ m.templates,
      t.bind [] = .ok ⟨t.sql, []⟩ := by
    intro m member
    rcases mem_makings member with ⟨level, -, rfl⟩ | ⟨-, -, link, -, rfl⟩
    · exact Making.plain_ofLevel env.schema _ level
    · exact Making.plain_ofLink _ link
  obtain ⟨q, after, ran⟩ := createAll_succeeds keeps executes plain {} s
  exact ⟨q.created, after, createTables_run ran⟩

end

end Storage

abbrev TableNames := List String

namespace TableNames

open Sql

def rows (q : Statement) (names : TableNames) : List Row :=
  match q.values with
  | [.text table] => [⟨[(countColumn, .int (if table ∈ names then 1 else 0))]⟩]
  | _ => []

def execute (q : Statement) (names : TableNames) : TableNames :=
  names ++ (q.tableMade? .sqlite).toList

def provider : Provider TableNames where
  name := "names"
  dialect := .sqlite
  connect names := (.ok (), names)
  execute q names := (.ok 0, names.execute q)
  query q names := (.ok (names.rows q), names)
  insert _ names := (.ok 0, names)
  begin names := (.ok (), names)
  commit names := (.ok (), names)
  rollback names := (.ok (), names)

private theorem tableProbe_values {d : Dialect} {table : String} {q : Statement}
    (bound : (tableProbe d table).bind [] = .ok q) : q.values = [.text table] := by
  have values : ((tableProbe d table).bind []).map Statement.values = .ok [.text table] := rfl
  rw [bound] at values
  exact Except.ok.inj values

theorem keepsTables : Storage.KeepsTables provider fun names => {t | t ∈ names} where
  probes {table q} names bound := by
    refine ⟨⟨[(countColumn, .int (if table ∈ names then 1 else 0))]⟩, [],
      if table ∈ names then 1 else 0, names, ?_, ?_, ?_, rfl⟩
    · show (Except.ok (names.rows q), names) = _
      rw [rows, tableProbe_values bound]
    · split <;> rfl
    · by_cases known : table ∈ names
      · rw [if_pos known]
        exact iff_of_true (by decide) known
      · rw [if_neg known]
        exact iff_of_false (by decide) known
  makes {q table names n w} made given := by
    cases given
    have makes : q.tableMade? .sqlite = some table := made
    ext t
    simp [execute, makes, or_comm]
  indexes {level t q names n w} index bound given := by
    cases given
    cases (bind_createIndexes index).symm.trans bound
    have none : (⟨t.sql, []⟩ : Statement).tableMade? .sqlite = none := madeTable_createIndexes index
    rw [execute, none]
    exact congrArg (fun names : List String => {t | t ∈ names}) (List.append_nil names)

theorem executes : Storage.Executes provider :=
  fun q names => ⟨0, names.execute q, rfl⟩

def setting (schema : Schema) : Setting TableNames where
  schema := schema
  provider _ := provider
  log _ := {}
  now := SqlType.firstDay.atMidnight

def start (names : TableNames) (models : List EntityModel) : State TableNames Unit where
  outside := names
  models _ := models

end TableNames

namespace Lending

def series : EntityModel where
  own := ⟨"series", "series", "id",
    [.generatedKey "id", .many "reader_ids" ⟨"Person"⟩ "series_person",
      { Column.text "title" .maxVarChar with indexed := true }]⟩

end Lending

namespace Storage

open Sql Lending TableNames

/-- The table of persons is there already; those of employees and series are made, and the one
behind the readers of a series. -/
theorem lending_completed :
    ∃ created after,
      (createTables (setting schema) 0).run.run (start ["person"] [Lending.employee, series]) =
          (.ok created, after) ∧
        "series_person" ∈ after.outside ∧
        ∃ again, (createTables (setting schema) 0).run.run after = (.ok [], again) := by
  obtain ⟨created, after, ran⟩ : ∃ created after,
      (createTables (setting schema) 0).run.run (start ["person"] [Lending.employee, series]) =
        (.ok created, after) :=
    createTables_succeeds keepsTables executes _
  obtain ⟨made, -, -, -, -, complete, -, -, again, repeated, -⟩ :=
    createTables_completes
      (show KeepsTables ((setting schema).provider 0) fun names => {t | t ∈ names} from keepsTables)
      (show ∀ a ∈ levelsOf [Lending.employee, series], ∀ b ∈ levelsOf [Lending.employee, series],
        a.path = b.path → a.table = b.table by decide)
      (show ∀ level ∈ levelsOf [Lending.employee, series], MarkFree level.table by decide)
      (show ∀ m ∈ [Lending.employee, series], ∀ link ∈ linkTables schema m,
        MarkFree link.table by decide)
      ran
  refine ⟨created, after, ran, (complete "series_person").2 (Or.inr (Or.inr ?_)), again, repeated⟩
  exact (show ∃ m ∈ [Lending.employee, series], ∃ member ∈ m.manyColumns, ∃ link,
    m.linkTable? schema member.2.name = some link ∧ link.table = "series_person" from
      ⟨series, by decide, _, List.mem_singleton_self _, _, rfl, rfl⟩)

end Storage

namespace Lending

def base : EntityModel where
  own := ⟨"base", "person", "id", [.generatedKey "id"]⟩

def other : EntityModel where
  own := ⟨"base", "company", "id", [.generatedKey "id"]⟩

def clerk : EntityModel where
  own := ⟨"clerk", "clerk", "id", [.inheritedKey "id"]⟩
  above := [base.own]

def shop : EntityModel where
  own := ⟨"shop", "shop", "id", [.inheritedKey "id"]⟩
  above := [other.own]

def mark : EntityModel where
  own := ⟨"mark", "\x01", "id", []⟩

end Lending

namespace Storage

open Sql Lending TableNames

/-- Of two models of one path only the first gets its table, and a table whose name has the mark of
a slot is made under another name, again and again. -/
theorem companies_left_out :
    (∃ created after,
        (createTables (setting schema) 0).run.run (start [] [clerk, shop]) = (.ok created, after) ∧
          "company" ∉ after.outside ∧
            ∃ m ∈ [clerk, shop], ∃ level ∈ m.levels, level.table = "company") ∧
      ((createTables (setting schema) 0).outcome.run
        ((createTables (setting schema) 0).outcome.run (start [] [mark])).2).1.value? =
          some ["\x01"] := by
  refine ⟨?_, by decide +kernel⟩
  obtain ⟨created, after, ran⟩ : ∃ created after,
      (createTables (setting schema) 0).run.run (start [] [clerk, shop]) = (.ok created, after) :=
    createTables_succeeds keepsTables executes _
  have sound : ∀ m ∈ makings schema .sqlite [clerk, shop], m.Sound .sqlite :=
    sound_makings (by decide) (by decide)
  have absent : ∀ m ∈ makings schema .sqlite [clerk, shop], m.table ≠ "company" := by decide
  obtain ⟨p, -, whole⟩ := of_createTables_run ran
  obtain ⟨made, completed, -⟩ := createAll_run keepsTables sound (List.forall_mem_nil _) whole
  refine ⟨created, after, ran, fun member => ?_, shop, by decide, other, by decide, rfl⟩
  have found : "company" ∈ {t | t ∈ after.outside} := member
  rw [completed.tables] at found
  rcases found with before | ⟨m, wanted, same⟩
  · cases before
  · exact absent m wanted same

end Storage

end EntityStore
