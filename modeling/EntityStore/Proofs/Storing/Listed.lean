import EntityStore.Entity.Record
import EntityStore.Proofs.Storing.Reader
import EntityStore.Proofs.Storing.Updating

/-!
An update writes the fields that are listed and nothing else. It goes through exactly when its
fields are accepted, its entities have ids, and there is a value for each listed column; then each
listed column and relation holds, for every id, what the last entity that was written to it has.
-/

namespace EntityStore

variable {σ ε W : Type}

/-- The provider responds to queries from what is viewed, which they leave alone. -/
def Responds (p : Provider σ) (view : σ → W) (answer : Sql.Statement → W → List Row) : Prop :=
  ∀ q w, ∃ after, p.query q w = (.ok (answer q (view w)), after) ∧ view after = view w

namespace UpdatePlan

/-- What an update makes of the tables: rows stay where they are, listed columns and relations are
written, and no other table is touched. -/
structure Updated (schema : Schema) (type : EntityType ε) (fields : List String)
    (steps : List (ε × List Int64)) (before after : Tables) : Prop where
  rows : ∀ level ∈ type.model.chain,
    List.Forall₂ (RowWritten type fields steps level) (before level.table) (after level.table)
  links : ∀ name, ListsLinks type.model fields name →
    ∃ link, type.model.linkTable? schema name = some link
    ∧ LinksWritten type (lastFor steps) link (before link.table) (after link.table)
  others : ∀ table, (∀ level ∈ type.model.chain, level.table ≠ table) →
    (∀ name link, ListsLinks type.model fields name →
      type.model.linkTable? schema name = some link →
      link.table ≠ table) → after table = before table

private theorem Places.updated {schema : Schema} {type : EntityType ε} {fields : List String}
    {plan : UpdatePlan}
    (places : Places type.model fields plan) (updatable : Updatable schema type.model)
    (accepted : ¬Refused type.model fields) (D : Tables) (steps : List (ε × List Int64)) :
    Updated schema type fields steps D
      ((plan.changesOf schema type steps).foldl Tables.changed D) where
  rows level member := by
    rw [rows_at_level updatable places member, List.forall₂_map_right_iff, List.forall₂_same]
    exact fun r _ => rowWritten_foldl places (key_not_listed updatable accepted member) steps r
  links name listed := by
    have planned := (places.links name).2 listed
    obtain ⟨field, -, level, c, finds, many, rfl⟩ := listed
    obtain ⟨link, member, made, same⟩ := Links.exists_linkTable schema finds many
    exact ⟨link, made, linksWritten_foldl updatable places
      (Links.mem_tablesOf_some.2 ⟨member, same ▸ planned⟩) D steps⟩
  others table level links := by
    refine foldl_changesOf_other places D steps level fun link member => ?_
    have named := (Links.mem_tablesOf_some.1 member).2
    exact links link.field link ((places.links _).1 named) (Links.linkTable_of_mem member)

end UpdatePlan

namespace Update

open UpdatePlan

/-- The first entity with the ids that a statement selects. -/
def Selects (u : Update ε) (answer : Sql.Statement → List Row) (t : Sql.Template)
    (bindings : Sql.Bindings) (steps : List (ε × List Int64)) : Prop :=
  match u.items with
  | [] => steps = []
  | item :: _ => ∃ q ids, t.bind bindings = .ok q
      ∧ (answer q).mapM (fun row => row.get Int64 u.type.model.root.primaryKey) = .ok ids
      ∧ steps = if ids = [] then [] else [(item, ids)]

/-- The entities with the ids that they are written to: each with its own, which it must have, or
the first with those that the filter selects. -/
def Addresses (u : Update ε) (env : Setting σ) (answer : Sql.Statement → List Row)
    (bindings : Sql.Bindings) (steps : List (ε × List Int64)) : Prop :=
  match u.filter? with
  | none => (∀ item ∈ u.items, u.type.id item ≠ 0)
      ∧ steps = u.items.map fun item => (item, [u.type.id item])
  | some p => ∃ t, Builder.idsTemplate env u.storage u.type.model p = .ok t
      ∧ u.Selects answer t bindings steps

/-- Every entity that is written has a value for every listed column. -/
def Supplies (u : Update ε) (steps : List (ε × List Int64)) : Prop :=
  ∀ step ∈ steps, ∀ level name, Lists u.type.model u.fields level name →
    ((u.type.values step.1).lookup name).isSome = true

/-- An update comes out as it should: it succeeds exactly when it can, and then it has written the
listed fields and nothing else. -/
def Works (u : Update ε) (env : Setting σ) (view : σ → Tables)
    (answer : Sql.Statement → Tables → List Row) (bindings : Sql.Bindings)
    (x : Engine σ ε (Outcome Nat)) (s : State σ ε) : Prop :=
  ∃ o after, x.run s = (o, after)
    ∧ (o.isSuccess = true ↔ ¬Refused u.type.model u.fields ∧ ∃ steps,
        u.Addresses env (fun q => answer q (view s.outside)) bindings steps ∧ u.Supplies steps)
    ∧ (o.isSuccess = true → ∃ steps,
        u.Addresses env (fun q => answer q (view s.outside)) bindings steps
          ∧ Updated env.schema u.type u.fields steps (view s.outside) (view after.outside))

section

variable {u : Update ε} {env : Setting σ} {view : σ → Tables}
  {answer : Sql.Statement → Tables → List Row} {plan : UpdatePlan}

theorem supplies_iff (places : Places u.type.model u.fields plan) (steps : List (ε × List Int64)) :
    u.Supplies steps ↔ ∀ step ∈ steps, ∀ group ∈ plan.levels,
      Filled (u.type.values step.1) group := by
  constructor
  · intro supplies step member group inside c own
    exact supplies step member group.1 c.name
      ((places.columns _ _).1 ⟨group, inside, rfl, List.mem_map_of_mem own⟩)
  · intro filled step member level name listed
    obtain ⟨group, inside, -, named⟩ := (places.columns _ _).2 listed
    obtain ⟨c, own, rfl⟩ := List.mem_map.1 named
    exact filled step member group inside c own

def Turns (u : Update ε) (schema : Schema) (plan : UpdatePlan)
    (chosen : List (ε × List Int64) → Prop) (v : Tables) (r : Except EngineError Nat) (w : Tables) :
    Prop :=
  (∃ steps, chosen steps ∧ u.Supplies steps ∧ (∃ n, r = .ok n)
      ∧ w = (plan.changesOf schema u.type steps).foldl Tables.changed v)
    ∨ (∃ e, r = .error e) ∧ ¬∃ steps, chosen steps ∧ u.Supplies steps

variable (performs : Performs (env.provider u.storage) view Tables.changed Change.Full)
  (updatable : Updatable env.schema u.type.model) (places : Places u.type.model u.fields plan)
  (v : Tables)

include performs updatable places

private theorem attains_each :
    Attains env u.storage view (u.items.foldlM (u.applyEach env plan) 0) v fun r w _ =>
      u.Turns env.schema plan (fun steps => (∀ item ∈ u.items, u.type.id item ≠ 0)
        ∧ steps = u.items.map fun item => (item, [u.type.id item])) v r w := by
  have each (item : ε) (_ : item ∈ u.items) (total : Nat) :
      Tries env u.storage view Tables.changed (u.applyEach env plan total item)
        (u.type.id item ≠ 0 ∧ ∀ group ∈ plan.levels, Filled (u.type.values item) group)
        (plan.changes env.schema u.type item [u.type.id item]) := by
    have writes := (tries_apply performs updatable places item [u.type.id item]).returning
      fun n => total + n
    unfold applyEach
    by_cases unsaved : u.type.id item = 0
    · rw [if_pos unsaved]
      exact fun v => attains_unchecked rfl (Or.inr ⟨fun both => both.1 unsaved, _, rfl⟩)
    · rw [if_neg unsaved]
      exact writes.imp (and_iff_right unsaved).symm
  have filled : u.Supplies (u.items.map fun item => (item, [u.type.id item])) ↔
      ∀ item ∈ u.items, ∀ group ∈ plan.levels, Filled (u.type.values item) group := by
    rw [supplies_iff places, List.forall_mem_map]
  refine (tries_foldlM u.items each 0 v).imp ?_
  rintro r w made (⟨good, ended, rfl, rfl⟩ | ⟨bad, failed⟩)
  · refine Or.inl ⟨_, ⟨fun item member => (good item member).1, rfl⟩,
      filled.2 fun item member => (good item member).2, ended, ?_⟩
    rw [changesOf, List.flatMap_map]
  · refine Or.inr ⟨failed, ?_⟩
    rintro ⟨_, ⟨saved, rfl⟩, supplies⟩
    exact bad fun item member => ⟨saved item member, filled.1 supplies item member⟩

private theorem attains_selected (responds : Responds (env.provider u.storage) view answer)
    (t : Sql.Template) (bindings : Sql.Bindings) :
    Attains env u.storage view (u.applySelected env plan t bindings) v fun r w _ =>
      u.Turns env.schema plan (u.Selects (fun q => answer q v) t bindings) v r w := by
  have nothing : Achieves env u.storage view (pure 0 : Attempt σ ε Nat) v fun _ w _ => w = v :=
    achieves_pure rfl
  unfold applySelected Selects
  cases u.items with
  | nil =>
      refine Attains.imp nothing ?_
      rintro _ _ _ ⟨n, rfl, rfl⟩
      exact Or.inl ⟨[], rfl, nofun, ⟨n, rfl⟩, rfl⟩
  | cons item rest =>
      dsimp only
      cases bound : t.bind bindings with
      | error e =>
          refine attains_unchecked bound (Or.inr ⟨⟨_, rfl⟩, ?_⟩)
          rintro ⟨_, ⟨_, _, ⟨⟩, -⟩, -⟩
      | ok q =>
          have asked : Achieves env u.storage view (Storage.query env u.storage q : Attempt σ ε _) v
              fun rows w made => rows = answer q v ∧ w = v ∧ made = [] := by
            refine achieves_query fun w here => ?_
            obtain ⟨after, answered, same⟩ := responds q w
            exact ⟨_, after, answered, by rw [here], same.trans here, rfl⟩
          refine Attains.bound bound ?_
          unfold Builder.readIds
          rw [bind_assoc]
          refine Attains.after asked ?_
          cases read : (answer q v).mapM fun row => row.get Int64 u.type.model.root.primaryKey with
          | error e =>
              refine attains_refused (Or.inr ⟨⟨e, rfl⟩, ?_⟩)
              rintro ⟨_, ⟨_, _, ⟨⟩, ok, -⟩, -⟩
              cases read.symm.trans ok
          | ok ids =>
              refine Attains.after (achieves_pure ⟨rfl, rfl, rfl⟩) ?_
              by_cases none : ids = []
              · rw [if_pos (List.isEmpty_iff.2 none)]
                refine Attains.imp nothing ?_
                rintro _ _ _ ⟨n, rfl, rfl⟩
                exact Or.inl ⟨[], ⟨q, ids, rfl, read, (if_pos none).symm⟩, nofun, ⟨n, rfl⟩, rfl⟩
              · rw [if_neg fun empty => none (List.isEmpty_iff.1 empty)]
                have filled : u.Supplies [(item, ids)] ↔
                    ∀ group ∈ plan.levels, Filled (u.type.values item) group := by
                  rw [supplies_iff places, List.forall_mem_singleton]
                refine (tries_apply performs updatable places item ids v).imp ?_
                rintro r w made (⟨good, ended, rfl, rfl⟩ | ⟨bad, failed⟩)
                · refine Or.inl ⟨[(item, ids)], ⟨q, ids, rfl, read, (if_neg none).symm⟩,
                    filled.2 good, ended, ?_⟩
                  rw [changesOf, List.flatMap_singleton]
                · refine Or.inr ⟨failed, ?_⟩
                  rintro ⟨_, ⟨q', ids', same, read', rfl⟩, supplies⟩
                  cases same
                  cases read.symm.trans read'
                  rw [if_neg none] at supplies
                  exact bad (filled.1 supplies)

omit performs updatable places in
/-- What compiling an update comes to. -/
theorem of_compile {selection? : Option Sql.Template}
    (compiled : u.compile env = .ok (plan, selection?)) :
    UpdatePlan.resolve u.type.model u.fields = .ok plan
      ∧ (u.filter? = none ∧ selection? = none
        ∨ ∃ p t, u.filter? = some p ∧ Builder.idsTemplate env u.storage u.type.model p = .ok t
          ∧ selection? = some t) := by
  obtain ⟨plan', resolved, rest⟩ := Sql.of_bind_ok compiled
  cases filter : u.filter? with
  | none =>
      rw [filter] at rest
      cases rest
      exact ⟨resolved, Or.inl ⟨rfl, rfl⟩⟩
  | some p =>
      rw [filter] at rest
      dsimp only at rest
      cases template : Builder.idsTemplate env u.storage u.type.model p with
      | error e =>
          rw [template] at rest
          cases rest
      | ok t =>
          rw [template] at rest
          cases rest
          exact ⟨resolved, Or.inr ⟨p, t, rfl, template, rfl⟩⟩

omit performs updatable places in
private theorem compile_ok (resolved : UpdatePlan.resolve u.type.model u.fields = .ok plan)
    {answers : Sql.Statement → List Row} {bindings : Sql.Bindings} {steps : List (ε × List Int64)}
    (addresses : u.Addresses env answers bindings steps) :
    ∃ selection?, u.compile env = .ok (plan, selection?) := by
  unfold compile
  rw [resolved]
  unfold Addresses at addresses
  cases filter : u.filter? with
  | none => exact ⟨none, rfl⟩
  | some p =>
      rw [filter] at addresses
      obtain ⟨t, template, -⟩ := addresses
      refine ⟨some t, ?_⟩
      simp only [bind, Except.bind, template]
      rfl

private theorem attains_apply (responds : Responds (env.provider u.storage) view answer)
    {selection? : Option Sql.Template} (compiled : u.compile env = .ok (plan, selection?))
    (bindings : Sql.Bindings) :
    Attains env u.storage view (u.apply env plan selection? bindings) v fun r w _ =>
      u.Turns env.schema plan (u.Addresses env (fun q => answer q v) bindings) v r w := by
  unfold Addresses
  obtain ⟨-, ⟨none, rfl⟩ | ⟨p, t, some, template, rfl⟩⟩ := of_compile compiled
  · rw [none]
    exact attains_each performs updatable places v
  · rw [some]
    dsimp only
    have only (steps : List (ε × List Int64)) :
        (∃ t, Builder.idsTemplate env u.storage u.type.model p = .ok t
          ∧ u.Selects (fun q => answer q v) t bindings steps) ↔
            u.Selects (fun q => answer q v) t bindings steps := by
      rw [template]
      simp
    simp only [only]
    exact attains_selected performs updatable places v responds t bindings

end

/-! ### Updates that run -/

section

variable {u : Update ε} {env : Setting σ} {view : σ → Tables}
  {answer : Sql.Statement → Tables → List Row} {plan : UpdatePlan}
  (updatable : Updatable env.schema u.type.model)
  (performs : Performs (env.provider u.storage) view Tables.changed Change.Full)
  (responds : Responds (env.provider u.storage) view answer)
  (transacts : Transacts (env.provider u.storage) view)

include updatable performs responds transacts

/-- An update that compiles works with any bindings. -/
theorem execute_works {selection? : Option Sql.Template} (accepted : ¬Refused u.type.model u.fields)
    (compiled : u.compile env = .ok (plan, selection?)) (bindings : Sql.Bindings) (s : State σ ε) :
    u.Works env view answer bindings ((u.compiled env plan selection?).execute bindings) s := by
  obtain ⟨plan', resolved, places⟩ := resolve_places updatable.paths accepted
  obtain rfl : plan' = plan := Except.ok.inj (resolved.symm.trans (of_compile compiled).1)
  have attains := attains_apply performs updatable places (view s.outside) responds compiled bindings
  rcases transacts.unit_attains attains s rfl with
    ⟨n, after, made, ran, -, ⟨steps, chosen, supplies, -, shows⟩ | ⟨⟨_, ⟨⟩⟩, -⟩⟩
      | ⟨failed, e, w, made, ⟨-, -, -, ⟨_, ⟨⟩⟩, -⟩ | ⟨-, none⟩⟩
  · refine ⟨.ok n, after, ran, ⟨fun _ => ⟨accepted, steps, chosen, supplies⟩, fun _ => rfl⟩,
      fun _ => ⟨steps, chosen, ?_⟩⟩
    rw [shows]
    exact places.updated updatable accepted (view s.outside) steps
  · have fails := Bool.eq_false_iff.1 failed
    exact ⟨_, _, rfl, ⟨fun success => absurd success fails, fun able => absurd able.2 none⟩,
      fun success => absurd success fails⟩

/-- An update writes the fields that are listed and nothing else. A list of fields is refused
exactly if it is empty, or names what is unknown or a key; else each column and relation has one
place in the plan. The update succeeds exactly if it is accepted, its filter makes sense, its
entities have ids, and they have a value for each listed column. Each listed column and relation
then has, for every id that was written to, what the last entity written to it has, and all else in
the tables is as before. -/
theorem update_writes_listed :
    (Refused u.type.model u.fields → ∃ e, UpdatePlan.resolve u.type.model u.fields = .error e)
      ∧ (¬Refused u.type.model u.fields →
        ∃ plan, UpdatePlan.resolve u.type.model u.fields = .ok plan
          ∧ Places u.type.model u.fields plan)
      ∧ (∀ c, u.prepare env = .ok c → ∀ bindings s,
        u.Works env view answer bindings (c.execute bindings) s)
      ∧ ∀ s, u.Works env view answer [] (u.run env) s := by
  have prepared {c : Compiled σ ε Nat} (ready : u.prepare env = .ok c) :
      ¬Refused u.type.model u.fields ∧ ∃ plan selection?, u.compile env = .ok (plan, selection?)
        ∧ c = u.compiled env plan selection? := by
    obtain ⟨⟨plan, selection?⟩, compiled, same⟩ := Sql.of_bind_ok ready
    cases same
    refine ⟨fun refused => ?_, plan, selection?, compiled, rfl⟩
    obtain ⟨e, failed⟩ := resolve_refused refused
    cases failed.symm.trans (of_compile compiled).1
  refine ⟨resolve_refused, resolve_places updatable.paths, fun c ready bindings s => ?_,
    fun s => ?_⟩
  · obtain ⟨accepted, plan, selection?, compiled, rfl⟩ := prepared ready
    exact execute_works updatable performs responds transacts accepted compiled bindings s
  · unfold run
    cases ready : u.prepare env with
    | ok c =>
        obtain ⟨accepted, plan, selection?, compiled, rfl⟩ := prepared ready
        exact execute_works updatable performs responds transacts accepted compiled [] s
    | error e =>
        refine ⟨_, _, rfl, ⟨nofun, fun ⟨accepted, steps, addresses, _⟩ => ?_⟩, nofun⟩
        obtain ⟨plan, resolved, -⟩ := resolve_places updatable.paths accepted
        obtain ⟨selection?, compiled⟩ := compile_ok resolved addresses
        rw [prepare, compiled] at ready
        cases ready

end

end Update

/-! ### A database that reads changes -/

namespace Tables

def touchedBy (D : Tables) : Change → Nat
  | .insert _ _ _ rows => rows.length
  | .update table _ key ids => (D table).countP fun r => holds ids (r key)
  | .delete table column ids => (D table).countP fun r => holds ids (r column)

def ledger (d : Sql.Dialect) : Provider Tables where
  name := "tables"
  dialect := d
  connect D := (.ok (), D)
  execute q D :=
    match Change.read? d q with
    | some c => (.ok (D.touchedBy c), D.changed c)
    | none => (.error (.execution q.sql "unknown statement"), D)
  query _ D := (.ok [], D)
  insert q D := (.error (.execution q.sql "keys are not generated"), D)
  begin D := (.ok (), D)
  commit D := (.ok (), D)
  rollback D := (.ok (), D)

private theorem ledger_performs (d : Sql.Dialect) :
    Performs (ledger d) (fun D => D) changed Change.Full := by
  intro c q D full tells
  have read : Change.read? d q = some c := Change.read_eq tells full
  refine ⟨D.touchedBy c, D.changed c, ?_, rfl⟩
  simp only [ledger, read]

def setting (schema : Schema) : Setting Tables where
  schema := schema
  provider _ := ledger .sqlite
  log _ := {}
  now := SqlType.firstDay.atMidnight

end Tables

namespace Update

open UpdatePlan Staff

def workerOf (id : Int64) (name title : String) (skills : List Int64) : Record :=
  { id, values := [("name", .text name), ("title", .text title)], links := [("skills", skills)] }

def promotions : Update Record where
  type := Record.entityType ⟨0⟩ worker
  storage := 0
  items :=
    [workerOf 1 "Ann" "clerk" [3], workerOf 2 "Bob" "cook" [], workerOf 1 "Anna" "chief" [5, 4, 5]]
  fields := ["title", "skills", "title"]

def staff : Tables
  | "person" =>
    [.of [("id", .int 1), ("name", .text "Ann")], .of [("id", .int 2), ("name", .text "Bob")]]
  | "worker" => [.of [("person_id", .int 1), ("title", .text "aid")],
      .of [("person_id", .int 2), ("title", .text "aid")]]
  | "worker_skill" => [.of [("worker_id", .int 1), ("skill_id", .int 7)]]
  | _ => []

def own (u : Update Record) : List (Record × List Int64) :=
  u.items.map fun item => (item, [item.id])

theorem promotions_write_listed : ∃ o after,
    (promotions.run (Tables.setting skilled)).run { outside := staff } = (o, after)
      ∧ o.isSuccess = true
      ∧ Updated skilled promotions.type promotions.fields promotions.own staff after.outside := by
  have performs : Performs ((Tables.setting skilled).provider promotions.storage) (fun D => D)
      Tables.changed Change.Full := Tables.ledger_performs .sqlite
  have responds : Responds ((Tables.setting skilled).provider promotions.storage)
    (fun D : Tables => D)
      fun _ _ => [] := fun _ D => ⟨D, rfl, rfl⟩
  have transacts : Transacts ((Tables.setting skilled).provider promotions.storage)
      fun D : Tables => D := ⟨fun D => ⟨D, rfl, rfl⟩, fun D => ⟨D, rfl, rfl⟩⟩
  have updatable : Updatable skilled promotions.type.model := by decide
  obtain ⟨-, planned, -, works⟩ :=
    update_writes_listed (u := promotions) updatable performs responds transacts
  have accepted : ¬Refused promotions.type.model promotions.fields := by decide
  obtain ⟨plan, resolved, places⟩ := planned accepted
  obtain rfl := Except.ok.inj resolved
  have supplies : promotions.Supplies promotions.own := (supplies_iff places _).2 (by decide)
  have addresses {answer} :
      promotions.Addresses (Tables.setting skilled) answer [] promotions.own :=
    ⟨by decide, rfl⟩
  obtain ⟨o, after, ran, able, writes⟩ := works { outside := staff }
  have success := able.2 ⟨accepted, promotions.own, addresses, supplies⟩
  obtain ⟨steps, ⟨-, rfl⟩, updated⟩ := writes success
  exact ⟨o, after, ran, success, updated⟩

/-! ### Models whose updates go astray -/

def left (u : Update Record) (D : Tables) : Outcome Nat × Tables :=
  let ended := (u.run (Tables.setting skilled)).run { outside := D }
  (ended.1, ended.2.outside)

/-- The relations to many have names and tables of their own, the update has no filter and succeeds,
and yet it has not written just what is listed. -/
structure Strays (u : Update Record) (D : Tables) : Prop where
  names : (u.type.model.manyColumns.map (·.2.name)).Nodup
  tables : ((Links.tablesOf skilled u.type.model none).map (·.table)).Nodup
  plain : u.filter? = none
  succeeds : (u.left D).1.isSuccess = true
  differs : ¬Updated skilled u.type u.fields u.own D (u.left D).2

private theorem values_of_updated {type : EntityType ε} {fields : List String}
    {steps : List (ε × List Int64)}
    {before after : Tables} (updated : Updated skilled type fields steps before after)
    {level : EntityModel} (member : level ∈ type.model.chain) {row : Cells}
    (single : before level.table = [row]) {id : Int64} (keyed : row level.primaryKey = .int id)
    {item : ε} (last : lastFor steps id = some item) {column : String}
    (listed : Lists type.model fields level column) :
    (after level.table).map (· column) = [((type.values item).lookup column).getD .null] := by
  have rows := updated.rows level member
  rw [single] at rows
  obtain ⟨row', others, written, rest, same⟩ := List.forall₂_cons_left_iff.1 rows
  rw [List.forall₂_nil_left_iff.1 rest] at same
  rw [same, List.map_singleton, written.written id item keyed last column listed]

def variant (own : Level) : EntityModel where
  own := own
  above := worker.above

def amendment (m : EntityModel) (items : List Record) (fields : List String) : Update Record where
  type := Record.entityType ⟨0⟩ m
  storage := 0
  items := items
  fields := fields

def hand : Tables
  | "worker" | "\x010\x01" =>
    [.of [("person_id", .int 1), ("foreman_id", .int 1), ("title", .text "aid")]]
  | _ => []

def sharedPath : Update Record :=
  amendment (variant { worker.own with path := "Person" }) [workerOf 1 "Ann" "clerk" []]
    ["name", "title"]

def foreman : EntityModel where
  own :=
    { path := "Foreman"
      table := "worker"
      primaryKey := "foreman_id"
      columns := [Column.inheritedKey "foreman_id", .scalar "person_id" .bigInt] }
  above := worker.own :: worker.above

def sharedTable : Update Record :=
  amendment foreman [{ workerOf 1 "Ann" "clerk" [] with
    values := [("person_id", .int 9), ("title", .text "clerk")] }] ["person_id", "title"]

def linksAmongRows : Update Record :=
  amendment (variant { worker.own with
    columns := [Column.inheritedKey "person_id", .many "skills" ⟨"Skill"⟩ "worker"] })
    [workerOf 1 "Ann" "clerk" [3]] ["skills"]

def writtenKey : Update Record :=
  amendment (variant { worker.own with
    columns := [.scalar "person_id" .bigInt, .text "title" .maxVarChar] })
    [{ id := 1, values := [("person_id", .int 9), ("title", .text "clerk")] },
      { id := 9, values := [("person_id", .int 9), ("title", .text "cook")] }]
        ["person_id", "title"]

def markedTable : Update Record :=
  amendment (variant { worker.own with table := "\x010\x01" }) [workerOf 1 "Ann" "clerk" []]
    ["title"]

/-- The title of the only worker was to be written, and is another. -/
theorem strays_of_title {u : Update Record} (level : EntityModel) {item : Record} (title : String)
    (names : (u.type.model.manyColumns.map (·.2.name)).Nodup)
    (tables : ((Links.tablesOf skilled u.type.model none).map (·.table)).Nodup)
    (plain : u.filter? = none) (member : level ∈ u.type.model.chain)
    (single : hand level.table =
      [.of [("person_id", .int 1), ("foreman_id", .int 1), ("title", .text "aid")]])
    (keyed : level.primaryKey = "person_id") (last : lastFor u.own 1 = some item)
    (listed : Lists u.type.model u.fields level "title")
    (valued : (u.type.values item).lookup "title" = some (.text title))
    (runs : (u.left hand).1.isSuccess = true
      ∧ ((u.left hand).2 level.table).map (fun r => (r "title").asText?) ≠ [some title]) :
    Strays u hand := by
  refine ⟨names, tables, plain, runs.1, fun updated => runs.2 ?_⟩
  have values := values_of_updated updated member single (by rw [keyed]; rfl) last listed
  rw [valued] at values
  have texts := congrArg (List.map Value.asText?) values
  rwa [List.map_map] at texts

private theorem sharedPath_strays : Strays sharedPath hand :=
  strays_of_title sharedPath.type.model "clerk" (by decide) (by decide) rfl
    (by decide) rfl rfl rfl ⟨"title", by decide, .text "title" .maxVarChar, rfl, rfl, rfl⟩ rfl
    (by decide +kernel)

private theorem sharedTable_strays : Strays sharedTable hand :=
  strays_of_title worker "clerk" (by decide) (by decide) rfl
    (by decide) rfl rfl rfl ⟨"title", by decide, .text "title" .maxVarChar, rfl, rfl, rfl⟩ rfl
    (by decide +kernel)

private theorem writtenKey_strays : Strays writtenKey hand :=
  strays_of_title writtenKey.type.model "clerk" (by decide) (by decide) rfl
    (by decide) rfl rfl rfl ⟨"title", by decide, .text "title" .maxVarChar, rfl, rfl, rfl⟩ rfl
    (by decide +kernel)

private theorem markedTable_strays : Strays markedTable hand :=
  strays_of_title markedTable.type.model "clerk" (by decide) (by decide) rfl
    (by decide) rfl rfl rfl ⟨"title", by decide, .text "title" .maxVarChar, rfl, rfl, rfl⟩ rfl
    (by decide +kernel)

private theorem linksAmongRows_strays : Strays linksAmongRows hand where
  names := by decide
  tables := by decide
  plain := rfl
  succeeds := by decide +kernel
  differs updated := by
    have counted := (updated.rows linksAmongRows.type.model (by decide)).length_eq
    revert counted
    decide +kernel

/-- Each of these updates succeeds and writes something else than what is listed. -/
theorem updates_go_astray :
    Strays sharedPath hand ∧ Strays sharedTable hand ∧ Strays linksAmongRows hand
      ∧ Strays writtenKey hand ∧ Strays markedTable hand :=
  ⟨sharedPath_strays, sharedTable_strays, linksAmongRows_strays, writtenKey_strays,
    markedTable_strays⟩

end Update

end EntityStore
