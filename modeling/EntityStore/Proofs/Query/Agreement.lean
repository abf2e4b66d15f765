import EntityStore.Builder.Delete
import EntityStore.Builder.Exist
import EntityStore.Builder.Query
import EntityStore.Builder.Update
import EntityStore.Proofs.Engine.Run
import EntityStore.Proofs.Query.Widening
import EntityStore.Proofs.Removal.Interpretation
import EntityStore.Proofs.Sql.Alignment

/-!
Requests with one filter agree, in whatever order a query asks for its rows. On a database that reads
its tables as selects ask, entities exist just if a query finds some, and the ids that an update or a
deletion takes from the filter are those of the rows that a query finds, each once.
-/

namespace EntityStore

open JoinGraph

variable {σ ε α : Type}

/-! ### Templates of one filter -/

namespace Sql

/-- The three statements of one filter have the slots of the filter, so all are bound or none is. -/
theorem statements_bind (d : Dialect) (m : EntityModel) (g later : JoinGraph)
    (filter? : Option WhereGroup) (order : List OrderTerm) (bindings : Bindings) :
    (∃ rows ids number,
        (select d m { joins := later, filter?, order }).bind bindings = .ok rows ∧
        (selectIds d m { joins := g, filter? }).bind bindings = .ok ids ∧
        (count d m g filter?).bind bindings = .ok number) ∨
      ∃ e, (select d m { joins := later, filter?, order }).bind bindings = .error e ∧
        (selectIds d m { joins := g, filter? }).bind bindings = .error e ∧
        (count d m g filter?).bind bindings = .error e := by
  have rows : (select d m { joins := later, filter?, order }).sources =
      (Id.run ((whereFragment d filter?).run [])).2 := rfl
  have ids : (selectIds d m { joins := g, filter? }).sources =
      (Id.run ((whereFragment d filter?).run [])).2 := rfl
  have number : (count d m g filter?).sources = (Id.run ((whereFragment d filter?).run [])).2 := rfl
  rw [bind_eq, bind_eq, bind_eq, rows, ids, number]
  cases slots : Template.bindSlots d.placeholders bindings 0 1
      (Id.run ((whereFragment d filter?).run [])).2 with
  | ok bound =>
      exact Or.inl ⟨_, _, _, congrArg (Except.map _) slots, congrArg (Except.map _) slots,
        congrArg (Except.map _) slots⟩
  | error e =>
      exact Or.inr ⟨e, congrArg (Except.map _) slots, congrArg (Except.map _) slots,
        congrArg (Except.map _) slots⟩

end Sql

/-- The provider reads its tables as the statements of a filter ask: the rows of the entities in some
order, their ids, or their number. -/
structure Answers (p : Provider σ) (view : σ → Tables) (sem : Semantics) (m : EntityModel)
    (g : JoinGraph) (filter? : Option WhereGroup) (ordered : Sql.Selection) : Prop where
  rows : ∀ q w, (Sql.select p.dialect m ordered).bind [] = .ok q →
    ∃ rows after, p.query q w = (.ok rows, after) ∧
      sem.Selects (view w) ordered.joins ordered.filter? (Sql.entityColumns m ordered.joins) rows
  ids : ∀ q w, (Sql.selectIds p.dialect m { joins := g, filter? }).bind [] = .ok q →
    ∃ rows after, p.query q w = (.ok rows, after) ∧
      sem.Selects (view w) g filter? [Sql.idColumn m] rows
  number : ∀ q w, (Sql.count p.dialect m g filter?).bind [] = .ok q →
    ∃ (n : Nat) (reply : Int64) (after : σ),
      p.query q w = (.ok [⟨[(Sql.countColumn, .int reply)]⟩], after) ∧
        reply.toInt = n ∧ sem.Counts (view w) m g filter? n

theorem Translation.answer {schema : Schema} {m : EntityModel} {p : Predicate}
    {translation : Translation} (translated : Translation.of schema m p = .ok translation) :
    (Resolve.filter schema m p).answer (ofModel m) =
      (.ok translation.filter, translation.joins) := by
  unfold Translation.of at translated
  split at translated
  · next filter joins ran =>
      cases translated
      exact ran
  · cases translated

/-- What a deletion does once it has its ids. -/
def deleteSelected (env : Setting σ) (i : StorageId) (type : EntityType ε) (ids : List Int64) :
    Attempt σ ε Nat := do
  let models ← Attempt.lift (Storage.models i)
  let (deleted, _) ← Removal.remove env i models (Removal.depthBound models) type.model ids []
  return deleted

/-- What comes of requests with one filter, each made on the same state: entities exist just if the query
finds some, and an update and a deletion go on with the ids of its rows, each once. -/
structure RequestsAgree (env : Setting σ) (i : StorageId) (type : EntityType ε) (p : Predicate)
    (order : List (String × Sql.Direction)) (s : State σ ε) : Prop where
  exists_rows : (({ type, storage := i, filter? := some p : Exist ε }.run env).run s).1.value? =
    (({ type, storage := i, filter? := some p, order : Query ε }.rows env).run s).1.value?.map
      fun rows => !rows.isEmpty
  exists_entities : ∀ found,
    (({ type, storage := i, filter? := some p, order : Query ε }.run env).run s).1.value? = some found →
      (({ type, storage := i, filter? := some p : Exist ε }.run env).run s).1.value? =
        some (!found.isEmpty)
  addressed : ∀ rows,
    (({ type, storage := i, filter? := some p, order : Query ε }.rows env).run s).1.value? = some rows →
      ∃ (t : Sql.Template) (ids : List Int64) (after : State σ ε),
        (rows.map type.model.idOf).Nodup ∧ ids.Nodup ∧
        (ids.map .int).Perm (rows.map type.model.idOf) ∧
        { type, storage := i, target := .matching (some p) : Delete ε }.compile env =
          .ok (.template t) ∧
        ({ type, storage := i, target := .matching (some p) : Delete ε }.selectedIds env []
          (.template t)).run.run s = (.ok ids, after) ∧
        ({ type, storage := i, target := .matching (some p) : Delete ε }.apply env
          (.template t) []).run.run s = (deleteSelected env i type ids).run.run after ∧
        ∀ (u : Update ε) (plan : UpdatePlan) (selection? : Option Sql.Template) (item : ε)
          (rest : List ε), u.type = type → u.storage = i → u.filter? = some p →
            u.items = item :: rest → u.compile env = .ok (plan, selection?) →
            (u.apply env plan selection? []).run.run s =
              (if ids.isEmpty then pure 0 else plan.apply env i type item ids :
                Attempt σ ε Nat).run.run after

section

variable {env : Setting σ} {i : StorageId} {type : EntityType ε} {p : Predicate}
  {translation : Translation} {order : List (String × Sql.Direction)} {terms : List Sql.OrderTerm}
  {joins : JoinGraph} {sem : Semantics} {view : σ → Tables} {s : State σ ε}

theorem filter_answer
    (translated : Translation.of env.schema type.model p = .ok translation) :
    (Resolve.filter env.schema type.model p).answer (ofModel type.model) =
      (.ok translation.filter, translation.joins) :=
  Translation.answer translated

theorem translation_reach (translated : Translation.of env.schema type.model p = .ok translation) :
    translation.joins = Resolve.reach env.schema type.model [.filter p] := by
  show _ = ((Resolve.perform env.schema type.model (.filter p)).answer (ofModel type.model)).2
  rw [Resolve.perform, Resolve.graph_of_bind (fun _ _ => rfl), filter_answer translated]

theorem joined_of_translated
    (translated : Translation.of env.schema type.model p = .ok translation) :
    Semantics.Joined env.schema type.model translation.joins := by
  rw [translation_reach translated]
  exact Semantics.joined_reach env.schema type.model [.filter p]

theorem joined_of_ordered (translated : Translation.of env.schema type.model p = .ok translation)
    (ordered : (Sql.orderClause env.schema type.model order).answer translation.joins =
      (.ok terms, joins)) : Semantics.Joined env.schema type.model joins := by
  have kept := Resolve.keeps_order (Resolve.joined_column env.schema type.model) order
    translation.joins (joined_of_translated translated)
  rw [ordered] at kept
  exact kept

/-- An order keeps the ids: there is none, or it brings in tables that no raw fragment reads. -/
theorem ordered_ids {tables : Tables}
    (translated : Translation.of env.schema type.model p = .ok translation)
    (ordered : (Sql.orderClause env.schema type.model order).answer translation.joins =
      (.ok terms, joins))
    (unnoticed : order = [] ∨
      env.schema.Named type.model ∧ sem.Local translation.joins translation.filter) (v : Value) :
    v ∈ ((sem.kept tables joins (some translation.filter)).map fun c =>
        c.value (Sql.idColumn type.model)) ↔
      v ∈ (sem.kept tables translation.joins (some translation.filter)).map fun c =>
        c.value (Sql.idColumn type.model) := by
  have joined := joined_of_translated translated
  rcases unnoticed with rfl | ⟨named, confined⟩
  · cases ordered
    exact Iff.rfl
  · have widens := Resolve.widens_order named joined.grown order
    rw [ordered] at widens
    have given : Resolve.GivenFilter env.schema type.model [.filter p] translation.filter :=
      ⟨[], p, [], rfl, by rw [Resolve.reach, Resolve.reachFrom, List.foldl_nil,
        filter_answer translated]⟩
    have known : ∀ ref ∈ translation.filter.refs, translation.joins.Has ref.tableAlias := by
      intro ref inside
      have present :=
        (Resolve.orderly env.schema type.model [.filter p]).filtered _ given ref inside
      rw [← translation_reach translated] at present
      exact joined.sound.mem_aliases.1 present
    exact Semantics.kept_ids_widened joined.sound (joined_of_ordered translated ordered).sound widens
      known confined v

theorem resolveFilter_answer
    (translated : Translation.of env.schema type.model p = .ok translation) :
    (Builder.resolveFilter env.schema type.model (some p)).answer (ofModel type.model) =
      (.ok (some translation.filter), translation.joins) := by
  rw [Builder.resolveFilter, Resolve.answer_bind, filter_answer translated]
  rfl

theorem query_compiles (translated : Translation.of env.schema type.model p = .ok translation)
    (ordered : (Sql.orderClause env.schema type.model order).answer translation.joins =
      (.ok terms, joins)) :
    { type, storage := i, filter? := some p, order : Query ε }.compile env =
      .ok (Sql.select (Storage.dialect env i) type.model
        { joins, filter? := some translation.filter, order := terms }) := by
  have resolved : Resolve.runOn type.model
      ({ type, storage := i, filter? := some p, order : Query ε }.resolve env) =
        (.ok (some translation.filter, terms), joins) := by
    show Resolve.answer _ (ofModel type.model) = _
    rw [Query.resolve, Resolve.answer_bind, resolveFilter_answer translated]
    show Resolve.answer (Sql.orderClause env.schema type.model order >>= fun terms =>
      pure (some translation.filter, terms)) translation.joins = _
    rw [Resolve.answer_bind, ordered]
    rfl
  rw [Query.compile, resolved]

theorem exist_compiles (translated : Translation.of env.schema type.model p = .ok translation) :
    { type, storage := i, filter? := some p : Exist ε }.compile env =
      .ok (Sql.count (Storage.dialect env i) type.model translation.joins
        (some translation.filter)) := by
  have resolved : Resolve.runOn type.model
      (Builder.resolveFilter env.schema type.model (some p)) =
        (.ok (some translation.filter), translation.joins) :=
    resolveFilter_answer translated
  rw [Exist.compile, resolved]

theorem ids_compile (translated : Translation.of env.schema type.model p = .ok translation) :
    Builder.idsTemplate env i type.model p =
      .ok (Sql.selectIds (Storage.dialect env i) type.model
        { joins := translation.joins, filter? := some translation.filter }) := by
  rw [Builder.idsTemplate, translated]
  rfl

/-! ### Requests that run -/

theorem rows_eq {q : Query ε} {t : Sql.Template} (compiled : q.compile env = .ok t)
    (all : q.fields = []) :
    q.rows env = Attempt.outcome (Storage.bound t [] >>= fun statement =>
      Storage.query env q.storage statement >>= fun rows => pure rows) := by
  rw [Query.rows, compiled, all]
  rfl

private theorem rows_value {q : Query ε} {t : Sql.Template} {statement : Sql.Statement}
    {rows : List Row}
    {w : σ} (compiled : q.compile env = .ok t) (all : q.fields = [])
    (bound : t.bind [] = .ok statement)
    (answers : (env.provider q.storage).query statement s.outside = (.ok rows, w)) :
    ((q.rows env).run s).1.value? = some rows := by
  obtain ⟨after, ran⟩ := Storage.query_run (ε := ε) answers
  have whole : (Storage.query env q.storage statement >>= fun rows => pure rows :
      Attempt σ ε _).run.run s = (.ok rows, after) :=
    (Attempt.run_bind_ok ran).trans rfl
  rw [rows_eq compiled all,
    Attempt.outcome_run ((Attempt.run_bind_ok (Storage.bound_run bound)).trans whole)]
  rfl

private theorem rows_fail {q : Query ε} {t : Sql.Template} {e : QueryError}
    (compiled : q.compile env = .ok t) (all : q.fields = []) (failed : t.bind [] = .error e) :
    ((q.rows env).run s).1.value? = none := by
  rw [rows_eq compiled all, Attempt.outcome_run (Attempt.run_bind_error (Storage.bound_fails failed))]
  rfl

theorem exist_eq {x : Exist ε} {t : Sql.Template} (compiled : x.compile env = .ok t) :
    ((x.run env).run s).1 = (((Exist.countWith env x.storage t []).run s).1).map
      fun n => decide (0 < n) := by
  rw [Exist.run, Exist.count, compiled]
  rfl

private theorem exist_value {x : Exist ε} {t : Sql.Template} {statement : Sql.Statement}
    {reply : Int64}
    {w : σ} (compiled : x.compile env = .ok t) (bound : t.bind [] = .ok statement)
    (answers : (env.provider x.storage).query statement s.outside =
      (.ok [⟨[(Sql.countColumn, .int reply)]⟩], w)) :
    ((x.run env).run s).1.value? = some (decide (0 < reply.toInt.toNat)) := by
  obtain ⟨after, ran⟩ := Storage.query_run (ε := ε) answers
  have counted : (Storage.count env x.storage statement : Attempt σ ε Nat).run.run s =
      (.ok reply.toInt.toNat, after) := by
    rw [Storage.count, Attempt.run_bind_ok ran]
    dsimp only
    rw [get_id]
    rfl
  rw [exist_eq compiled, Exist.countWith,
    Attempt.outcome_run ((Attempt.run_bind_ok (Storage.bound_run bound)).trans counted)]
  rfl

private theorem exist_fails {x : Exist ε} {t : Sql.Template} {e : QueryError}
    (compiled : x.compile env = .ok t) (failed : t.bind [] = .error e) :
    ((x.run env).run s).1.value? = none := by
  rw [exist_eq compiled, Exist.countWith,
    Attempt.outcome_run (Attempt.run_bind_error (Storage.bound_fails failed))]
  rfl

private theorem handOut_length (field : String) (grouped : List (Int64 × List Int64))
    (items : List ε) :
    (Links.handOut type field grouped items).length = items.length := by
  induction items generalizing grouped with
  | nil => rfl
  | cons item rest ih => exact congrArg Nat.succ (ih _)

private theorem load_length {items found : List ε} {after : State σ ε}
    (ran : (Links.load env i type items).run.run s = (.ok found, after)) :
    found.length = items.length := by
  unfold Links.load at ran
  split at ran
  · cases ran
    rfl
  · next nonempty =>
    clear nonempty
    generalize items.map type.id = ids at ran
    generalize Links.tablesOf env.schema type.model none = tables at ran
    induction tables generalizing items s with
    | nil =>
        cases ran
        rfl
    | cons link rest ih =>
        rw [List.foldlM_cons] at ran
        obtain ⟨loaded, mid, first, later⟩ := Attempt.of_run_bind ran
        obtain ⟨rows, queried, -, afterRows⟩ := Attempt.of_run_bind first
        obtain ⟨links, decoded, -, afterLinks⟩ := Attempt.of_run_bind afterRows
        cases afterLinks
        rw [ih later, handOut_length]

private theorem mapM_length {f : Row → Except EngineError α} {rows : List Row} {items : List α}
    (read : rows.mapM f = .ok items) : items.length = rows.length := by
  induction rows generalizing items with
  | nil =>
      cases read
      rfl
  | cons row rest ih =>
      rw [List.mapM_cons] at read
      obtain ⟨item, -, read⟩ := Sql.of_bind_ok read
      obtain ⟨others, each, read⟩ := Sql.of_bind_ok read
      cases read
      rw [List.length_cons, List.length_cons, ih each]

/-- A query finds as many entities as its statement reads rows. -/
theorem query_length {q : Query ε} {t : Sql.Template} {found : List ε}
    (compiled : q.compile env = .ok t) (ran : ((q.run env).run s).1.value? = some found) :
    ∃ statement rows after, t.bind [] = .ok statement ∧
      (env.provider q.storage).query statement s.outside = (.ok rows, after) ∧
      found.length = rows.length := by
  rw [Query.run_of_compile compiled] at ran
  obtain ⟨after, whole⟩ := Attempt.of_outcome_value ran
  obtain ⟨statement, start, bound, afterBound⟩ := Attempt.of_run_bind whole
  obtain ⟨given, same⟩ := Storage.of_bound_run bound
  obtain ⟨rows, mid, queried, afterRows⟩ := Attempt.of_run_bind afterBound
  have answers := Storage.of_query_run queried
  rw [same] at answers
  obtain ⟨items, last, read, loaded⟩ := Attempt.of_run_bind afterRows
  obtain ⟨decoded, -⟩ := Attempt.of_ofExcept_run read
  exact ⟨statement, rows, mid.outside, given, answers,
    by rw [load_length loaded, mapM_length decoded]⟩

private theorem mapM_ids (key : String) {rows : List Row}
    (keyed : ∀ row ∈ rows, ∃ n, row = ⟨[(key, .int n)]⟩) :
    ∃ ids, (rows.mapM fun row => row.get Int64 key) = .ok ids ∧
      rows = ids.map fun n => ⟨[(key, .int n)]⟩ := by
  induction rows with
  | nil => exact ⟨[], rfl, rfl⟩
  | cons row rest ih =>
      obtain ⟨n, rfl⟩ := keyed row (by simp)
      obtain ⟨ids, read, rfl⟩ := ih fun row inside => keyed row (by simp [inside])
      refine ⟨n :: ids, ?_, rfl⟩
      rw [List.mapM_cons, get_id, read]
      rfl

private theorem readIds_run {key : String} {t : Sql.Template} {statement : Sql.Statement}
    {rows : List Row}
    {ids : List Int64} {w : σ} (bound : t.bind [] = .ok statement)
    (answers : (env.provider i).query statement s.outside = (.ok rows, w))
    (read : (rows.mapM fun row => row.get Int64 key) = .ok ids) :
    ∃ after, (Storage.bound t [] >>= fun statement => Builder.readIds env i key statement :
      Attempt σ ε (List Int64)).run.run s = (.ok ids, after) := by
  obtain ⟨after, ran⟩ := Storage.query_run (ε := ε) answers
  refine ⟨after, ?_⟩
  rw [Attempt.run_bind_ok (Storage.bound_run bound), Builder.readIds, Attempt.run_bind_ok ran, read]
  rfl

@[simp]
theorem EntityModel.idOf_single (m : EntityModel) (id : Value) :
    m.idOf ⟨[(m.root.primaryKey, id)]⟩ = id := by
  simp [EntityModel.idOf, Row.value?]

/-- The ids that a selection reads are integers, as those of the table are. -/
theorem selected_ids {tables : Tables} {g : JoinGraph} {m : EntityModel} {schema : Schema}
    {filter? : Option WhereGroup} {rows idRows : List Row} (joined : Semantics.Joined schema m g)
    (typed : ∀ row ∈ tables m.root.table, ∃ n, row m.root.primaryKey = .int n)
    (nodup : (rows.map m.idOf).Nodup)
    (selects : sem.Selects tables g filter? [Sql.idColumn m] idRows)
    (same : idRows.Perm (rows.map fun row => ⟨[(m.root.primaryKey, m.idOf row)]⟩)) :
    ∃ ids, (idRows.mapM fun row => row.get Int64 m.root.primaryKey) = .ok ids ∧ ids.Nodup ∧
      (ids.map .int).Perm (rows.map m.idOf) := by
  obtain ⟨ids, read, given⟩ := mapM_ids m.root.primaryKey fun row inside => by
    obtain ⟨c, kept, rfl⟩ := selects.origin row inside
    obtain ⟨stored, present, -, value⟩ :=
      Semantics.root_row joined.sound joined.grown (List.mem_filter.1 kept).1
    obtain ⟨n, isInt⟩ := typed stored present
    exact ⟨n, by rw [← isInt, ← value]; rfl⟩
  have perm : (ids.map Value.int).Perm (rows.map m.idOf) := by
    have mapped := same.map m.idOf
    rw [given, List.map_map, List.map_map] at mapped
    simp only [Function.comp_def, EntityModel.idOf_single] at mapped
    exact mapped
  exact ⟨ids, read, .of_map _ (perm.nodup_iff.2 nodup), perm⟩

private theorem update_selects {u : Update ε} {plan : UpdatePlan} {selection? : Option Sql.Template}
    (translated : Translation.of env.schema u.type.model p = .ok translation)
    (filtered : u.filter? = some p) (compiled : u.compile env = .ok (plan, selection?)) :
    selection? = some (Sql.selectIds (Storage.dialect env u.storage) u.type.model
      { joins := translation.joins, filter? := some translation.filter }) := by
  obtain ⟨plan', -, compiled⟩ := Sql.of_bind_ok compiled
  rw [filtered] at compiled
  dsimp only at compiled
  rw [ids_compile translated] at compiled
  cases compiled
  rfl

/-- An update goes on with the ids that its statement reads. -/
theorem update_continues {u : Update ε} {plan : UpdatePlan} {selection? : Option Sql.Template}
    {item : ε} {rest : List ε} {ids : List Int64} {after : State σ ε}
    (translated : Translation.of env.schema u.type.model p = .ok translation)
    (filtered : u.filter? = some p) (items : u.items = item :: rest)
    (compiled : u.compile env = .ok (plan, selection?))
    (read : (Storage.bound (Sql.selectIds (Storage.dialect env u.storage) u.type.model
        { joins := translation.joins, filter? := some translation.filter }) [] >>=
      fun statement => Builder.readIds env u.storage u.type.model.root.primaryKey statement :
        Attempt σ ε (List Int64)).run.run s = (.ok ids, after)) :
    (u.apply env plan selection? []).run.run s =
      (if ids.isEmpty then pure 0 else plan.apply env u.storage u.type item ids :
        Attempt σ ε Nat).run.run after := by
  cases update_selects translated filtered compiled
  rw [Update.apply, Update.applySelected, items]
  dsimp only
  rw [← bind_assoc]
  exact Attempt.run_bind_ok read

/-- Where the statements of the filter cannot be bound, no request finds anything. -/
theorem requests_fail {e : QueryError}
    (translated : Translation.of env.schema type.model p = .ok translation)
    (ordered : (Sql.orderClause env.schema type.model order).answer translation.joins =
      (.ok terms, joins))
    (rowsFail : (Sql.select (Storage.dialect env i) type.model
      { joins, filter? := some translation.filter, order := terms }).bind [] = .error e)
    (numberFail : (Sql.count (Storage.dialect env i) type.model translation.joins
      (some translation.filter)).bind [] = .error e) :
    RequestsAgree env i type p order s := by
  have queried := query_compiles (i := i) translated ordered
  have exist := exist_fails (s := s) (exist_compiles (i := i) translated) numberFail
  have found := rows_fail (s := s) queried rfl rowsFail
  constructor
  case exists_rows =>
    rw [exist, found]
    rfl
  case exists_entities =>
    intro entities ran
    obtain ⟨statement, rows', after, bound, -, -⟩ := query_length queried ran
    rw [rowsFail] at bound
    cases bound
  case addressed =>
    intro rows given
    rw [found] at given
    cases given

private theorem requests_agree (translated : Translation.of env.schema type.model p = .ok translation)
    (ordered : (Sql.orderClause env.schema type.model order).answer translation.joins =
      (.ok terms, joins))
    (unnoticed : order = [] ∨
      env.schema.Named type.model ∧ sem.Local translation.joins translation.filter)
    (keyed : sem.KeyedModel (view s.outside) env.schema type.model)
    (typed : ∀ row ∈ view s.outside type.model.root.table,
      ∃ n, row type.model.root.primaryKey = .int n)
    (answers : Answers (env.provider i) view sem type.model translation.joins
      (some translation.filter) { joins, filter? := some translation.filter, order := terms }) :
    RequestsAgree env i type p order s := by
  have joined := joined_of_translated translated
  have queried := query_compiles (i := i) translated ordered
  have counted := exist_compiles (i := i) translated
  rcases Sql.statements_bind (Storage.dialect env i) type.model translation.joins joins
    (some translation.filter) terms [] with
    ⟨rowsStatement, idsStatement, numberStatement, rowsBound, idsBound, numberBound⟩ |
      ⟨e, rowsFail, -, numberFail⟩
  · obtain ⟨rows, w, rowsAnswer, selects⟩ := answers.rows rowsStatement s.outside rowsBound
    obtain ⟨idRows, w', idsAnswer, selectsIds⟩ := answers.ids idsStatement s.outside idsBound
    obtain ⟨n, reply, w'', numberAnswer, replied, counts⟩ :=
      answers.number numberStatement s.outside numberBound
    obtain ⟨nodup, idsSame, number⟩ :=
      Semantics.selects_agree joined keyed (joined_of_ordered translated ordered)
        (ordered_ids translated ordered unnoticed) selects selectsIds counts
    have existing : decide (0 < reply.toInt.toNat) = !rows.isEmpty := by
      rw [replied, Int.toNat_natCast, number]
      cases rows <;> rfl
    have exist := exist_value (s := s) counted numberBound numberAnswer
    rw [existing] at exist
    have found := rows_value (s := s) queried rfl rowsBound rowsAnswer
    constructor
    case exists_rows =>
      rw [exist, found]
      rfl
    case exists_entities =>
      intro entities ran
      obtain ⟨statement, rows', after, bound, answer, length⟩ := query_length queried ran
      cases rowsBound.symm.trans bound
      cases rowsAnswer.symm.trans answer
      have empty : entities.isEmpty = rows.isEmpty := by
        rw [Bool.eq_iff_iff, List.isEmpty_iff_length_eq_zero, List.isEmpty_iff_length_eq_zero, length]
      rw [exist, empty]
    case addressed =>
      intro rows' given
      cases found.symm.trans given
      obtain ⟨ids, read, distinct, perm⟩ := selected_ids joined typed nodup selectsIds idsSame
      obtain ⟨after, ran⟩ := readIds_run (s := s) idsBound idsAnswer read
      refine ⟨_, ids, after, nodup, distinct, perm, ?_, ran, Attempt.run_bind_ok ran, ?_⟩
      · show (Builder.idsTemplate env i type.model p >>= fun t => _) = _
        rw [ids_compile translated]
        rfl
      · intro u plan selection? item rest sameType here filtered items compiled
        subst sameType
        subst here
        exact update_continues translated filtered items compiled ran
  · exact requests_fail translated ordered rowsFail numberFail

/-- Counting agrees with selecting. With unique keys, whatever tables a filter needs: the rows of the
entities have different ids, the ids alone are the same, each once, and their number is what is
counted. So requests with the filter agree as well. An order may bring in further tables for the
rows; it changes nothing, as long as columns have names and no raw fragment of the filter reads those
tables. -/
theorem counting_agrees_with_selecting
    (translated : Translation.of env.schema type.model p = .ok translation)
    (ordered : (Sql.orderClause env.schema type.model order).answer translation.joins =
      (.ok terms, joins))
    (unnoticed : order = [] ∨
      env.schema.Named type.model ∧ sem.Local translation.joins translation.filter)
    (keyed : sem.KeyedModel (view s.outside) env.schema type.model) :
    (∀ rows idRows n,
      sem.Selects (view s.outside) joins (some translation.filter)
        (Sql.entityColumns type.model joins) rows →
      sem.Selects (view s.outside) translation.joins (some translation.filter)
        [Sql.idColumn type.model] idRows →
      sem.Counts (view s.outside) type.model translation.joins (some translation.filter) n →
      (rows.map type.model.idOf).Nodup ∧
        idRows.Perm (rows.map fun row => ⟨[(type.model.root.primaryKey, type.model.idOf row)]⟩) ∧
        n = rows.length) ∧
    ((∀ row ∈ view s.outside type.model.root.table, ∃ n, row type.model.root.primaryKey = .int n) →
      Answers (env.provider i) view sem type.model translation.joins (some translation.filter)
        { joins, filter? := some translation.filter, order := terms } →
      RequestsAgree env i type p order s) := by
  refine ⟨fun rows idRows n selects selectsIds counts => ?_,
    requests_agree translated ordered unnoticed keyed⟩
  exact Semantics.selects_agree (joined_of_translated translated) keyed
    (joined_of_ordered translated ordered) (ordered_ids translated ordered unnoticed) selects
    selectsIds counts

end

/-! ### Readers of books -/

def book : EntityModel where
  own :=
    { path := "Book"
      table := "book"
      primaryKey := "id"
      columns := [Column.generatedKey "id", Column.text "title" .maxVarChar] }

def reader : EntityModel where
  own :=
    { path := "Reader"
      table := "reader"
      primaryKey := "id"
      columns := [Column.inheritedKey "id", Column.many "books" ⟨"Book"⟩ "reader_book",
        { Column.relation "favourite_id" "favourite" ⟨"Book"⟩ .setNull with nullable := true }] }
  above :=
    [{ path := "Member"
       table := "member"
       primaryKey := "id"
       columns := [Column.generatedKey "id", Column.text "name" .maxVarChar] }]

def readerType : EntityType Int64 where
  key := ⟨0⟩
  model := reader
  id n := n
  setId _ n := n
  values n := [("id", .int n)]
  ofRow row := row.get Int64 "id"
  links _ _ := []
  setLinks n _ _ := n

def otherBooks : Predicate :=
  .compare ⟨"books.title", .ne, .literal (.text "Emma"), false⟩

def otherTitles : WhereGroup :=
  .leaf ⟨⟨⟨3⟩, "title"⟩, .ne, .literal (.text "Emma"), none, false⟩

def readerJoins : JoinGraph where
  root := ⟨"", ⟨0⟩, "member", .inner, none⟩
  joins :=
    [⟨"@reader", ⟨1⟩, "reader", .inner, some ⟨⟨0⟩, "id", "id"⟩⟩,
      ⟨"books#link", ⟨2⟩, "reader_book", .leftOuter, some ⟨⟨1⟩, "id", "reader_id"⟩⟩,
      ⟨"books", ⟨3⟩, "book", .leftOuter, some ⟨⟨2⟩, "book_id", "id"⟩⟩]
  collection := true

def byFavourite : List (String × Sql.Direction) :=
  [("favourite.title", .ascending)]

def rankedReaders : Sql.Selection where
  joins :=
    { readerJoins with
      joins := readerJoins.joins ++
        [⟨"favourite", ⟨4⟩, "book", .leftOuter, some ⟨⟨1⟩, "favourite_id", "id"⟩⟩] }
  filter? := some otherTitles
  order := [⟨⟨⟨4⟩, "title"⟩, .ascending⟩]

def library : Tables
  | "member" => [Cells.of [("id", .int 1), ("name", .text "Ann")],
      Cells.of [("id", .int 2), ("name", .text "Bob")], Cells.of [("id", .int 3), ("name", .text "Cy")]]
  | "reader" => [Cells.of [("id", .int 1), ("favourite_id", .int 6)], Cells.of [("id", .int 2)]]
  | "reader_book" => [Cells.of [("reader_id", .int 1), ("book_id", .int 5)],
      Cells.of [("reader_id", .int 2), ("book_id", .int 4)],
      Cells.of [("reader_id", .int 1), ("book_id", .int 6)]]
  | "book" => [Cells.of [("id", .int 4), ("title", .text "Emma")],
      Cells.of [("id", .int 5), ("title", .text "Waverley")],
      Cells.of [("id", .int 6), ("title", .text "Cecilia")]]
  | _ => []

def readersText (further : String) : String :=
  " FROM \"member\" t0 INNER JOIN \"reader\" t1 ON t0.\"id\" = t1.\"id\"" ++
    " LEFT OUTER JOIN \"reader_book\" t2 ON t1.\"id\" = t2.\"reader_id\"" ++
    " LEFT OUTER JOIN \"book\" t3 ON t2.\"book_id\" = t3.\"id\"" ++ further ++
    " WHERE t3.\"title\" <> @p0"

def libraryAnswer (sql : String) : List Row :=
  if sql = "SELECT COUNT(DISTINCT t0.\"id\") AS nb" ++ readersText "" then
    [⟨[(Sql.countColumn, .int 1)]⟩]
  else if sql = "SELECT DISTINCT t0.\"id\" AS \"id\"" ++ readersText "" then [⟨[("id", .int 1)]⟩]
  else [⟨[("id", .int 1), ("name", .text "Ann"), ("favourite_id", .int 6)]⟩]

def libraryOnly : Setting Unit where
  schema := ⟨fun _ => book⟩
  provider _ :=
    { name := "main"
      dialect := .sqlite
      connect _ := (.ok (), ())
      execute _ _ := (.ok 0, ())
      query q _ := (.ok (libraryAnswer q.sql), ())
      insert _ _ := (.ok 0, ())
      begin _ := (.ok (), ())
      commit _ := (.ok (), ())
      rollback _ := (.ok (), ()) }
  log _ := {}
  now := SqlType.firstDay.atMidnight

private theorem library_keyed {table : String} (ids : List Int64)
    (held : (library table).map (fun row => row "id") = ids.map .int) (nodup : ids.Nodup) :
    Semantics.plain.Keyed library table "id" := by
  constructor
  · intro row inside
    have given : row "id" ∈ ids.map Value.int := held ▸ List.mem_map_of_mem inside
    obtain ⟨n, -, same⟩ := List.mem_map.1 given
    rw [← same]
    rfl
  · have apart : (ids.map Value.int).Pairwise fun v w => Semantics.plain.same v w = false :=
      List.pairwise_map.2 (nodup.imp fun {n m} different => by
        simp [Semantics.plain, Value.asInt?, different])
    rw [← held] at apart
    exact List.pairwise_map.1 apart

private theorem reader_keyed : Semantics.plain.KeyedModel library libraryOnly.schema reader := by
  constructor
  · rintro level (inside | ⟨target, inside⟩)
    · simp only [EntityModel.chain, EntityModel.chainFrom, reader, List.mem_cons, List.not_mem_nil,
        or_false] at inside
      rcases inside with rfl | rfl
      · exact library_keyed [1, 2] rfl (by decide)
      · exact library_keyed [1, 2, 3] rfl (by decide)
    · simp only [EntityModel.chain, EntityModel.chainFrom, libraryOnly, book, List.mem_cons,
        List.not_mem_nil, or_false] at inside
      subst inside
      exact library_keyed [4, 5, 6] rfl (by decide)
  · exact ⟨_, List.mem_cons_self, rfl⟩

private theorem distinct_twice {α : Type} {alike : α → α → Prop} {a : α} (refl : alike a a) :
    Semantics.Distinct alike [a, a] [a] := by
  refine ⟨List.pairwise_singleton _ _, by simp, fun b inside => ⟨a, by simp, ?_⟩⟩
  rw [show b = a by simpa using inside]
  exact refl

private theorem otherTitles_settled : Sql.ConditionSettled (some otherTitles) := by
  rintro g ⟨⟩
  have resolved : (Resolve.filter libraryOnly.schema reader otherBooks).answer
      (JoinGraph.ofModel reader) = (.ok otherTitles, readerJoins) := rfl
  exact Resolve.filter_settled otherBooks resolved

private theorem readers_text (e : Sql.Emission) {q : Sql.Statement} {text : String}
    (free : Sql.AllFree e.words) (settled : e.Settled)
    (bound : (e.template .sqlite).bind [] = .ok q)
    (sources : ((e.writer .sqlite).run []).2 = [.literal (.text "Emma")])
    (filled : Sql.Template.fill ((e.writer .sqlite).run []).1 ["@p0"] = text) : q.sql = text := by
  have slots : Sql.Template.bindSlots Sql.Dialect.sqlite.placeholders [] 0 1
      ((e.writer .sqlite).run []).2 = .ok [⟨"@p0", [⟨"p0", "@p0", .text "Emma"⟩]⟩] := by
    rw [sources]
    rfl
  exact (Sql.Emission.bind_sql free settled slots bound).trans filled

private theorem library_answers :
    Answers (libraryOnly.provider 0) (fun _ => library) Semantics.plain reader
    readerJoins (some otherTitles) rankedReaders := by
  have alike (row : Row) : Semantics.plain.Alike row row :=
    List.forall₂_same.2 fun v _ => Semantics.plain.refl v
  constructor
  · intro q w bound
    have text : q.sql = "SELECT DISTINCT t0.\"id\" AS \"id\", t0.\"name\" AS \"name\"" ++
        ", t1.\"favourite_id\" AS \"favourite_id\"" ++
        readersText " LEFT OUTER JOIN \"book\" t4 ON t1.\"favourite_id\" = t4.\"id\"" ++
        " ORDER BY t4.\"title\" ASC" :=
      readers_text (.select reader rankedReaders) (by decide) otherTitles_settled bound rfl
        (by decide +kernel)
    refine ⟨[⟨[("id", .int 1), ("name", .text "Ann"), ("favourite_id", .int 6)]⟩], (), ?_,
      distinct_twice (alike _)⟩
    show ((.ok (libraryAnswer q.sql), ()) : Except StorageError (List Row) × Unit) = _
    rw [text, libraryAnswer, if_neg (by decide +kernel), if_neg (by decide +kernel)]
  · intro q w bound
    have text : q.sql = "SELECT DISTINCT t0.\"id\" AS \"id\"" ++ readersText "" :=
      readers_text (.selectIds reader { joins := readerJoins, filter? := some otherTitles })
        (by decide) otherTitles_settled bound rfl (by decide +kernel)
    refine ⟨[⟨[("id", .int 1)]⟩], (), ?_, distinct_twice (alike _)⟩
    show ((.ok (libraryAnswer q.sql), ()) : Except StorageError (List Row) × Unit) = _
    rw [text, libraryAnswer, if_neg (by decide +kernel), if_pos rfl]
  · intro q w bound
    have text : q.sql = "SELECT COUNT(DISTINCT t0.\"id\") AS nb" ++ readersText "" :=
      readers_text (.count reader readerJoins (some otherTitles)) (by decide) otherTitles_settled
        bound rfl (by decide +kernel)
    refine ⟨1, 1, (), ?_, rfl, [.int 1], distinct_twice (Semantics.plain.refl _), rfl⟩
    show ((.ok (libraryAnswer q.sql), ()) : Except StorageError (List Row) × Unit) = _
    rw [text, libraryAnswer, if_pos rfl]

private theorem reader_named : libraryOnly.schema.Named reader where
  own := by decide
  others _ := show book.Named by decide

/-- The first reader is found once, though two books are met. -/
theorem readers_counted_once :
    Translation.of libraryOnly.schema readerType.model otherBooks = .ok ⟨otherTitles, readerJoins⟩ ∧
      (Sql.orderClause libraryOnly.schema readerType.model byFavourite).answer readerJoins =
        (.ok rankedReaders.order, rankedReaders.joins) ∧
      (libraryOnly.schema.Named readerType.model ∧ Semantics.plain.Local readerJoins otherTitles) ∧
      Semantics.plain.KeyedModel library libraryOnly.schema readerType.model ∧
      (∀ row ∈ library readerType.model.root.table,
        ∃ n, row readerType.model.root.primaryKey = .int n) ∧
      Answers (libraryOnly.provider 0) (fun _ => library) Semantics.plain readerType.model readerJoins
        (some otherTitles) rankedReaders ∧
      RequestsAgree libraryOnly 0 readerType otherBooks byFavourite { outside := () } := by
  have translated : Translation.of libraryOnly.schema readerType.model otherBooks =
      .ok ⟨otherTitles, readerJoins⟩ := rfl
  have ordered : (Sql.orderClause libraryOnly.schema readerType.model byFavourite).answer readerJoins =
      (.ok rankedReaders.order, rankedReaders.joins) := rfl
  have confined : Semantics.plain.Local readerJoins otherTitles := fun _ _ _ _ _ _ _ => rfl
  have typed : ∀ row ∈ library readerType.model.root.table,
      ∃ n, row readerType.model.root.primaryKey = .int n := by
    intro row inside
    have given : row "id" ∈ [1, 2, 3].map Value.int :=
      List.mem_map_of_mem (f := fun row : Cells => row "id") inside
    obtain ⟨n, -, same⟩ := List.mem_map.1 given
    exact ⟨n, same.symm⟩
  refine ⟨translated, ordered, ⟨reader_named, confined⟩, reader_keyed, typed, library_answers, ?_⟩
  refine (counting_agrees_with_selecting translated ordered (Or.inr ⟨reader_named, confined⟩) ?_).2
    ?_ library_answers
  · exact reader_keyed
  · exact typed

end EntityStore
