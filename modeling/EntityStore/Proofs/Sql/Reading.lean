import EntityStore.Builder.Exist
import EntityStore.Builder.Query
import EntityStore.Proofs.Sql.Scope

/-!
Statements that read entities from the tables that some paths and filters led to. Queries, counts
and selections of ids compile to nothing else. Their aliases are well scoped.
-/

namespace EntityStore

namespace Resolve

variable {schema : Schema} {model : EntityModel} {tasks : List Task}

/-! ### The tasks of a request -/

theorem reach_snoc (tasks : List Task) (task : Task) :
    reach schema model (tasks ++ [task]) =
      ((perform schema model task).answer (reach schema model tasks)).2 := by
  rw [reach_append]
  rfl

private theorem GivenFilter.later {w : WhereGroup} (given : GivenFilter schema model tasks w)
    (more : List Task) : GivenFilter schema model (tasks ++ more) w := by
  obtain ⟨before, p, after, rfl, given⟩ := given
  exact ⟨before, p, after ++ more, by simp, given⟩

/-- The terms of an order as tasks. -/
theorem order_given (tasks : List Task) (order : List (String × Sql.Direction))
    {terms : List Sql.OrderTerm}
    {after : JoinGraph}
    (ran : (order.mapM fun (path, direction) => do
        let (column, _) ← column schema model path
        return ({ column, direction } : Sql.OrderTerm) : Resolve _).answer
      (reach schema model tasks) = (.ok terms, after)) :
    after = reach schema model (tasks ++ order.map (.column ·.1)) ∧
      ∀ t ∈ terms, GivenColumn schema model (tasks ++ order.map (.column ·.1)) t.column := by
  induction order generalizing tasks terms with
  | nil =>
      rw [List.mapM_nil] at ran
      cases ran
      exact ⟨by simp, fun t member => (List.not_mem_nil member).elim⟩
  | cons term rest ih =>
      rw [List.mapM_cons] at ran
      obtain ⟨first, reached, one, ran⟩ := of_bind ran
      obtain ⟨others, done, each, ran⟩ := of_bind ran
      cases ran
      obtain ⟨⟨ref, found⟩, located, ranColumn, one⟩ := of_bind one
      cases one
      have reachedNext : reached = reach schema model (tasks ++ [.column term.1]) := by
        rw [reach_snoc, perform, graph_of_bind (fun _ _ => rfl), ranColumn]
      rw [reachedNext] at each
      obtain ⟨whole, given⟩ := ih _ each
      rw [List.append_assoc] at whole given
      refine ⟨whole, List.forall_mem_cons.2 ⟨?_, given⟩⟩
      exact ⟨tasks, term.1, rest.map (.column ·.1), found, rfl, by rw [ranColumn]⟩

theorem filter_given (tasks : List Task) (filter? : Option Predicate)
    {given? : Option WhereGroup} {after : JoinGraph}
    (ran : (Builder.resolveFilter schema model filter?).answer (reach schema model tasks) =
      (.ok given?, after)) :
    after = reach schema model (tasks ++ filter?.toList.map .filter) ∧
      ∀ w ∈ given?, GivenFilter schema model (tasks ++ filter?.toList.map .filter) w := by
  cases filter? with
  | none =>
      cases ran
      exact ⟨by simp, fun w member => nomatch member⟩
  | some p =>
      obtain ⟨w, resolved, rfl⟩ := of_returning ran
      have reached : after = reach schema model (tasks ++ [.filter p]) := by
        rw [reach_snoc, perform, graph_of_bind (fun _ _ => rfl), resolved]
      refine ⟨reached, fun w' member => ?_⟩
      cases member
      exact ⟨tasks, p, [], rfl, by rw [resolved]⟩

end Resolve

namespace Sql

open Resolve

variable {schema : Schema} {model : EntityModel} {tasks : List Task}

/-! ### Scopes of statements -/

private theorem entityColumns_known (m : EntityModel) {g : JoinGraph} (sound : g.Sound) :
    ∀ c ∈ entityColumns m g, g.Has c.tableAlias := by
  intro c member
  obtain ⟨level, -, member⟩ := List.mem_flatMap.1 member
  obtain ⟨column, -, rfl⟩ := List.mem_map.1 member
  show g.Has ((g.aliasOf? _).getD JoinGraph.rootAlias)
  cases found : g.aliasOf? (if level.isRoot then "" else JoinGraph.levelKey "" level) with
  | none => exact sound.has_root
  | some a => exact sound.has_of_aliasOf found

namespace Emission

/-- The statement reads the model with the tables, filters and columns that tasks led to. -/
def EmittedAfter (schema : Schema) (model : EntityModel) (tasks : List Task) : Emission → Prop
  | select m s | selectIds m s =>
    m = model ∧ s.joins = reach schema model tasks
      ∧ (∀ w ∈ s.filter?, GivenFilter schema model tasks w)
      ∧ ∀ t ∈ s.order, GivenColumn schema model tasks t.column
  | count m joins filter? =>
    m = model ∧ joins = reach schema model tasks ∧ ∀ w ∈ filter?, GivenFilter schema model tasks w
  | _ => False

def clauses? (spell : Value → String) (bindings : Bindings) (d : Dialect) :
    Emission → Option Clauses
  | select m s => some (Clauses.selection spell bindings d (entityColumns m s.joins) s)
  | selectIds m s => some (Clauses.selection spell bindings d [idColumn m] s)
  | count m joins filter? => some (Clauses.count spell bindings d m joins filter?)
  | _ => none

/-- The statement consists of scoped clauses, and what is sent for it differs from them only in the
placeholders that stand for values. -/
structure WellScoped (e : Emission) (bindings : Bindings) (d : Dialect) : Prop where
  clauses : ∀ spell, ∃ c, e.clauses? spell bindings d = some c ∧ c.Scoped ∧
    spelled c.words = e.inline spell bindings d
  sent : AllFree e.words → ∀ s, (e.template d).bind bindings = .ok s →
    ∃ tokens, printed (·.placeholder) tokens = s.sql ∧
      ∀ spell : Value → String, printed (fun p => spell p.value) tokens = e.inline spell bindings d

private theorem EmittedAfter.resolved {e : Emission} (emitted : e.EmittedAfter schema model tasks) :
    e.Resolved := by
  have each {filter? : Option WhereGroup}
      (given : ∀ w ∈ filter?, GivenFilter schema model tasks w) :
      ∀ w ∈ filter?, WhereGroup.Resolved w := by
    intro w member
    obtain ⟨p, again⟩ := (given w member).again
    exact ⟨schema, model, p, _, _, again⟩
  cases e with
  | select m s => exact each emitted.2.2.1
  | selectIds m s => exact each emitted.2.2.1
  | count m joins filter? => exact each emitted.2.2
  | _ => exact emitted.elim

private theorem EmittedAfter.wellScoped {e : Emission} (emitted : e.EmittedAfter schema model tasks)
    (bindings : Bindings) (d : Dialect) : e.WellScoped bindings d := by
  have sound := sound_reach schema model tasks
  have filtered {filter? : Option WhereGroup}
      (given : ∀ w ∈ filter?, GivenFilter schema model tasks w) :
      ∀ w ∈ filter?, ∀ ref ∈ w.refs, (reach schema model tasks).Has ref.tableAlias := by
    intro w member
    obtain ⟨p, again⟩ := (given w member).again
    exact filter_refs p sound again
  constructor
  · intro spell
    cases e with
    | select m s =>
        obtain ⟨rfl, joins, filter, order⟩ := emitted
        rw [← joins] at sound
        refine ⟨_, rfl, Clauses.scoped_selection sound (entityColumns_known m sound) ?_ ?_,
          Clauses.spelled_selection spell bindings d _ s⟩
        · exact joins ▸ filtered filter
        · exact fun t member => joins ▸ (order t member).known
    | selectIds m s =>
        obtain ⟨rfl, joins, filter, order⟩ := emitted
        rw [← joins] at sound
        refine ⟨_, rfl, Clauses.scoped_selection sound ?_ ?_ ?_,
          Clauses.spelled_selection spell bindings d _ s⟩
        · exact fun c member => List.mem_singleton.1 member ▸ sound.has_root
        · exact joins ▸ filtered filter
        · exact fun t member => joins ▸ (order t member).known
    | count m joins filter? =>
        obtain ⟨rfl, rfl, filter⟩ := emitted
        exact ⟨_, rfl, Clauses.scoped_count sound (filtered filter),
          Clauses.spelled_count spell bindings d m _ filter?⟩
    | _ => exact emitted.elim
  · intro free s bound
    have written (spell : Value → String) :
        Writes (Inline.source spell bindings) (e.writer d) (e.inline spell bindings d) :=
      e.writes spell bindings d free (settled_of_resolved emitted.resolved)
    obtain ⟨tokens, text, -, values⟩ := bind_tokens written (template_eq d e ▸ bound)
    exact ⟨tokens, text, values⟩

end Emission

/-! ### Statements of requests -/

/-- The template is that of a statement on the tables of a model after some tasks. -/
def Template.ReadsAfterTasks (schema : Schema) (model : EntityModel) (d : Dialect) (t : Template) :
    Prop :=
  ∃ tasks e, Emission.EmittedAfter schema model tasks e ∧ t = e.template d

variable {σ ε : Type} (env : Setting σ)

private theorem query_emits (q : Query ε) {t : Template} (compiled : q.compile env = .ok t) :
    t.ReadsAfterTasks env.schema q.type.model (Storage.dialect env q.storage) := by
  unfold Query.compile at compiled
  split at compiled
  · next filter? order joins ran =>
      cases compiled
      obtain ⟨given?, reached, filtered, ran⟩ := of_bind (g := JoinGraph.ofModel q.type.model) ran
      obtain ⟨terms, after, ordered, ran⟩ := of_bind ran
      cases ran
      obtain ⟨here, given⟩ := filter_given [] q.filter? filtered
      rw [here] at ordered
      obtain ⟨there, columns⟩ := order_given _ q.order ordered
      exact ⟨_, .select q.type.model _, ⟨rfl, there, fun w member => (given w member).later _,
        columns⟩, rfl⟩
  · cases compiled

private theorem exist_emits (e : Exist ε) {t : Template} (compiled : e.compile env = .ok t) :
    t.ReadsAfterTasks env.schema e.type.model (Storage.dialect env e.storage) := by
  unfold Exist.compile at compiled
  split at compiled
  · next filter? joins ran =>
      cases compiled
      obtain ⟨here, given⟩ := filter_given [] e.filter? ran
      exact ⟨_, .count e.type.model _ _, ⟨rfl, here, given⟩, rfl⟩
  · cases compiled

private theorem ids_emits (i : StorageId) (model : EntityModel) (p : Predicate) {t : Template}
    (compiled : Builder.idsTemplate env i model p = .ok t) :
    t.ReadsAfterTasks env.schema model (Storage.dialect env i) := by
  obtain ⟨translation, translated, compiled⟩ := of_bind_ok compiled
  cases compiled
  unfold Translation.of at translated
  split at translated
  · next filter joins ran =>
      cases translated
      have resolved : (Resolve.filter env.schema model p).answer (reach env.schema model []) =
          (.ok filter, joins) := ran
      have reached : joins = reach env.schema model ([] ++ [.filter p]) := by
        rw [reach_snoc, perform, graph_of_bind (fun _ _ => rfl), resolved]
      refine ⟨[.filter p], .selectIds model _, ⟨rfl, reached, fun w member => ?_,
        fun t member => (List.not_mem_nil member).elim⟩, rfl⟩
      cases member
      exact ⟨[], p, [], rfl, by rw [resolved]⟩
  · cases translated

/-- Whatever paths and filters are resolved on the tables of a model, failing or not, the tables
only grow, and every statement that reads entities from them is well scoped; the statements of
queries, of counts and of selections of ids are such statements. -/
theorem tables_grow_and_statements_are_scoped (schema : Schema) (model : EntityModel)
    (tasks : List Task) :
    Orderly schema model tasks ∧
      (∀ e : Emission, e.EmittedAfter schema model tasks → ∀ bindings d, e.WellScoped bindings d) ∧
      ∀ (σ ε : Type) (env : Setting σ),
        (∀ (q : Query ε) t, q.compile env = .ok t →
          t.ReadsAfterTasks env.schema q.type.model (Storage.dialect env q.storage)) ∧
        (∀ (e : Exist ε) t, e.compile env = .ok t →
          t.ReadsAfterTasks env.schema e.type.model (Storage.dialect env e.storage)) ∧
        ∀ i m p t, Builder.idsTemplate env i m p = .ok t →
          t.ReadsAfterTasks env.schema m (Storage.dialect env i) :=
  ⟨orderly schema model tasks, fun _ emitted => emitted.wellScoped, fun _ _ env =>
    ⟨fun q _ => query_emits env q, fun e _ => exist_emits env e,
      fun i m p _ => ids_emits env i m p⟩⟩

def employees : EntityModel where
  own :=
    { path := "Employee"
      table := "employees"
      primaryKey := "id"
      columns :=
        [Column.inheritedKey "id", Column.relation "boss_id" "boss" ⟨"Employee"⟩ .setNull] }
  above :=
    [{ path := "Person"
       table := "people"
       primaryKey := "id"
       columns := [Column.generatedKey "id", Column.scalar "age" .int] }]

def bossTasks : List Task :=
  [.column "boss.boss.shoes", .filter (.compare ⟨"boss.age", .gt, .literal (.int 50), false⟩),
    .column "boss.age"]

def byBoss : Emission :=
  .select employees
    { joins := reach ⟨fun _ => employees⟩ employees bossTasks
      filter? := some (.leaf ⟨⟨⟨2⟩, "age"⟩, .gt, .literal (.int 50), none, false⟩)
      order := [⟨⟨⟨2⟩, "age"⟩, .descending⟩] }

private theorem byBoss_emitted : byBoss.EmittedAfter ⟨fun _ => employees⟩ employees bossTasks := by
  refine ⟨rfl, rfl, fun w member => ?_, fun t member => ?_⟩
  · cases member
    exact ⟨[.column "boss.boss.shoes"], _, [.column "boss.age"], rfl, rfl⟩
  · cases List.mem_singleton.1 member
    exact ⟨bossTasks.take 2, "boss.age", [], Column.scalar "age" .int, rfl, rfl⟩

theorem byBoss_scoped :
    byBoss.EmittedAfter ⟨fun _ => employees⟩ employees bossTasks ∧
      (reach ⟨fun _ => employees⟩ employees bossTasks).size = 5 ∧
      byBoss.WellScoped [] .sqlite :=
  ⟨byBoss_emitted, rfl,
    (tables_grow_and_statements_are_scoped ⟨fun _ => employees⟩ employees bossTasks).2.1
      byBoss byBoss_emitted [] .sqlite⟩

end Sql

end EntityStore
