import EntityStore.Proofs.Filter.Growth

/-!
Sequences of paths and filters that are resolved on one graph, as the clauses of a statement are.
Every path that is resolved on the way is kept with the graph it was put to, also inside a filter
that fails later on.
-/

namespace EntityStore

namespace JoinGraph

variable {g later : JoinGraph}

private theorem Extends.antisymm (grown : g.Extends later) (back : later.Extends g) : g = later := by
  have nodes : g.nodes = later.nodes :=
    grown.nodes.eq_of_length (Nat.le_antisymm grown.nodes.length_le back.nodes.length_le)
  have collection : g.collection = later.collection :=
    Bool.eq_iff_iff.2 ⟨grown.collection, back.collection⟩
  cases g
  cases later
  cases nodes
  cases collection
  rfl

end JoinGraph

namespace Resolve

open JoinGraph

variable {α β : Type} {schema : Schema} {model : EntityModel}

/-! ### Filters -/

private theorem steady_comparison (schema : Schema) (model : EntityModel) (c : Comparison) :
    Steady (fun _ => True) (comparison schema model c) (fun _ _ => True) := by
  unfold comparison
  refine (steady_column schema model c.field).bind fun found => ?_
  dsimp only
  split
  · split
    · exact steady_pure fun _ _ => trivial
    · split
      · exact steady_throw
      · split
        · exact steady_throw
        · exact steady_pure fun _ _ => trivial
  · exact steady_throw

mutual

theorem steady_filter (schema : Schema) (model : EntityModel) (p : Predicate) :
    Steady (fun _ => True) (filter schema model p) (fun _ _ => True) := by
  cases p with
  | always => exact steady_pure fun _ _ => trivial
  | never => exact steady_pure fun _ _ => trivial
  | all parts =>
      cases parts with
      | nil => exact steady_pure fun _ _ => trivial
      | cons p ps =>
          exact (steady_filterEach schema model (p :: ps)).bind fun _ =>
            steady_pure fun _ _ => trivial
  | any parts =>
      cases parts with
      | nil => exact steady_pure fun _ _ => trivial
      | cons p ps =>
          exact (steady_filterEach schema model (p :: ps)).bind fun _ =>
            steady_pure fun _ _ => trivial
  | not part =>
      exact (steady_filter schema model part).bind fun _ => steady_pure fun _ _ => trivial
  | isNull field =>
      exact (steady_column schema model field).bind fun _ => steady_pure fun _ _ => trivial
  | isNotNull field =>
      exact (steady_column schema model field).bind fun _ => steady_pure fun _ _ => trivial
  | compare c => exact steady_comparison schema model c

private theorem steady_filterEach (schema : Schema) (model : EntityModel) (ps : List Predicate) :
    Steady (fun _ => True) (filterEach schema model ps) (fun _ _ => True) := by
  cases ps with
  | nil => exact steady_pure fun _ _ => trivial
  | cons p ps =>
      exact (steady_filter schema model p).bind fun _ =>
        (steady_filterEach schema model ps).bind fun _ => steady_pure fun _ _ => trivial

end

private theorem Steady.settled_bind {pre : JoinGraph → Prop} {mid : α → JoinGraph → Prop}
    {post : β → JoinGraph → Prop} {r : Resolve α} {next : α → Resolve β} {g : JoinGraph} {b : β}
    (first : Steady pre r mid) (second : ∀ a, Steady (mid a) (next a) post) (sound : g.Sound)
    (fit : pre g) (settled : (r >>= next).answer g = (.ok b, g)) :
    ∃ a, r.answer g = (.ok a, g) ∧ (next a).answer g = (.ok b, g) := by
  obtain ⟨a, reached, ran, rest⟩ := of_bind settled
  obtain ⟨reachedSound, grown, given⟩ := first g sound fit
  rw [ran] at reachedSound grown given
  have back : reached.Extends g := by
    have grown := (second a reached reachedSound (given a rfl).1).2.1
    rwa [rest] at grown
  cases grown.antisymm back
  exact ⟨a, ran, rest⟩

/-! ### Tasks -/

inductive Task
  | column (path : String)
  | filter (p : Predicate)

inductive Found
  | column (ref : ColumnRef) (column : Column)
  | filter (group : WhereGroup)

def perform (schema : Schema) (model : EntityModel) : Task → Resolve Found
  | .column path => do
    let (ref, column) ← column schema model path
    return .column ref column
  | .filter p => return .filter (← filter schema model p)

def reachFrom (schema : Schema) (model : EntityModel) (g : JoinGraph) (tasks : List Task) :
    JoinGraph :=
  tasks.foldl (fun g task => ((perform schema model task).answer g).2) g

def reach (schema : Schema) (model : EntityModel) (tasks : List Task) : JoinGraph :=
  reachFrom schema model (ofModel model) tasks

structure Lookup where
  path : String
  graph : JoinGraph

def Lookup.outcome (schema : Schema) (model : EntityModel) (l : Lookup) :
    Except TranslateError (ColumnRef × Column) × JoinGraph :=
  (column schema model l.path).answer l.graph

mutual

def lookups (schema : Schema) (model : EntityModel) : Predicate → JoinGraph → List Lookup
  | .always, _ | .never, _ => []
  | .all ps, g | .any ps, g => lookupsEach schema model ps g
  | .not p, g => lookups schema model p g
  | .isNull field, g | .isNotNull field, g => [⟨field, g⟩]
  | .compare c, g => [⟨c.field, g⟩]

def lookupsEach (schema : Schema) (model : EntityModel) :
    List Predicate → JoinGraph → List Lookup
  | [], _ => []
  | p :: ps, g =>
    lookups schema model p g ++
      match (filter schema model p).answer g with
      | (.ok _, reached) => lookupsEach schema model ps reached
      | (.error _, _) => []

end

def Task.lookups (schema : Schema) (model : EntityModel) (g : JoinGraph) : Task → List Lookup
  | .column path => [⟨path, g⟩]
  | .filter p => Resolve.lookups schema model p g

def historyFrom (schema : Schema) (model : EntityModel) (g : JoinGraph) :
    List Task → List Lookup
  | [] => []
  | task :: rest =>
    task.lookups schema model g ++
      historyFrom schema model ((perform schema model task).answer g).2 rest

def history (schema : Schema) (model : EntityModel) (tasks : List Task) : List Lookup :=
  historyFrom schema model (ofModel model) tasks

/-- The filter was given for one of the tasks. -/
def GivenFilter (schema : Schema) (model : EntityModel) (tasks : List Task) (group : WhereGroup) :
    Prop :=
  ∃ before p after, tasks = before ++ .filter p :: after ∧
    ((filter schema model p).answer (reach schema model before)).1 = .ok group

/-- The column was given for one of the tasks. -/
def GivenColumn (schema : Schema) (model : EntityModel) (tasks : List Task) (ref : ColumnRef) :
    Prop :=
  ∃ before path after found, tasks = before ++ .column path :: after ∧
    ((column schema model path).answer (reach schema model before)).1 = .ok (ref, found)

/-! ### From graph to graph -/

private theorem reachFrom_append (g : JoinGraph) (before after : List Task) :
    reachFrom schema model g (before ++ after) =
      reachFrom schema model (reachFrom schema model g before) after :=
  List.foldl_append

theorem reach_append (before after : List Task) :
    reach schema model (before ++ after) =
      reachFrom schema model (reach schema model before) after :=
  reachFrom_append _ before after

theorem steady_perform (schema : Schema) (model : EntityModel) (task : Task) :
    Steady (fun _ => True) (perform schema model task) (fun _ _ => True) := by
  cases task with
  | column path =>
      exact (steady_column schema model path).bind fun _ => steady_pure fun _ _ => trivial
  | filter p => exact (steady_filter schema model p).bind fun _ => steady_pure fun _ _ => trivial

theorem sound_reachFrom {g : JoinGraph} (sound : g.Sound) (tasks : List Task) :
    (reachFrom schema model g tasks).Sound ∧ g.Extends (reachFrom schema model g tasks) := by
  induction tasks generalizing g with
  | nil => exact ⟨sound, .refl g⟩
  | cons task rest ih =>
      obtain ⟨afterSound, grown, -⟩ := steady_perform schema model task g sound trivial
      obtain ⟨reachedSound, further⟩ := ih afterSound
      exact ⟨reachedSound, grown.trans further⟩

theorem sound_reach (schema : Schema) (model : EntityModel) (tasks : List Task) :
    (reach schema model tasks).Sound :=
  (sound_reachFrom (sound_ofModel model) tasks).1

private theorem extends_reach (before after : List Task) :
    (reach schema model before).Extends (reach schema model (before ++ after)) := by
  rw [reach_append]
  exact (sound_reachFrom (sound_reach schema model before) after).2

def Leads (schema : Schema) (model : EntityModel) (last : JoinGraph) :
    JoinGraph → List Lookup → Prop
  | g, [] => g = last
  | g, l :: ls => l.graph = g ∧ Leads schema model last (l.outcome schema model).2 ls

theorem Leads.append {g mid last : JoinGraph} {ls more : List Lookup}
    (first : Leads schema model mid g ls) (second : Leads schema model last mid more) :
    Leads schema model last g (ls ++ more) := by
  induction ls generalizing g with
  | nil =>
      cases first
      exact second
  | cons l ls ih => exact ⟨first.1, ih first.2⟩

theorem leads_single (path : String) (g : JoinGraph) :
    Leads schema model ((column schema model path).answer g).2 g [⟨path, g⟩] :=
  ⟨rfl, rfl⟩

theorem graph_of_bind {r : Resolve α} {next : α → Resolve β}
    (keeps : ∀ a g, ((next a).answer g).2 = g) (g : JoinGraph) :
    ((r >>= next).answer g).2 = (r.answer g).2 := by
  rw [answer_bind]
  obtain ⟨outcome, reached⟩ := r.answer g
  cases outcome with
  | ok a => exact keeps a reached
  | error e => rfl

private theorem leads_comparison (c : Comparison) (g : JoinGraph) :
    Leads schema model ((comparison schema model c).answer g).2 g [⟨c.field, g⟩] := by
  refine ⟨rfl, ?_⟩
  unfold comparison
  refine (graph_of_bind (fun found g => ?_) g).symm
  dsimp only
  split
  · split
    · rfl
    · split
      · rfl
      · split <;> rfl
  · rfl

private theorem graph_of_filterEach (p : Predicate) (ps : List Predicate) (g : JoinGraph) :
    ((filterEach schema model (p :: ps)).answer g).2 =
      match (filter schema model p).answer g with
      | (.ok _, reached) => ((filterEach schema model ps).answer reached).2
      | (.error _, reached) => reached := by
  rw [filterEach, answer_bind]
  obtain ⟨outcome, reached⟩ := (filter schema model p).answer g
  cases outcome with
  | ok w => exact graph_of_bind (fun _ _ => rfl) reached
  | error e => rfl

mutual

private theorem leads_filter (p : Predicate) (g : JoinGraph) :
    Leads schema model ((filter schema model p).answer g).2 g (lookups schema model p g) := by
  cases p with
  | always => exact rfl
  | never => exact rfl
  | all parts =>
      cases parts with
      | nil => exact rfl
      | cons p ps =>
          rw [filter, graph_of_bind (fun _ _ => rfl)]
          exact leads_filterEach (p :: ps) g
  | any parts =>
      cases parts with
      | nil => exact rfl
      | cons p ps =>
          rw [filter, graph_of_bind (fun _ _ => rfl)]
          exact leads_filterEach (p :: ps) g
  | not part =>
      rw [filter, graph_of_bind (fun _ _ => rfl)]
      exact leads_filter part g
  | isNull field =>
      rw [filter, graph_of_bind (fun _ _ => rfl)]
      exact leads_single field g
  | isNotNull field =>
      rw [filter, graph_of_bind (fun _ _ => rfl)]
      exact leads_single field g
  | compare c => exact leads_comparison c g

theorem leads_filterEach (ps : List Predicate) (g : JoinGraph) :
    Leads schema model ((filterEach schema model ps).answer g).2 g
      (lookupsEach schema model ps g) := by
  cases ps with
  | nil => exact rfl
  | cons p ps =>
      have first := leads_filter p g
      rw [graph_of_filterEach, lookupsEach]
      cases ran : (filter schema model p).answer g with
      | mk outcome reached =>
          rw [ran] at first
          cases outcome with
          | ok w => exact first.append (leads_filterEach ps reached)
          | error e => exact first.append rfl

end

private theorem leads_task (task : Task) (g : JoinGraph) :
    Leads schema model ((perform schema model task).answer g).2 g
      (task.lookups schema model g) := by
  cases task with
  | column path =>
      rw [perform, graph_of_bind (fun _ _ => rfl)]
      exact leads_single path g
  | filter p =>
      rw [perform, graph_of_bind (fun _ _ => rfl)]
      exact leads_filter p g

theorem leads_historyFrom (schema : Schema) (model : EntityModel) (tasks : List Task)
    (g : JoinGraph) :
    Leads schema model (reachFrom schema model g tasks) g (historyFrom schema model g tasks) := by
  induction tasks generalizing g with
  | nil => exact rfl
  | cons task rest ih => exact (leads_task task g).append (ih _)

/-! ### What lies on the way -/

structure Lookup.Lasting (schema : Schema) (model : EntityModel) (l : Lookup) (later : JoinGraph) :
    Prop where
  grown : (l.outcome schema model).2.Extends later
  again : ∀ found, (l.outcome schema model).1 = .ok found →
    later.Has found.1.tableAlias ∧ (column schema model l.path).answer later = (.ok found, later)

private theorem Lookup.lasting (l : Lookup) {later : JoinGraph} (sound : l.graph.Sound)
    (laterSound : later.Sound) (grown : (l.outcome schema model).2.Extends later) :
    l.Lasting schema model later := by
  refine ⟨grown, fun found given => ?_⟩
  obtain ⟨-, -, gives⟩ := steady_column schema model l.path l.graph sound trivial
  obtain ⟨has, again⟩ := gives found given
  exact ⟨has.mono grown, again later laterSound grown⟩

structure Leads.Kept (schema : Schema) (model : EntityModel) (last g : JoinGraph)
    (ls : List Lookup) : Prop where
  sound : last.Sound
  grown : g.Extends last
  each : ∀ l ∈ ls, l.graph.Sound ∧ g.Extends l.graph ∧ l.Lasting schema model last
  pairs : ls.Pairwise fun earlier later => earlier.Lasting schema model later.graph

private theorem Leads.kept {g last : JoinGraph} {ls : List Lookup}
    (leads : Leads schema model last g ls)
    (sound : g.Sound) : Kept schema model last g ls := by
  induction ls generalizing g with
  | nil =>
      cases leads
      exact ⟨sound, .refl _, fun l member => (List.not_mem_nil member).elim, .nil⟩
  | cons l ls ih =>
      obtain ⟨here, rest⟩ := leads
      subst here
      obtain ⟨nextSound, grown, -⟩ := steady_column schema model l.path l.graph sound trivial
      have kept := ih rest nextSound
      refine ⟨kept.sound, grown.trans kept.grown, fun l' member => ?_, List.pairwise_cons.2
        ⟨fun l' member => ?_, kept.pairs⟩⟩
      · rcases List.mem_cons.1 member with rfl | member
        · exact ⟨sound, .refl _, l'.lasting sound kept.sound kept.grown⟩
        · obtain ⟨thereSound, there, lasting⟩ := kept.each l' member
          exact ⟨thereSound, grown.trans there, lasting⟩
      · obtain ⟨thereSound, there, -⟩ := kept.each l' member
        exact l.lasting sound thereSound there

theorem kept_history (schema : Schema) (model : EntityModel) (tasks : List Task) :
    Leads.Kept schema model (reach schema model tasks) (ofModel model)
      (history schema model tasks) :=
  (leads_historyFrom schema model tasks (ofModel model)).kept (sound_ofModel model)

theorem extends_perform (schema : Schema) (model : EntityModel) (task : Task)
    (before after : List Task) :
    ((perform schema model task).answer (reach schema model before)).2.Extends
      (reach schema model (before ++ task :: after)) := by
  rw [reach_append]
  have performed := steady_perform schema model task _ (sound_reach schema model before) trivial
  exact (sound_reachFrom performed.1 after).2

theorem GivenFilter.again {tasks : List Task} {group : WhereGroup}
    (given : GivenFilter schema model tasks group) :
    ∃ p, (filter schema model p).answer (reach schema model tasks) =
      (.ok group, reach schema model tasks) := by
  obtain ⟨before, p, after, rfl, given⟩ := given
  have grown := extends_perform schema model (.filter p) before after
  rw [perform, graph_of_bind (fun _ _ => rfl)] at grown
  obtain ⟨-, -, gives⟩ := steady_filter schema model p _ (sound_reach schema model before) trivial
  exact ⟨p, (gives group given).2 _ (sound_reach schema model _) grown⟩

theorem GivenColumn.known {tasks : List Task} {ref : ColumnRef}
    (given : GivenColumn schema model tasks ref) :
    (reach schema model tasks).Has ref.tableAlias := by
  obtain ⟨before, path, after, found, rfl, given⟩ := given
  have grown := extends_perform schema model (.column path) before after
  rw [perform, graph_of_bind (fun _ _ => rfl)] at grown
  have performed := steady_column schema model path _ (sound_reach schema model before) trivial
  exact (performed.2.2 (ref, found) given).1.mono grown

/-! ### Columns of a filter -/

end Resolve

namespace WhereGroup

mutual

def refs : WhereGroup → List ColumnRef
  | const _ => []
  | all parts | any parts => refsEach parts
  | not part => refs part
  | leaf l => [l.column]
  | null column _ => [column]

def refsEach : List WhereGroup → List ColumnRef
  | [] => []
  | g :: gs => refs g ++ refsEach gs

end

end WhereGroup

namespace Resolve

open JoinGraph

variable {schema : Schema} {model : EntityModel} {g : JoinGraph}

private theorem constantComparison_refs {ref : ColumnRef} {op : CompareOp} {operand : Operand}
    {w : WhereGroup} (constant : constantComparison? ref op operand = some w) :
    ∀ r ∈ w.refs, r = ref := by
  unfold constantComparison? at constant
  split at constant
  · split at constant <;> cases constant <;> exact fun r member => List.mem_singleton.1 member
  · split at constant <;> cases constant <;> exact fun r member => (List.not_mem_nil member).elim
  · cases constant

/-- A comparison that resolves is constant or a comparison of the column that its path leads to. -/
theorem comparison_cases {c : Comparison} {before after : JoinGraph} {w : WhereGroup}
    (resolved : (comparison schema model c).answer before = (.ok w, after)) :
    ∃ ref found type, (column schema model c.field).answer before = (.ok (ref, found), after) ∧
      found.sqlType? = some type ∧
      (constantComparison? ref c.op c.operand = some w ∨
        constantComparison? ref c.op c.operand = none ∧ (c.casefold && !type.isText) = false ∧
          w = .leaf ⟨ref, c.op, c.operand, absentValue? found type c, c.casefold⟩) := by
  unfold comparison at resolved
  obtain ⟨⟨ref, found⟩, reached, ran, resolved⟩ := of_bind resolved
  dsimp only at resolved
  split at resolved
  · next type typed =>
      split at resolved
      · next constant =>
          cases resolved
          exact ⟨ref, found, type, ran, typed, Or.inl constant⟩
      · next varying =>
          split at resolved
          · cases resolved
          · split at resolved
            · cases resolved
            · next cased =>
                cases resolved
                exact ⟨ref, found, type, ran, typed,
                  Or.inr ⟨Option.eq_none_iff_forall_ne_some.2 varying,
                    Bool.eq_false_iff.2 cased, rfl⟩⟩
  · cases resolved

private theorem comparison_refs {c : Comparison} {before after : JoinGraph} {w : WhereGroup}
    (resolved : (comparison schema model c).answer before = (.ok w, after)) :
    ∃ ref found, (column schema model c.field).answer before = (.ok (ref, found), after) ∧
      ∀ r ∈ w.refs, r = ref := by
  obtain ⟨ref, found, type, ran, -, constant | ⟨-, -, rfl⟩⟩ := comparison_cases resolved
  · exact ⟨ref, found, ran, constantComparison_refs constant⟩
  · exact ⟨ref, found, ran, fun r member => List.mem_singleton.1 member⟩

theorem of_returning {α β : Type} {r : Resolve α} {done : α → β} {before after : JoinGraph}
    {b : β}
    (ran : (do return done (← r) : Resolve β).answer before = (.ok b, after)) :
    ∃ a, r.answer before = (.ok a, after) ∧ done a = b := by
  obtain ⟨a, reached, first, last⟩ := of_bind ran
  cases last
  exact ⟨a, first, rfl⟩

theorem settled_cons (sound : g.Sound) {p : Predicate} {ps : List Predicate} {ws : List WhereGroup}
    (settled : (filterEach schema model (p :: ps)).answer g = (.ok ws, g)) :
    ∃ w rest, (filter schema model p).answer g = (.ok w, g) ∧
      (filterEach schema model ps).answer g = (.ok rest, g) ∧ ws = w :: rest := by
  have steadyRest (w : WhereGroup) : Steady (fun _ => True)
      (do return w :: (← filterEach schema model ps) : Resolve (List WhereGroup))
      (fun _ _ => True) :=
    (steady_filterEach schema model ps).bind fun _ => steady_pure fun _ _ => trivial
  obtain ⟨w, first, settled⟩ :=
    (steady_filter schema model p).settled_bind steadyRest sound trivial settled
  obtain ⟨rest, others, rfl⟩ := of_returning settled
  exact ⟨w, rest, first, others, rfl⟩

mutual

/-- A filter that is given without a change of the graph reads tables of the graph only. -/
theorem filter_refs (p : Predicate) (sound : g.Sound) {w : WhereGroup}
    (settled : (filter schema model p).answer g = (.ok w, g)) :
    ∀ ref ∈ w.refs, g.Has ref.tableAlias := by
  have known {path : String} {ref : ColumnRef} {found : Column}
      (ran : (column schema model path).answer g = (.ok (ref, found), g)) :
      g.Has ref.tableAlias := by
    have gives := (steady_column schema model path g sound trivial).2.2
    rw [ran] at gives
    exact (gives _ rfl).1
  have nullKnown {field : String} {negated : Bool}
      (settled : (do return .null (← column schema model field).1 negated :
        Resolve WhereGroup).answer g = (.ok w, g)) : ∀ ref ∈ w.refs, g.Has ref.tableAlias := by
    obtain ⟨found, ran, rfl⟩ := of_returning settled
    intro ref member
    cases List.mem_singleton.1 member
    exact known ran
  cases p with
  | always =>
      cases of_pure settled
      exact fun ref member => (List.not_mem_nil member).elim
  | never =>
      cases of_pure settled
      exact fun ref member => (List.not_mem_nil member).elim
  | all parts =>
      cases parts with
      | nil =>
          cases of_pure settled
          exact fun ref member => (List.not_mem_nil member).elim
      | cons p ps =>
          obtain ⟨ws, each, rfl⟩ := of_returning settled
          exact filterEach_refs (p :: ps) sound each
  | any parts =>
      cases parts with
      | nil =>
          cases of_pure settled
          exact fun ref member => (List.not_mem_nil member).elim
      | cons p ps =>
          obtain ⟨ws, each, rfl⟩ := of_returning settled
          exact filterEach_refs (p :: ps) sound each
  | not part =>
      obtain ⟨inner, whole, rfl⟩ := of_returning settled
      have known := filter_refs part sound whole
      exact known
  | isNull field => exact nullKnown settled
  | isNotNull field => exact nullKnown settled
  | compare c =>
      obtain ⟨ref, found, ran, only⟩ := comparison_refs settled
      exact fun r member => only r member ▸ known ran

theorem filterEach_refs (ps : List Predicate) (sound : g.Sound) {ws : List WhereGroup}
    (settled : (filterEach schema model ps).answer g = (.ok ws, g)) :
    ∀ ref ∈ WhereGroup.refsEach ws, g.Has ref.tableAlias := by
  cases ps with
  | nil =>
      cases of_pure settled
      exact fun ref member => (List.not_mem_nil member).elim
  | cons p ps =>
      obtain ⟨w, rest, first, others, rfl⟩ := settled_cons sound settled
      intro ref member
      rcases List.mem_append.1 member with member | member
      · exact filter_refs p sound first ref member
      · exact filterEach_refs ps sound others ref member

end

/-! ### What becomes of the tables -/

/-- The tables after some tasks: told apart by their keys, numbered, each joined to one before it.
Tables once there stay where they are; a path that has resolved resolves to the same again and adds
nothing; and what was given reads tables that are there. -/
structure Orderly (schema : Schema) (model : EntityModel) (tasks : List Task) : Prop where
  distinct : ((reach schema model tasks).nodes.map (·.key)).Nodup
  numbered : ∀ (i : Nat) (node : JoinNode), (reach schema model tasks).nodes[i]? = some node →
    node.tableAlias.text = "t" ++ toString i
  joined : ∀ (i : Nat) (node : JoinNode), (reach schema model tasks).nodes[i + 1]? = some node →
    ∃ on : JoinOn, node.on? = some on ∧
      on.left ∈ ((reach schema model tasks).nodes.take (i + 1)).map (·.tableAlias)
  kept : ∀ before after, tasks = before ++ after →
    (reach schema model before).nodes <+: (reach schema model tasks).nodes
  met : ∀ l ∈ history schema model tasks,
    l.graph.nodes <+: (l.outcome schema model).2.nodes ∧
      (l.outcome schema model).2.nodes <+: (reach schema model tasks).nodes ∧
      ∀ ref column, (l.outcome schema model).1 = .ok (ref, column) →
        ref.tableAlias ∈ (l.outcome schema model).2.nodes.map (·.tableAlias)
  repeated : (history schema model tasks).Pairwise fun earlier later =>
    (earlier.outcome schema model).2.nodes <+: later.graph.nodes ∧
      (later.path = earlier.path → ∀ found, (earlier.outcome schema model).1 = .ok found →
        later.outcome schema model = (.ok found, later.graph))
  filtered : ∀ w, GivenFilter schema model tasks w → ∀ ref ∈ w.refs,
    ref.tableAlias ∈ (reach schema model tasks).nodes.map (·.tableAlias)

theorem orderly (schema : Schema) (model : EntityModel) (tasks : List Task) :
    Orderly schema model tasks := by
  have sound := sound_reach schema model tasks
  have history := kept_history schema model tasks
  constructor
  case distinct => exact sound.distinct
  case numbered =>
    intro i node found
    rw [sound.numbered i node found]
    rfl
  case joined =>
    intro i node found
    obtain ⟨on, joined, before⟩ := sound.joined i node found
    refine ⟨on, joined, ?_⟩
    rw [List.map_take, sound.aliases, ← List.map_take, List.take_range, List.mem_map]
    refine ⟨on.left.number, List.mem_range.2 (Nat.lt_min.2 ⟨Nat.lt_succ_of_le before, ?_⟩), rfl⟩
    exact Nat.lt_of_le_of_lt before (Nat.lt_of_succ_lt (List.getElem?_eq_some_iff.1 found).1)
  case kept =>
    rintro before after rfl
    exact (extends_reach before after).nodes
  case met =>
    intro l member
    obtain ⟨lookupSound, -, lasting⟩ := history.each l member
    obtain ⟨afterSound, grown, gives⟩ :=
      steady_column schema model l.path l.graph lookupSound trivial
    exact ⟨grown.nodes, lasting.grown.nodes, fun ref column given =>
      afterSound.mem_aliases.2 (gives _ given).1⟩
  case repeated =>
    refine history.pairs.imp fun {earlier later} lasting => ⟨lasting.grown.nodes, ?_⟩
    intro same found given
    rw [Lookup.outcome, same]
    exact (lasting.again found given).2
  case filtered =>
    intro w given ref member
    obtain ⟨p, again⟩ := given.again
    exact sound.mem_aliases.2 (filter_refs p sound again ref member)

end Resolve

end EntityStore
