import EntityStore.Proofs.Filter.Trail
import EntityStore.Sql.Select
import Mathlib.Data.List.Induction

/-!
Joins by unique keys. Every table that a path brings in is joined by the key of a level, except the
link table behind a relation to many rows; and where one of those is brought in, the graph says so.
The levels of the model itself are joined to its root by their keys.
-/

namespace EntityStore

namespace JoinGraph

/-- The level of the model or of one that relations may lead to. -/
def Reachable (schema : Schema) (model level : EntityModel) : Prop :=
  level ∈ model.chain ∨ ∃ target, level ∈ (schema.model target).chain

def ByKey (schema : Schema) (model : EntityModel) (node : JoinNode) : Prop :=
  ∀ on, node.on? = some on → ∃ level, Reachable schema model level ∧
    node.table = level.table ∧ on.rightColumn = level.primaryKey

def Marked (schema : Schema) (model : EntityModel) (g : JoinGraph) : Prop :=
  g.collection = true ∨ ∀ node ∈ g.joins, ByKey schema model node

variable {schema : Schema} {model : EntityModel} {g : JoinGraph}

private theorem Marked.ensure (marked : g.Marked schema model) {level : EntityModel}
    (reachable : Reachable schema model level) (key : String) (kind : JoinKind)
    (left : TableAlias) (leftColumn : String) :
    (g.ensure key level.table kind ⟨left, leftColumn, level.primaryKey⟩).2.Marked schema model := by
  cases known : g.aliasOf? key with
  | some a =>
      rw [ensure_found _ _ _ known]
      exact marked
  | none =>
      rw [ensure_added known]
      refine marked.imp id fun each node inside => ?_
      rcases List.mem_append.1 inside with old | new
      · exact each node old
      · cases List.mem_singleton.1 new
        intro on joined
        cases joined
        exact ⟨level, reachable, rfl, rfl⟩

end JoinGraph

namespace Resolve

open JoinGraph

variable {α β : Type} {schema : Schema} {model : EntityModel} {inv : JoinGraph → Prop}

/-- Whatever it comes to, the resolution keeps what holds of the graph. -/
def Keeps (inv : JoinGraph → Prop) (r : Resolve α) : Prop :=
  ∀ g, inv g → inv (r.answer g).2

theorem keeps_pure (a : α) : Keeps inv (pure a) :=
  fun _ holds => holds

theorem keeps_throw (e : TranslateError) : Keeps inv (throw e : Resolve α) :=
  fun _ holds => holds

theorem Keeps.bind {r : Resolve α} {next : α → Resolve β} (first : Keeps inv r)
    (second : ∀ a, Keeps inv (next a)) : Keeps inv (r >>= next) := by
  intro g holds
  have reached := first g holds
  rw [answer_bind]
  generalize r.answer g = ran at reached
  obtain ⟨outcome, after⟩ := ran
  cases outcome with
  | ok a => exact second a after reached
  | error e => exact reached

theorem keeps_ensure {level : EntityModel} (reachable : Reachable schema model level)
    (key : String) (kind : JoinKind) (left : TableAlias) (leftColumn : String) :
    Keeps (Marked schema model)
      (ensure key level.table kind ⟨left, leftColumn, level.primaryKey⟩) :=
  fun _ marked => marked.ensure reachable key kind left leftColumn

private theorem keeps_levelAlias {m level : EntityModel} (reachable : Reachable schema model level)
    (key : String) : Keeps (Marked schema model) (levelAlias key m level) := by
  intro g marked
  have rest : Keeps (Marked schema model)
      (if level.same m.root then pure ((g.aliasOf? key).getD rootAlias)
        else ensure (levelKey key level) level.table (if key = "" then .inner else .leftOuter)
          ⟨(g.aliasOf? key).getD rootAlias, m.root.primaryKey, level.primaryKey⟩ :
        Resolve TableAlias) := by
    split
    · exact keeps_pure _
    · exact keeps_ensure reachable _ _ _ _
  exact rest g marked

private theorem keeps_links (linkKey linkTable key table : String) (linkOn : JoinOn)
    (on : TableAlias → JoinOn) {next : Resolve β} (rest : Keeps (Marked schema model) next) :
    Keeps (Marked schema model) (do
      let link ← ensure linkKey linkTable .leftOuter linkOn
      let _ ← ensure key table .leftOuter (on link)
      markCollection
      next) :=
  fun _ _ => rest _ (Or.inl rfl)

private theorem keeps_walk (path : String) (names : List String) (key : String) (m : EntityModel)
    (reachable : ∀ level ∈ m.chain, Reachable schema model level) :
    Keeps (Marked schema model) (walk schema path key m names) := by
  induction names generalizing key m with
  | nil => exact keeps_throw _
  | cons name rest ih =>
      have onward (key : String) (target : ModelRef) :
          Keeps (Marked schema model) (walk schema path key (schema.model target) rest) :=
        ih key _ fun level inside => Or.inr ⟨target, inside⟩
      unfold walk
      split
      · exact keeps_throw _
      · next level column finds =>
          have inside := (EntityModel.findColumn_cases finds).1
          refine (keeps_levelAlias (reachable level inside) key).bind fun here => ?_
          split
          · split
            · exact keeps_pure _
            · exact keeps_throw _
          · split
            · next field target _ _ =>
                have root : Reachable schema model (schema.model target).root :=
                  Or.inr ⟨target, EntityModel.root_mem_chain _⟩
                exact (keeps_ensure root _ _ _ _).bind fun _ => onward _ target
            · next target table _ => exact keeps_links _ _ _ _ _ _ (onward _ target)
            · exact keeps_throw _

theorem keeps_column (path : String) :
    Keeps (Marked schema model) (column schema model path) :=
  keeps_walk path _ "" model fun _ inside => Or.inl inside

private theorem Leads.keeps {last g : JoinGraph} {ls : List Lookup}
    (leads : Leads schema model last g ls)
    (each : ∀ path, Keeps inv (column schema model path)) (holds : inv g) : inv last := by
  induction ls generalizing g with
  | nil =>
      cases leads
      exact holds
  | cons l rest ih =>
      obtain ⟨rfl, later⟩ := leads
      exact ih later (each l.path l.graph holds)

end Resolve

namespace JoinGraph

open Resolve

variable {schema : Schema} {model : EntityModel} {g : JoinGraph}

structure LevelNode (model : EntityModel) (node : JoinNode) : Prop where
  inner : node.kind = .inner
  joined : ∃ level ∈ model.chain, node.table = level.table ∧
    node.on? = some ⟨rootAlias, model.root.primaryKey, level.primaryKey⟩

structure Levelled (model : EntityModel) (levels : List EntityModel) (g : JoinGraph) : Prop where
  nodes : ∀ node ∈ g.joins, LevelNode model node ∧ node.key = "@" ++ node.table
  known : ∀ level ∈ levels, g.Knows (levelKey "" level)

theorem levelKey_start (level : EntityModel) : levelKey "" level = "@" ++ level.table := by
  rw [levelKey, String.empty_append]

private theorem Levelled.joinLevel (sound : g.Sound) {levels : List EntityModel}
    (levelled : g.Levelled model levels) {level : EntityModel} (inside : level ∈ model.chain) :
    (joinLevel model.root g level).Levelled model (levels ++ [level]) := by
  obtain ⟨-, grown, found⟩ := sound.ensure (levelKey "" level) level.table .inner
    ⟨rootAlias, model.root.primaryKey, level.primaryKey⟩ sound.has_root
  constructor
  · intro node present
    unfold JoinGraph.joinLevel at present
    cases known : g.aliasOf? (levelKey "" level) with
    | some a =>
        rw [ensure_found _ _ _ known] at present
        exact levelled.nodes node present
    | none =>
        rw [ensure_added known] at present
        rcases List.mem_append.1 present with old | new
        · exact levelled.nodes node old
        · cases List.mem_singleton.1 new
          exact ⟨⟨rfl, level, inside, rfl, rfl⟩, levelKey_start level⟩
  · intro other member
    rcases List.mem_append.1 member with old | last
    · obtain ⟨a, known⟩ := levelled.known other old
      exact ⟨a, aliasOf_extends grown known⟩
    · rw [List.mem_singleton.1 last]
      exact ⟨_, found⟩

theorem levelled_ofModel (model : EntityModel) :
    (ofModel model).Levelled model model.levels.tail := by
  have joined (levels : List EntityModel) : (∀ level ∈ levels, level ∈ model.chain) →
      (levels.foldl (joinLevel model.root) (rootOnly model)).Sound ∧
        (levels.foldl (joinLevel model.root) (rootOnly model)).Levelled model levels := by
    induction levels using List.reverseRecOn with
    | nil => exact fun _ => ⟨sound_rootOnly model, fun _ absurd => (nomatch absurd), by simp⟩
    | append_singleton levels level ih =>
        intro inside
        obtain ⟨sound, levelled⟩ := ih fun other member => inside other (by simp [member])
        rw [List.foldl_append]
        exact ⟨(sound.ensure _ _ _ _ sound.has_root).1,
          levelled.joinLevel sound (inside level (by simp))⟩
  exact (joined _ fun level member =>
    EntityModel.mem_levels.1 (List.mem_of_mem_tail member)).2

private theorem marked_ofModel (schema : Schema) (model : EntityModel) :
    (ofModel model).Marked schema model := by
  refine Or.inr fun node inside on joined => ?_
  obtain ⟨level, member, table, joined'⟩ := ((levelled_ofModel model).nodes node inside).1.joined
  cases joined.symm.trans joined'
  exact ⟨level, Or.inl member, table, rfl⟩

theorem marked_reach (schema : Schema) (model : EntityModel) (tasks : List Task) :
    (reach schema model tasks).Marked schema model :=
  (leads_historyFrom schema model tasks (ofModel model)).keeps keeps_column
    (marked_ofModel schema model)

theorem root_ofModel (model : EntityModel) : (ofModel model).root = (rootOnly model).root := by
  have kept (levels : List EntityModel) (g : JoinGraph) :
      (levels.foldl (joinLevel model.root) g).root = g.root := by
    induction levels generalizing g with
    | nil => rfl
    | cons level rest ih =>
        rw [List.foldl_cons, ih, joinLevel, JoinGraph.ensure]
        split <;> rfl
  exact kept _ _

theorem root_extends {later : JoinGraph} (grown : g.Extends later) : later.root = g.root := by
  obtain ⟨added, same⟩ := grown.nodes
  exact (List.cons.inj same).1.symm

theorem levelAlias_root (grown : (ofModel model).Extends g) :
    Sql.levelAlias g model.root = rootAlias := by
  have root := (EntityModel.isRoot_iff (EntityModel.root_mem_chain model)).2 rfl
  have start := aliasOf_extends grown (sound_ofModel model).aliasOf_start
  rw [Sql.levelAlias, if_pos root, start]
  rfl

private theorem mem_below {level : EntityModel} (member : level ∈ model.levels)
    (apart : level ≠ model.root) :
    level ∈ model.levels.tail := by
  obtain ⟨below, same, -⟩ := EntityModel.levels_eq_cons model
  rw [same] at member ⊢
  exact (List.mem_cons.1 member).resolve_left apart

theorem aliasOf_level (grown : (ofModel model).Extends g) {level : EntityModel}
    (member : level ∈ model.levels) (apart : level ≠ model.root) :
    ∃ a, (ofModel model).aliasOf? (levelKey "" level) = some a ∧
      g.aliasOf? (levelKey "" level) = some a ∧ Sql.levelAlias g level = a := by
  obtain ⟨a, known⟩ := (levelled_ofModel model).known level (mem_below member apart)
  have later := aliasOf_extends grown known
  have below : ¬level.isRoot = true :=
    mt (EntityModel.isRoot_iff (EntityModel.mem_levels.1 member)).1 apart
  exact ⟨a, known, later, by rw [Sql.levelAlias, if_neg below, later]; rfl⟩

/-- A level is read from the root's table, or from one that is joined to it by the level's key. -/
theorem levelAlias_cases (grown : (ofModel model).Extends g) {level : EntityModel}
    (member : level ∈ model.levels) :
    level = model.root ∧ Sql.levelAlias g level = rootAlias ∨
      ∃ node ∈ g.joins, LevelNode model node ∧ node.table = level.table ∧
        node.tableAlias = Sql.levelAlias g level := by
  by_cases first : level = model.root
  · exact Or.inl ⟨first, first ▸ levelAlias_root grown⟩
  · right
    obtain ⟨a, known, -, placed⟩ := aliasOf_level grown member first
    obtain ⟨node, present, named, numbered⟩ := aliasOf_eq_some known
    rcases List.mem_cons.1 present with rfl | joined
    · rw [(sound_ofModel model).start.1, levelKey_start] at named
      exact absurd (String.append_eq_empty_iff.1 named.symm).1 (by decide)
    · obtain ⟨levelNode, keyed⟩ := (levelled_ofModel model).nodes node joined
      rw [named, levelKey_start] at keyed
      have table : level.table = node.table := String.append_right_inj _ |>.1 keyed
      refine ⟨node, ?_, levelNode, table.symm, numbered.trans placed.symm⟩
      obtain ⟨added, same⟩ := grown.nodes
      rw [nodes, nodes, List.cons_append, List.cons.injEq] at same
      rw [← same.2]
      exact List.mem_append_left _ joined

end JoinGraph

end EntityStore
