import EntityStore.Proofs.Filter.History
import EntityStore.Proofs.Filter.Keys
import EntityStore.Proofs.Model.Chain

/-!
The joins behind a column. Walking back from the table of a column, join by join, gives the joins
that the path to the column prescribes, as long as names are clear. Where two relations of a model
share the name that makes up their keys, the table of one may stand in for that of the other.
-/

namespace EntityStore

/-- A join as it is met on the way: how, which table, and the columns that are equal. -/
structure JoinStep where
  kind : JoinKind
  table : String
  leftColumn : String
  rightColumn : String
  deriving DecidableEq, Repr

namespace JoinGraph

/-! ### Walking back -/

def nodeOf? (g : JoinGraph) (a : TableAlias) : Option JoinNode :=
  g.nodes.find? (·.tableAlias == a)

def tableOf? (g : JoinGraph) (a : TableAlias) : Option String :=
  (g.nodeOf? a).map (·.table)

def back (g : JoinGraph) : Nat → TableAlias → Option (List JoinStep)
  | 0, _ => none
  | n + 1, a =>
    match g.nodeOf? a with
    | none => none
    | some node =>
      match node.on? with
      | none => some []
      | some on =>
        (back g n on.left).map (· ++ [⟨node.kind, node.table, on.leftColumn, on.rightColumn⟩])

def trail? (g : JoinGraph) (a : TableAlias) : Option (List JoinStep) :=
  back g g.size a

variable {g later : JoinGraph} {a : TableAlias} {node : JoinNode} {on : JoinOn}

theorem Sound.nodeOf (sound : g.Sound) {i : Nat} (found : g.nodes[i]? = some node) :
    g.nodeOf? ⟨i⟩ = some node := by
  obtain ⟨inside, here⟩ := List.getElem?_eq_some_iff.1 found
  refine List.find?_eq_some_iff_getElem.2
    ⟨beq_iff_eq.2 (sound.numbered i node found), i, inside, here, fun j before => ?_⟩
  have numbered := sound.numbered j _ (List.getElem?_eq_getElem (Nat.lt_trans before inside))
  rw [numbered, Bool.not_eq_true', beq_eq_false_iff_ne]
  intro same
  exact Nat.ne_of_lt before (congrArg TableAlias.number same)

theorem Sound.nodeOf_mem (sound : g.Sound) (member : node ∈ g.nodes) :
    g.nodeOf? node.tableAlias = some node := by
  obtain ⟨i, found⟩ := List.mem_iff_getElem?.1 member
  rw [sound.numbered i node found]
  exact sound.nodeOf found

/-- The first table is the only one that is joined to none; all others are joined to tables with
smaller numbers. -/
theorem Sound.before (sound : g.Sound) (has : g.Has a) :
    ∃ node, g.nodeOf? a = some node ∧ ∀ on : JoinOn, node.on? = some on →
      on.left.number < a.number := by
  obtain ⟨i⟩ := a
  obtain ⟨node, found⟩ : ∃ node, g.nodes[i]? = some node := ⟨_, List.getElem?_eq_getElem has⟩
  refine ⟨node, sound.nodeOf found, fun on joined => ?_⟩
  cases i with
  | zero =>
      have first : g.root = node := Option.some.inj found
      rw [← first, sound.start.2] at joined
      cases joined
  | succ i =>
      obtain ⟨on', same, before⟩ := sound.joined i node found
      cases same.symm.trans joined
      exact Nat.lt_succ_of_le before

theorem nodeOf_extends (grown : g.Extends later) (found : g.nodeOf? a = some node) :
    later.nodeOf? a = some node := by
  obtain ⟨added, same⟩ := grown.nodes
  unfold nodeOf? at found ⊢
  rw [← same, List.find?_append, found]
  rfl

/-- The way back is the same on later graphs and with more steps allowed than it takes. -/
theorem back_extends (sound : g.Sound) (grown : g.Extends later) {n m : Nat} (has : g.Has a)
    (enough : a.number < n) (more : a.number < m) : back later m a = back g n a := by
  induction n generalizing m a with
  | zero => cases enough
  | succ n ih =>
      cases m with
      | zero => cases more
      | succ m =>
          obtain ⟨node, here, before⟩ := sound.before has
          rw [back, back, here, nodeOf_extends grown here]
          dsimp only
          cases joined : node.on? with
          | none => rfl
          | some on =>
              have smaller := before on joined
              dsimp only
              rw [ih (Nat.lt_trans smaller has) (by omega) (by omega)]

theorem trail_extends (sound : g.Sound) (grown : g.Extends later) (has : g.Has a) :
    later.trail? a = g.trail? a :=
  back_extends sound grown has has (has.mono grown)

private theorem tableOf_extends (grown : g.Extends later) {table : String}
    (found : g.tableOf? a = some table) : later.tableOf? a = some table := by
  obtain ⟨node, here, rfl⟩ := Option.map_eq_some_iff.1 found
  rw [tableOf?, nodeOf_extends grown here]
  rfl

private theorem trail_joined (sound : g.Sound) (member : node ∈ g.nodes) (joined : node.on? = some on)
    {steps : List JoinStep} (before : g.trail? on.left = some steps) :
    g.trail? node.tableAlias =
      some (steps ++ [⟨node.kind, node.table, on.leftColumn, on.rightColumn⟩]) := by
  have has := sound.has_of_mem member
  obtain ⟨node', here, smaller⟩ := sound.before has
  cases (sound.nodeOf_mem member).symm.trans here
  have less := smaller on joined
  have leftHas : g.Has on.left := Nat.lt_trans less has
  have unfolded : g.trail? node.tableAlias = back g (g.joins.length + 1) node.tableAlias := rfl
  have inside : node.tableAlias.number < g.joins.length + 1 := has
  have back : back g g.joins.length on.left = some steps :=
    (back_extends sound (.refl g) leftHas (by omega) leftHas).symm.trans before
  rw [unfolded, JoinGraph.back, here]
  dsimp only
  rw [joined]
  dsimp only
  rw [back]
  rfl

theorem trail_root (sound : g.Sound) : g.trail? rootAlias = some [] := by
  have here : g.nodeOf? rootAlias = some g.root := sound.nodeOf rfl
  show back g (g.joins.length + 1) rootAlias = some []
  rw [back, here]
  dsimp only
  rw [sound.start.2]

end JoinGraph

/-! ### What a path prescribes -/

/-- The join that leads from the root's table to that of a level, at the model that is asked for or
behind a relation. -/
def levelJoin (first : Bool) (m level : EntityModel) : List JoinStep :=
  if level = m.root then []
  else [⟨if first then .inner else .leftOuter, level.table, m.root.primaryKey, level.primaryKey⟩]

/-- The joins of a relation, from the level that declares it, and the model that they lead to. -/
def hopJoins (schema : Schema) (level : EntityModel) (column : Column) :
    Option (List JoinStep × EntityModel) :=
  match column.kind with
  | .scalar .. => none
  | .relation _ target _ =>
    let target := schema.model target
    some ([⟨.leftOuter, target.root.table, column.name, target.root.primaryKey⟩], target)
  | .many target table =>
    let target := schema.model target
    let links := LinkTable.between table column.name level target
    some ([⟨.leftOuter, links.table, level.primaryKey, links.ownerColumn⟩,
      ⟨.leftOuter, target.root.table, links.targetColumn, target.root.primaryKey⟩], target)

/-- The joins that the names of a path ask for, one after the other, and the column at its end with
the level that declares it. -/
def prescribed (schema : Schema) (first : Bool) (m : EntityModel) :
    List String → Option (List JoinStep × EntityModel × Column)
  | [] => none
  | name :: rest =>
    match m.findColumn? name with
    | none => none
    | some (level, column) =>
      if rest.isEmpty then
        if column.isPhysical then some (levelJoin first m level, level, column) else none
      else
        match hopJoins schema level column with
        | none => none
        | some (joins, target) =>
          (prescribed schema false target rest).map fun (more, found) =>
            (levelJoin first m level ++ joins ++ more, found)

private theorem prescribed_last {schema : Schema} {first : Bool} {m level : EntityModel}
    {column : Column}
    {name : String} (finds : m.findColumn? name = some (level, column))
    (physical : column.isPhysical = true) :
    prescribed schema first m [name] = some (levelJoin first m level, level, column) := by
  rw [prescribed, finds]
  exact if_pos physical

private theorem prescribed_hop {schema : Schema} {first : Bool} {m level target : EntityModel}
    {column : Column} {name : String} {rest : List String} {joins more : List JoinStep}
    {found : EntityModel × Column} (finds : m.findColumn? name = some (level, column))
    (further : rest.isEmpty = false) (hops : hopJoins schema level column = some (joins, target))
    (onwards : prescribed schema false target rest = some (more, found)) :
    prescribed schema first m (name :: rest) =
      some (levelJoin first m level ++ (joins ++ more), found) := by
  rw [prescribed, finds]
  dsimp only
  rw [if_neg (Bool.eq_false_iff.1 further), hops]
  dsimp only
  rw [onwards, ← List.append_assoc]
  rfl

namespace EntityModel

def foundRelations (m : EntityModel) : List (EntityModel × Column) :=
  (m.chain.flatMap fun level => level.columns.map fun c => (level, c)).filter fun found =>
    found.2.target?.isSome &&
      (m.findColumn? found.2.name == some found || m.findColumn? found.2.fieldName == some found)

theorem findColumn_cases {m : EntityModel} {name : String} {found : EntityModel × Column}
    (finds : m.findColumn? name = some found) :
    found.1 ∈ m.chain ∧ found.2 ∈ found.1.columns ∧
      (found.2.name = name ∨ found.2.fieldName = name) := by
  obtain ⟨level, member, here⟩ := List.exists_of_findSome?_eq_some finds
  obtain ⟨column, found, rfl⟩ := Option.map_eq_some_iff.1 here
  have answers := List.find?_some (p := fun c : Column => c.answersTo name) found
  rw [Column.answersTo, Bool.or_eq_true, beq_iff_eq, beq_iff_eq] at answers
  exact ⟨member, List.mem_of_find?_eq_some found, answers⟩

theorem mem_foundRelations {m : EntityModel} {name : String} {found : EntityModel × Column}
    (finds : m.findColumn? name = some found) (relation : found.2.target?.isSome = true) :
    found ∈ m.foundRelations := by
  obtain ⟨member, declared, named⟩ := findColumn_cases finds
  refine List.mem_filter.2 ⟨List.mem_flatMap.2 ⟨found.1, member, List.mem_map.2
    ⟨found.2, declared, rfl⟩⟩, ?_⟩
  rw [relation, Bool.true_and, Bool.or_eq_true, beq_iff_eq, beq_iff_eq]
  rcases named with rfl | rfl
  · exact Or.inl finds
  · exact Or.inr finds

/-- Names that keep the tables of a model apart: those of relations are plain and each stands for
one relation only, the root is the only level of its path, and levels in one table share its key. -/
structure Clear (m : EntityModel) : Prop where
  plain : ∀ found ∈ m.foundRelations, JoinGraph.PlainName found.2.fieldName
  apart : ∀ found ∈ m.foundRelations, ∀ other ∈ m.foundRelations,
    found.2.fieldName = other.2.fieldName → found = other
  paths : ∀ level ∈ m.chain, level.path = m.root.path → level = m.root
  keys : ∀ level ∈ m.chain, ∀ other ∈ m.chain, level ≠ m.root → other ≠ m.root →
    level.table = other.table → level.primaryKey = other.primaryKey

instance (m : EntityModel) : Decidable m.Clear :=
  decidable_of_iff
    ((∀ found ∈ m.foundRelations, JoinGraph.PlainName found.2.fieldName) ∧
      (∀ found ∈ m.foundRelations, ∀ other ∈ m.foundRelations,
        found.2.fieldName = other.2.fieldName → found = other) ∧
      (∀ level ∈ m.chain, level.path = m.root.path → level = m.root) ∧
      ∀ level ∈ m.chain, ∀ other ∈ m.chain, level ≠ m.root → other ≠ m.root →
        level.table = other.table → level.primaryKey = other.primaryKey)
    ⟨fun ⟨plain, apart, paths, keys⟩ => ⟨plain, apart, paths, keys⟩,
      fun clear => ⟨clear.plain, clear.apart, clear.paths, clear.keys⟩⟩

end EntityModel

theorem hopJoins_target {schema : Schema} {level target : EntityModel} {column : Column}
    {joins : List JoinStep} (hops : hopJoins schema level column = some (joins, target)) :
    column.target?.isSome = true ∧ ∃ ref, target = schema.model ref := by
  unfold hopJoins at hops
  unfold Column.target?
  split at hops
  · cases hops
  · next kind =>
      cases hops
      rw [kind]
      exact ⟨rfl, _, rfl⟩
  · next kind =>
      cases hops
      rw [kind]
      exact ⟨rfl, _, rfl⟩

section

variable (schema : Schema) (model : EntityModel)

inductive Place : List String → EntityModel → List JoinStep → Prop
  | start : Place [] model []
  | hop {fields : List String} {m level target : EntityModel} {steps joins : List JoinStep}
      {name field : String} {column : Column} (before : Place fields m steps)
      (finds : m.findColumn? name = some (level, column)) (named : field = column.fieldName)
      (hops : hopJoins schema level column = some (joins, target)) :
      Place (field :: fields) target (steps ++ levelJoin fields.isEmpty m level ++ joins)

open JoinGraph in
inductive Prescribes : String → String → List JoinStep → Prop
  | root {fields : List String} {m : EntityModel} {steps : List JoinStep}
      (place : Place schema model fields m steps) :
      Prescribes (pathKey fields) m.root.table steps
  | level {fields : List String} {m level : EntityModel} {steps : List JoinStep}
      (place : Place schema model fields m steps) (member : level ∈ m.chain)
      (below : level ≠ m.root) :
      Prescribes (levelKey (pathKey fields) level) level.table
        (steps ++ levelJoin fields.isEmpty m level)
  | link {fields : List String} {m level target : EntityModel} {steps : List JoinStep}
      {name : String} {column : Column} {first last : JoinStep}
      (place : Place schema model fields m steps)
      (finds : m.findColumn? name = some (level, column))
      (hops : hopJoins schema level column = some ([first, last], target)) :
      Prescribes (linkKey (pathKey (column.fieldName :: fields))) first.table
        (steps ++ levelJoin fields.isEmpty m level ++ [first])

end

/-- Names are clear in a model and in all that its relations may lead to. -/
structure Clear (schema : Schema) (model : EntityModel) : Prop where
  here : model.Clear
  there : ∀ ref, (schema.model ref).Clear

namespace Place

variable {schema : Schema} {model m other : EntityModel} {fields : List String}
  {steps more : List JoinStep}

theorem clear (place : Place schema model fields m steps) (clear : Clear schema model) :
    m.Clear := by
  cases place with
  | start => exact clear.here
  | hop before finds named hops =>
      obtain ⟨-, ref, rfl⟩ := hopJoins_target hops
      exact clear.there ref

theorem plain (place : Place schema model fields m steps) (clear : Clear schema model) :
    ∀ f ∈ fields, JoinGraph.PlainName f := by
  induction place with
  | start => exact fun f member => (List.not_mem_nil member).elim
  | hop before finds named hops ih =>
      have relation := EntityModel.mem_foundRelations finds (hopJoins_target hops).1
      exact List.forall_mem_cons.2 ⟨named ▸ (before.clear clear).plain _ relation, ih⟩

/-- The relations determine the model and the joins. -/
theorem unique (place : Place schema model fields m steps) (clear : Clear schema model)
    (again : Place schema model fields other more) : m = other ∧ steps = more := by
  induction place generalizing other more with
  | start =>
      cases again
      exact ⟨rfl, rfl⟩
  | hop before finds named hops ih =>
      cases again with
      | hop before' finds' named' hops' =>
          obtain ⟨rfl, rfl⟩ := ih before'
          have same := (before.clear clear).apart _
            (EntityModel.mem_foundRelations finds (hopJoins_target hops).1) _
            (EntityModel.mem_foundRelations finds' (hopJoins_target hops').1)
            (named.symm.trans named')
          cases same
          cases hops.symm.trans hops'
          exact ⟨rfl, rfl⟩

end Place

private theorem levelJoin_same {m level other : EntityModel} (clear : m.Clear) (first : Bool)
    (member : level ∈ m.chain) (otherMember : other ∈ m.chain) (below : level ≠ m.root)
    (otherBelow : other ≠ m.root) (same : level.table = other.table) :
    levelJoin first m level = levelJoin first m other := by
  rw [levelJoin, levelJoin, if_neg below, if_neg otherBelow, same,
    clear.keys level member other otherMember below otherBelow same]

/-- A key belongs to one table, which is reached in one way. -/
theorem Prescribes.unique {schema : Schema} {model : EntityModel}
    {key other table otherTable : String} {steps more : List JoinStep}
    (one : Prescribes schema model key table steps) (clear : Clear schema model)
    (two : Prescribes schema model other otherTable more) (same : key = other) :
    table = otherTable ∧ steps = more := by
  cases one with
  | root place =>
      have plain := place.plain clear
      cases two with
      | root place' =>
          cases JoinGraph.pathKey_injective plain (place'.plain clear) same
          obtain ⟨rfl, rfl⟩ := place.unique clear place'
          exact ⟨rfl, rfl⟩
      | level place' => exact (JoinGraph.pathKey_ne_levelKey plain _ _ same).elim
      | link place' => exact (JoinGraph.pathKey_ne_linkKey plain _ same).elim
  | level place member below =>
      have plain := place.plain clear
      cases two with
      | root place' =>
          exact (JoinGraph.pathKey_ne_levelKey (place'.plain clear) _ _ same.symm).elim
      | level place' member' below' =>
          obtain ⟨rfl, tables⟩ := JoinGraph.levelKey_injective plain (place'.plain clear) same
          obtain ⟨rfl, rfl⟩ := place.unique clear place'
          rw [levelJoin_same (place.clear clear) _ member member' below below' tables]
          exact ⟨tables, rfl⟩
      | link place' finds' hops' =>
          have plain' := (Place.hop place' finds' rfl hops').plain clear
          exact (JoinGraph.linkKey_ne_levelKey plain' _ _ same.symm).elim
  | link place finds hops =>
      have plain := (Place.hop place finds rfl hops).plain clear
      cases two with
      | root place' =>
          exact (JoinGraph.pathKey_ne_linkKey (place'.plain clear) _ same.symm).elim
      | level place' => exact (JoinGraph.linkKey_ne_levelKey plain _ _ same).elim
      | link place' finds' hops' =>
          have plain' := (Place.hop place' finds' rfl hops').plain clear
          obtain ⟨names, rfl⟩ := List.cons.inj (JoinGraph.linkKey_injective plain plain' same)
          obtain ⟨rfl, rfl⟩ := place.unique clear place'
          have found := (place.clear clear).apart _
            (EntityModel.mem_foundRelations finds (hopJoins_target hops).1) _
            (EntityModel.mem_foundRelations finds' (hopJoins_target hops').1) names
          cases found
          cases hops.symm.trans hops'
          exact ⟨rfl, rfl⟩

/-! ### Graphs that keep to what is prescribed -/

namespace JoinGraph

def Faithful (schema : Schema) (model : EntityModel) (g : JoinGraph) : Prop :=
  ∀ node ∈ g.nodes, ∃ steps, g.trail? node.tableAlias = some steps ∧
    Prescribes schema model node.key node.table steps

def Reaches (g : JoinGraph) (a : TableAlias) (table : String) (steps : List JoinStep) : Prop :=
  g.trail? a = some steps ∧ g.tableOf? a = some table

variable {schema : Schema} {model : EntityModel} {g later : JoinGraph} {a : TableAlias}
  {key table : String} {kind : JoinKind} {on : JoinOn} {steps : List JoinStep}

theorem Reaches.has (reaches : g.Reaches a table steps) (sound : g.Sound) : g.Has a := by
  obtain ⟨node, found, -⟩ := Option.map_eq_some_iff.1 reaches.2
  have named := List.find?_some (p := fun n : JoinNode => n.tableAlias == a) found
  exact beq_iff_eq.1 named ▸ sound.has_of_mem (List.mem_of_find?_eq_some found)

theorem Faithful.reaches (faithful : g.Faithful schema model) (sound : g.Sound)
    (clear : Clear schema model) (found : g.aliasOf? key = some a)
    (asked : Prescribes schema model key table steps) : g.Reaches a table steps := by
  obtain ⟨node, member, named, rfl⟩ := aliasOf_eq_some found
  obtain ⟨steps', trail, prescribes⟩ := faithful node member
  obtain ⟨rfl, rfl⟩ := prescribes.unique clear asked named
  refine ⟨trail, ?_⟩
  rw [tableOf?, sound.nodeOf_mem member]
  rfl

/-- Looking up or adding the table that a key prescribes keeps the graph faithful. -/
theorem Faithful.ensure (faithful : g.Faithful schema model) (sound : g.Sound)
    (clear : Clear schema model) (on : JoinOn) (has : g.Has on.left)
    (before : g.trail? on.left = some steps) (asked : Prescribes schema model key table
      (steps ++ [⟨kind, table, on.leftColumn, on.rightColumn⟩])) :
    (g.ensure key table kind on).2.Faithful schema model ∧
      (g.ensure key table kind on).2.Reaches (g.ensure key table kind on).1 table
        (steps ++ [⟨kind, table, on.leftColumn, on.rightColumn⟩]) := by
  obtain ⟨afterSound, grown, known⟩ := sound.ensure key table kind on has
  have kept : (g.ensure key table kind on).2.Faithful schema model := by
    cases missing : g.aliasOf? key with
    | some a => rwa [ensure_found table kind on missing]
    | none =>
        rw [ensure_added missing] at afterSound grown ⊢
        intro node there
        change node ∈ g.nodes ++ [g.added key table kind on] at there
        rcases List.mem_append.1 there with old | new
        · obtain ⟨steps', trail, prescribes⟩ := faithful node old
          have same := trail_extends sound grown (sound.has_of_mem old)
          exact ⟨steps', same.trans trail, prescribes⟩
        · cases List.mem_singleton.1 new
          refine ⟨_, trail_joined afterSound there rfl ?_, asked⟩
          exact (trail_extends sound grown has).trans before
  exact ⟨kept, kept.reaches afterSound clear known asked⟩

private theorem faithful_rootOnly : (rootOnly model).Faithful schema model := by
  intro node member
  cases List.mem_singleton.1 member
  exact ⟨[], trail_root (sound_rootOnly model), .root .start⟩

private theorem faithful_ofModel (clear : Clear schema model) :
    (ofModel model).Faithful schema model := by
  have joined (levels : List EntityModel)
      (below : ∀ level ∈ levels, level ∈ model.chain ∧ level ≠ model.root) {g : JoinGraph}
      (sound : g.Sound) (faithful : g.Faithful schema model) :
      (levels.foldl (joinLevel model.root) g).Faithful schema model := by
    induction levels generalizing g with
    | nil => exact faithful
    | cons level rest ih =>
        obtain ⟨declares, apart⟩ := below level List.mem_cons_self
        have top : Place schema model [] model [] := .start
        have asked := Prescribes.level top declares apart
        rw [levelJoin, if_neg apart] at asked
        have next := faithful.ensure sound clear ⟨rootAlias, model.root.primaryKey,
          level.primaryKey⟩ sound.has_root (trail_root sound) asked
        exact ih (fun other member => below other (List.mem_cons_of_mem level member))
          (sound.ensure _ _ _ _ sound.has_root).1 next.1
  obtain ⟨lower, chain, absent⟩ := model.chain_eq_append_root
  have levels : model.levels.tail = lower.reverse := by
    rw [EntityModel.levels, chain, List.reverse_append]
    rfl
  refine joined _ (fun level member => ?_) (sound_rootOnly model) faithful_rootOnly
  rw [levels, List.mem_reverse] at member
  refine ⟨?_, fun same => absent (same ▸ member)⟩
  rw [chain]
  exact List.mem_append_left _ member

end JoinGraph

namespace Resolve

open JoinGraph

variable {α β : Type} {schema : Schema} {model : EntityModel} {pre : JoinGraph → Prop}
  {mid : α → JoinGraph → Prop} {post : β → JoinGraph → Prop}

/-- The resolution keeps a graph with `pre` sound and faithful, also if it fails, and what it gives
fulfils `post`. -/
def Follows (schema : Schema) (model : EntityModel) (pre : JoinGraph → Prop) (r : Resolve α)
    (post : α → JoinGraph → Prop) : Prop :=
  ∀ g : JoinGraph, g.Sound → g.Faithful schema model → pre g →
    (r.answer g).2.Sound ∧ (r.answer g).2.Faithful schema model ∧
      ∀ a, (r.answer g).1 = .ok a → post a (r.answer g).2

private theorem follows_pure {a : α} {post : α → JoinGraph → Prop} (holds : ∀ g, pre g → post a g) :
    Follows schema model pre (pure a) post := by
  intro g sound faithful fit
  refine ⟨sound, faithful, fun b same => ?_⟩
  cases same
  exact holds g fit

private theorem follows_throw {e : TranslateError} :
    Follows schema model pre (throw e : Resolve β) post := by
  intro g sound faithful _
  exact ⟨sound, faithful, fun b same => nomatch same⟩

private theorem Follows.bind {r : Resolve α} {next : α → Resolve β}
    (first : Follows schema model pre r mid)
    (second : ∀ a, Follows schema model (mid a) (next a) post) :
    Follows schema model pre (r >>= next) post := by
  intro g sound faithful fit
  obtain ⟨reachedSound, reachedFaithful, given⟩ := first g sound faithful fit
  rw [answer_bind]
  cases ran : r.answer g with
  | mk outcome after =>
      rw [ran] at reachedSound reachedFaithful given
      cases outcome with
      | error e => exact ⟨reachedSound, reachedFaithful, fun b same => nomatch same⟩
      | ok a => exact second a after reachedSound reachedFaithful (given a rfl)

private theorem Follows.mono {r : Resolve β} {pre' : JoinGraph → Prop} {post' : β → JoinGraph → Prop}
    (follows : Follows schema model pre r post) (before : ∀ g, pre' g → pre g)
    (after : ∀ b g, post b g → post' b g) : Follows schema model pre' r post' := by
  intro g sound faithful fit
  obtain ⟨afterSound, afterFaithful, given⟩ := follows g sound faithful (before g fit)
  exact ⟨afterSound, afterFaithful, fun b same => after b _ (given b same)⟩

theorem follows_ensure (clear : Clear schema model) {key table : String} {kind : JoinKind}
    {left : TableAlias} {leftTable leftColumn rightColumn : String} {steps : List JoinStep}
    (asked : Prescribes schema model key table
      (steps ++ [⟨kind, table, leftColumn, rightColumn⟩])) :
    Follows schema model (fun g => g.Reaches left leftTable steps)
      (ensure key table kind ⟨left, leftColumn, rightColumn⟩)
      (fun a g => g.aliasOf? key = some a ∧
        g.Reaches a table (steps ++ [⟨kind, table, leftColumn, rightColumn⟩])) := by
  intro g sound faithful reached
  have has := reached.has sound
  obtain ⟨afterSound, -, known⟩ :=
    sound.ensure key table kind ⟨left, leftColumn, rightColumn⟩ has
  obtain ⟨afterFaithful, reaches⟩ := faithful.ensure sound clear
    ⟨left, leftColumn, rightColumn⟩ has reached.1 asked
  refine ⟨afterSound, afterFaithful, fun a same => ?_⟩
  cases same
  exact ⟨known, reaches⟩

private theorem follows_markCollection {kept : JoinGraph → Prop}
    (unmarked : ∀ g, kept g → kept { g with collection := true }) :
    Follows schema model kept markCollection (fun _ => kept) := by
  intro g sound faithful fit
  obtain ⟨markedSound, grown, given⟩ := steady_markCollection unmarked g sound fit
  refine ⟨markedSound, fun node member => ?_, fun u same => (given u same).1⟩
  obtain ⟨steps, trail, prescribes⟩ := faithful node member
  exact ⟨steps, (trail_extends sound grown (sound.has_of_mem member)).trans trail, prescribes⟩

variable {m : EntityModel} {fields : List String} {steps : List JoinStep}

private theorem follows_levelAlias (clear : Clear schema model)
    (place : Place schema model fields m steps)
    {level : EntityModel} (member : level ∈ m.chain) :
    Follows schema model (fun g => g.Knows (pathKey fields))
      (levelAlias (pathKey fields) m level)
      (fun a g => g.Reaches a level.table (steps ++ levelJoin fields.isEmpty m level)) := by
  intro g sound faithful known
  obtain ⟨node, found⟩ := known
  rw [answer_levelAlias m level found]
  have reached := faithful.reaches sound clear found (.root place)
  by_cases top : level = m.root
  · have same : level.same m.root = true := beq_iff_eq.2 (congrArg EntityModel.path top)
    rw [if_pos same, levelJoin, if_pos top, List.append_nil, top]
    exact ⟨sound, faithful, fun a same => by cases same; exact reached⟩
  · have apart : ¬level.same m.root = true := fun same =>
      top ((place.clear clear).paths level member (beq_iff_eq.1 same))
    have kind : (if pathKey fields = "" then JoinKind.inner else .leftOuter) =
        if fields.isEmpty then .inner else .leftOuter := by
      simp only [pathKey_eq_empty (place.plain clear), List.isEmpty_iff]
    have asked := Prescribes.level place member top
    rw [levelJoin, if_neg top] at asked ⊢
    rw [if_neg apart, kind]
    obtain ⟨afterSound, afterFaithful, given⟩ :=
      follows_ensure clear asked g sound faithful reached
    exact ⟨afterSound, afterFaithful, fun a same => (given a same).2⟩

/-- Where a hop and then the rest of a path leads, the whole path leads. -/
theorem reaches_hop {level target : EntityModel} {column : Column} {name : String}
    {rest : List String} {joins : List JoinStep}
    (finds : m.findColumn? name = some (level, column)) (further : rest.isEmpty = false)
    (hops : hopJoins schema level column = some (joins, target)) (found : ColumnRef × Column)
    (g : JoinGraph)
    (reached : ∃ more last, prescribed schema false target rest = some (more, last, found.2) ∧
      g.Reaches found.1.tableAlias last.table
        (steps ++ levelJoin fields.isEmpty m level ++ joins ++ more) ∧
      found.1.column = found.2.name) :
    ∃ more last, prescribed schema fields.isEmpty m (name :: rest) =
        some (more, last, found.2) ∧
      g.Reaches found.1.tableAlias last.table (steps ++ more) ∧
      found.1.column = found.2.name := by
  obtain ⟨more, last, onwards, reaches, named⟩ := reached
  refine ⟨_, last, prescribed_hop finds further hops onwards, ?_, named⟩
  rwa [List.append_assoc, List.append_assoc] at reaches

/-- What the rest of a path leads to is what its names prescribe. -/
theorem follows_walk (clear : Clear schema model) (path : String) (names : List String)
    (place : Place schema model fields m steps) :
    Follows schema model (fun g => g.Knows (pathKey fields))
      (walk schema path (pathKey fields) m names)
      (fun found g => ∃ more level,
        prescribed schema fields.isEmpty m names = some (more, level, found.2) ∧
          g.Reaches found.1.tableAlias level.table (steps ++ more) ∧
          found.1.column = found.2.name) := by
  induction names generalizing fields m steps with
  | nil => exact follows_throw
  | cons name rest ih =>
      unfold walk
      cases finds : m.findColumn? name with
      | none => exact follows_throw
      | some found =>
          obtain ⟨level, column⟩ := found
          dsimp only
          have declares := (EntityModel.findColumn_cases finds).1
          refine (follows_levelAlias clear place declares).bind fun here => ?_
          cases final : rest.isEmpty with
          | true =>
              rw [if_pos rfl]
              split
              · next physical =>
                  rw [List.isEmpty_iff] at final
                  subst final
                  exact follows_pure fun g reached =>
                    ⟨_, level, prescribed_last finds physical, reached, rfl⟩
              · exact follows_throw
          | false =>
              rw [if_neg Bool.false_ne_true]
              split
              · next field target onDelete kind =>
                  have hops : hopJoins schema level column =
                      some ([⟨.leftOuter, (schema.model target).root.table, column.name,
                        (schema.model target).root.primaryKey⟩], schema.model target) := by
                    rw [hopJoins, kind]
                  have named : field = column.fieldName := by rw [Column.fieldName, kind]
                  have next := Place.hop place finds named hops
                  refine (follows_ensure clear (.root next)).bind fun _ => ?_
                  exact (ih next).mono (fun _ known => ⟨_, known.1⟩)
                    (reaches_hop finds final hops)
              · next target table kind =>
                  have hops : hopJoins schema level column =
                      some ([⟨.leftOuter, table, level.primaryKey,
                          (LinkTable.between table column.name level
                            (schema.model target)).ownerColumn⟩,
                        ⟨.leftOuter, (schema.model target).root.table,
                          (LinkTable.between table column.name level
                            (schema.model target)).targetColumn,
                          (schema.model target).root.primaryKey⟩], schema.model target) := by
                    rw [hopJoins, kind]
                    rfl
                  have named : column.name = column.fieldName := by rw [Column.fieldName, kind]
                  have next := Place.hop place finds named hops
                  have link := Prescribes.link place finds hops
                  rw [← named] at link
                  have target' := Prescribes.root next
                  rw [List.append_cons] at target'
                  refine (follows_ensure clear link).bind fun via => ?_
                  refine ((follows_ensure clear target').mono (fun _ linked => linked.2)
                    fun a _ known => (⟨a, known.1⟩ : Knows _ _)).bind fun _ => ?_
                  refine (follows_markCollection fun _ known => known).bind fun _ => ?_
                  exact (ih next).mono (fun _ known => known) (reaches_hop finds final hops)
              · exact follows_throw

theorem follows_column (clear : Clear schema model) (path : String) :
    Follows schema model (fun _ => True) (column schema model path)
      (fun found g => ∃ steps level,
        prescribed schema true model (segments path) = some (steps, level, found.2) ∧
          g.Reaches found.1.tableAlias level.table steps ∧ found.1.column = found.2.name) := by
  intro g sound faithful _
  exact follows_walk clear path (segments path) .start g sound faithful ⟨_, sound.aliasOf_start⟩

private theorem Leads.faithful {g last : JoinGraph} {ls : List Lookup}
    (leads : Leads schema model last g ls) (clear : Clear schema model) (sound : g.Sound)
    (faithful : g.Faithful schema model) :
    ∀ l ∈ ls, l.graph.Sound ∧ l.graph.Faithful schema model := by
  induction ls generalizing g with
  | nil => exact fun l member => (List.not_mem_nil member).elim
  | cons l ls ih =>
      obtain ⟨here, rest⟩ := leads
      subst here
      obtain ⟨nextSound, nextFaithful, -⟩ :=
        follows_column clear l.path l.graph sound faithful trivial
      exact List.forall_mem_cons.2 ⟨⟨sound, faithful⟩, ih rest nextSound nextFaithful⟩

/-- The joins behind a column that a path resolves to are those that the names of the path ask for,
and the table is that of the level that declares the column. -/
def Describes (schema : Schema) (model : EntityModel) (g : JoinGraph) (path : String)
    (ref : ColumnRef) (column : Column) : Prop :=
  ∃ steps level, prescribed schema true model (segments path) = some (steps, level, column) ∧
    g.trail? ref.tableAlias = some steps ∧ g.tableOf? ref.tableAlias = some level.table ∧
    ref.column = column.name

/-- As long as names are clear, a column is always reached by the joins that its path describes,
whatever was resolved on the same graph before and is resolved after. -/
theorem joins_are_those_described (schema : Schema) (model : EntityModel)
    (clear : Clear schema model) (tasks : List Task) :
    ∀ l ∈ history schema model tasks, ∀ ref column,
      (l.outcome schema model).1 = .ok (ref, column) →
        Describes schema model (l.outcome schema model).2 l.path ref column ∧
          Describes schema model (reach schema model tasks) l.path ref column := by
  intro l member ref column given
  have leads := leads_historyFrom schema model tasks (ofModel model)
  obtain ⟨sound, faithful⟩ := leads.faithful clear (sound_ofModel model)
    (faithful_ofModel clear) l member
  obtain ⟨afterSound, -, gives⟩ := follows_column clear l.path l.graph sound faithful trivial
  obtain ⟨steps, level, asked, reached, named⟩ := gives _ given
  have grown := ((kept_history schema model tasks).each l member).2.2.grown
  refine ⟨⟨steps, level, asked, reached.1, reached.2, named⟩, steps, level, asked, ?_,
    tableOf_extends grown reached.2, named⟩
  exact (trail_extends afterSound grown (reached.has afterSound)).trans reached.1

def people (chief : String) : EntityModel where
  own :=
    { path := "Person"
      table := "person"
      primaryKey := "id"
      columns := [Column.generatedKey "id", Column.text "name" .maxVarChar,
        Column.relation "chief_id" chief ⟨"Person"⟩ .noAction] }

def workers (chief boss : String) : EntityModel where
  own :=
    { path := "Worker"
      table := "worker"
      primaryKey := "id"
      columns := [Column.inheritedKey "id", Column.relation "boss_id" boss ⟨"Person"⟩ .noAction] }
  above := [(people chief).own]

theorem chief_of_boss_described :
    Clear ⟨fun _ => people "chief"⟩ (workers "chief" "boss") ∧
      Describes ⟨fun _ => people "chief"⟩ (workers "chief" "boss")
        (reach ⟨fun _ => people "chief"⟩ (workers "chief" "boss")
          [.column "boss.name", .column "boss.chief_id.name"])
        "boss.chief_id.name" ⟨⟨3⟩, "name"⟩ (Column.text "name" .maxVarChar) := by
  have there : (people "chief").Clear := by decide
  have clear : Clear ⟨fun _ => people "chief"⟩ (workers "chief" "boss") :=
    ⟨by decide, fun _ => there⟩
  exact ⟨clear, (joins_are_those_described ⟨fun _ => people "chief"⟩ (workers "chief" "boss") clear
    [.column "boss.name", .column "boss.chief_id.name"] _
    (List.mem_cons_of_mem _ List.mem_cons_self) _ _ rfl).2⟩

/-- Where both relations are walked under one name, a worker's boss is taken for the chief. -/
theorem boss_taken_for_chief :
    ¬∀ (schema : Schema) (model : EntityModel) (tasks : List Task),
      ∀ l ∈ history schema model tasks, ∀ ref column,
        (l.outcome schema model).1 = .ok (ref, column) →
          Describes schema model (l.outcome schema model).2 l.path ref column := by
  intro described
  obtain ⟨steps, level, asked, trail, -⟩ := described ⟨fun _ => people "boss"⟩
    (workers "boss" "boss") [.column "boss.name", .column "chief_id.name"] _
    (List.mem_cons_of_mem _ List.mem_cons_self) _ _ rfl
  cases asked
  revert trail
  decide

end Resolve

end EntityStore
