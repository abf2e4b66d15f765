import EntityStore.Proofs.Filter.Resolution
import Mathlib.Data.List.Nodup

/-!
How a graph grows while paths and filters are resolved on it. Nodes are only added, at the end and
under new keys, and each is joined to an earlier one. So what has resolved once resolves to the same
on every later graph, and leaves it as it is.
-/

namespace EntityStore

namespace JoinGraph

/-! ### Sound graphs -/

/-- The nodes have keys of their own and are numbered in order; the first stands for the model
itself, and every other is joined to one before it. -/
structure Sound (g : JoinGraph) : Prop where
  distinct : (g.nodes.map (·.key)).Nodup
  numbered : ∀ i (node : JoinNode), g.nodes[i]? = some node → node.tableAlias = ⟨i⟩
  start : g.root.key = "" ∧ g.root.on? = none
  joined : ∀ i (node : JoinNode), g.joins[i]? = some node →
    ∃ on : JoinOn, node.on? = some on ∧ on.left.number ≤ i

/-- The later graph has the nodes of the earlier one in their places. -/
structure Extends (g later : JoinGraph) : Prop where
  nodes : g.nodes <+: later.nodes
  collection : g.collection = true → later.collection = true

/-- The alias is that of a node. -/
def Has (g : JoinGraph) (a : TableAlias) : Prop :=
  a.number < g.size

def Knows (g : JoinGraph) (key : String) : Prop :=
  ∃ a, g.aliasOf? key = some a

variable {g later latest : JoinGraph} {key table : String} {kind : JoinKind} {on : JoinOn}
  {a : TableAlias}

theorem Extends.refl (g : JoinGraph) : g.Extends g :=
  ⟨List.prefix_refl _, id⟩

theorem Extends.trans (first : g.Extends later) (second : later.Extends latest) :
    g.Extends latest :=
  ⟨first.nodes.trans second.nodes, second.collection ∘ first.collection⟩

theorem Has.mono (has : g.Has a) (grown : g.Extends later) : later.Has a :=
  Nat.lt_of_lt_of_le has grown.nodes.length_le

theorem aliasOf_extends (grown : g.Extends later) (found : g.aliasOf? key = some a) :
    later.aliasOf? key = some a := by
  obtain ⟨added, same⟩ := grown.nodes
  unfold aliasOf? at found ⊢
  rw [← same, List.find?_append]
  obtain ⟨node, first, rfl⟩ := Option.map_eq_some_iff.1 found
  rw [first]
  rfl

theorem aliasOf_eq_some (found : g.aliasOf? key = some a) :
    ∃ node ∈ g.nodes, node.key = key ∧ node.tableAlias = a := by
  obtain ⟨node, first, same⟩ := Option.map_eq_some_iff.1 found
  have named : (node.key == key) = true :=
    List.find?_some (p := fun n : JoinNode => n.key == key) first
  exact ⟨node, List.mem_of_find?_eq_some first, eq_of_beq named, same⟩

theorem aliasOf_eq_none (missing : g.aliasOf? key = none) : ∀ node ∈ g.nodes, node.key ≠ key := by
  have nowhere := List.find?_eq_none.1 (Option.map_eq_none_iff.1 missing)
  exact fun node member same => nowhere node member (beq_iff_eq.2 same)

theorem Sound.has_of_mem (sound : g.Sound) {node : JoinNode} (member : node ∈ g.nodes) :
    g.Has node.tableAlias := by
  obtain ⟨i, found⟩ := List.mem_iff_getElem?.1 member
  rw [sound.numbered i node found]
  exact (List.getElem?_eq_some_iff.1 found).1

theorem Sound.has_of_aliasOf (sound : g.Sound) (found : g.aliasOf? key = some a) : g.Has a := by
  obtain ⟨node, member, -, rfl⟩ := aliasOf_eq_some found
  exact sound.has_of_mem member

theorem Sound.aliasOf_start (sound : g.Sound) : g.aliasOf? "" = some rootAlias := by
  have numbered : g.root.tableAlias = rootAlias := sound.numbered 0 g.root rfl
  have first : (g.root.key == "") = true := beq_iff_eq.2 sound.start.1
  rw [aliasOf?, nodes, List.find?_cons, first, ← numbered]
  rfl

theorem Sound.has_root (sound : g.Sound) : g.Has rootAlias :=
  sound.has_of_aliasOf sound.aliasOf_start

theorem Sound.aliases (sound : g.Sound) :
    g.nodes.map (·.tableAlias) = (List.range g.size).map TableAlias.mk := by
  refine List.ext_getElem? fun i => ?_
  rw [List.getElem?_map, List.getElem?_map]
  rcases Nat.lt_or_ge i g.size with inside | outside
  · rw [List.getElem?_range inside, List.getElem?_eq_getElem inside]
    exact congrArg some (sound.numbered i _ (List.getElem?_eq_getElem inside))
  · rw [List.getElem?_eq_none outside, List.getElem?_eq_none (by rwa [List.length_range])]
    rfl

theorem Sound.mem_aliases (sound : g.Sound) :
    a ∈ g.nodes.map (·.tableAlias) ↔ g.Has a := by
  rw [sound.aliases, List.mem_map]
  constructor
  · rintro ⟨i, inside, rfl⟩
    exact List.mem_range.1 inside
  · exact fun has => ⟨a.number, List.mem_range.2 has, rfl⟩

/-! ### Nodes that are looked up or added -/

theorem ensure_found (table : String) (kind : JoinKind) (on : JoinOn)
    (found : g.aliasOf? key = some a) : g.ensure key table kind on = (a, g) := by
  rw [ensure, found]

def added (g : JoinGraph) (key table : String) (kind : JoinKind) (on : JoinOn) : JoinNode :=
  { key, tableAlias := ⟨g.size⟩, table, kind, on? := some on }

theorem ensure_added (missing : g.aliasOf? key = none) :
    g.ensure key table kind on =
      (⟨g.size⟩, { g with joins := g.joins ++ [g.added key table kind on] }) := by
  rw [ensure, missing]
  rfl

theorem extends_added (node : JoinNode) : g.Extends { g with joins := g.joins ++ [node] } :=
  ⟨⟨[node], rfl⟩, id⟩

private theorem Sound.added (sound : g.Sound) (missing : g.aliasOf? key = none) (has : g.Has on.left) :
    Sound { g with joins := g.joins ++ [g.added key table kind on] } where
  distinct := by
    show ((g.nodes ++ [g.added key table kind on]).map (·.key)).Nodup
    rw [List.map_append, List.nodup_append]
    refine ⟨sound.distinct, List.nodup_singleton _, fun k member k' last same => ?_⟩
    obtain ⟨node, known, rfl⟩ := List.mem_map.1 member
    rw [List.map_singleton, List.mem_singleton] at last
    exact aliasOf_eq_none missing node known (same.trans last)
  numbered := by
    intro i node found
    change (g.nodes ++ [g.added key table kind on])[i]? = some node at found
    rcases Nat.lt_or_ge i g.size with inside | outside
    · rw [List.getElem?_append_left inside] at found
      exact sound.numbered i node found
    · rw [List.getElem?_append_right outside, List.getElem?_singleton] at found
      split at found
      · next last =>
          cases found
          have same : i = g.size := Nat.le_antisymm (Nat.sub_eq_zero_iff_le.1 last) outside
          rw [same]
          rfl
      · cases found
  start := sound.start
  joined := by
    intro i node found
    have size : g.size = g.joins.length + 1 := rfl
    rcases Nat.lt_or_ge i g.joins.length with inside | outside
    · rw [List.getElem?_append_left inside] at found
      exact sound.joined i node found
    · rw [List.getElem?_append_right outside, List.getElem?_singleton] at found
      split at found
      · cases found
        have before : on.left.number < g.size := has
        exact ⟨on, rfl, by omega⟩
      · cases found

/-- Looking up or adding a node keeps a graph sound and only extends it, and the key is known
then under the alias that is handed back. -/
theorem Sound.ensure (sound : g.Sound) (key table : String) (kind : JoinKind)
    (on : JoinOn) (has : g.Has on.left) :
    (g.ensure key table kind on).2.Sound ∧ g.Extends (g.ensure key table kind on).2 ∧
      (g.ensure key table kind on).2.aliasOf? key = some (g.ensure key table kind on).1 := by
  cases known : g.aliasOf? key with
  | some a =>
      rw [ensure_found table kind on known]
      exact ⟨sound, .refl g, known⟩
  | none =>
      rw [ensure_added known]
      refine ⟨sound.added known has, extends_added _, ?_⟩
      have nowhere : g.nodes.find? (·.key == key) = none := Option.map_eq_none_iff.1 known
      show ((g.nodes ++ [g.added key table kind on]).find? (·.key == key)).map (·.tableAlias) = _
      rw [List.find?_append, nowhere]
      simp [JoinGraph.added]

def rootOnly (m : EntityModel) : JoinGraph where
  root := { key := "", tableAlias := rootAlias, table := m.root.table, kind := .inner, on? := none }

theorem sound_rootOnly (m : EntityModel) : (rootOnly m).Sound := by
  refine ⟨List.nodup_singleton _, fun i node found => ?_, ⟨rfl, rfl⟩, fun i node found => ?_⟩
  · change [(rootOnly m).root][i]? = some node at found
    rw [List.getElem?_singleton] at found
    split at found
    · next zero =>
        cases found
        rw [zero]
        rfl
    · cases found
  · cases found

theorem sound_ofModel (m : EntityModel) : (ofModel m).Sound := by
  have joined (levels : List EntityModel) {g : JoinGraph} (sound : g.Sound) :
      (levels.foldl (joinLevel m.root) g).Sound := by
    induction levels generalizing g with
    | nil => exact sound
    | cons level rest ih => exact ih (sound.ensure _ _ _ _ sound.has_root).1
  exact joined _ (sound_rootOnly m)

end JoinGraph

namespace Resolve

open JoinGraph

variable {α β : Type} {pre : JoinGraph → Prop} {mid : α → JoinGraph → Prop}
  {post : β → JoinGraph → Prop}

/-! ### Steady resolutions -/

/-- From a sound graph with `pre` the resolution keeps the graph sound and only extends it, also if
it fails; what it gives fulfils `post`, and is given again on every later graph, which stays as it
is. -/
def Steady (pre : JoinGraph → Prop) (r : Resolve α) (post : α → JoinGraph → Prop) : Prop :=
  ∀ g : JoinGraph, g.Sound → pre g →
    (r.answer g).2.Sound ∧ g.Extends (r.answer g).2 ∧
      ∀ a, (r.answer g).1 = .ok a → post a (r.answer g).2 ∧
        ∀ later : JoinGraph, later.Sound → (r.answer g).2.Extends later →
          r.answer later = (.ok a, later)

theorem steady_pure {a : α} {post : α → JoinGraph → Prop} (holds : ∀ g, pre g → post a g) :
    Steady pre (pure a) post := by
  intro g sound fit
  refine ⟨sound, .refl g, fun b same => ?_⟩
  cases same
  exact ⟨holds g fit, fun _ _ _ => rfl⟩

theorem steady_throw {e : TranslateError} : Steady pre (throw e : Resolve β) post := by
  intro g sound _
  exact ⟨sound, .refl g, fun b same => nomatch same⟩

theorem Steady.bind {r : Resolve α} {next : α → Resolve β} (first : Steady pre r mid)
    (second : ∀ a, Steady (mid a) (next a) post) : Steady pre (r >>= next) post := by
  intro g sound fit
  obtain ⟨reachedSound, reached, given⟩ := first g sound fit
  cases ran : r.answer g with
  | mk outcome after =>
      rw [ran] at reachedSound reached given
      cases outcome with
      | error e =>
          have whole : (r >>= next).answer g = (.error e, after) := by rw [answer_bind, ran]
          rw [whole]
          exact ⟨reachedSound, reached, fun b same => nomatch same⟩
      | ok a =>
          obtain ⟨fits, again⟩ := given a rfl
          obtain ⟨afterSound, extended, given⟩ := second a after reachedSound fits
          have whole : (r >>= next).answer g = (next a).answer after := by rw [answer_bind, ran]
          rw [whole]
          refine ⟨afterSound, reached.trans extended, fun b same => ?_⟩
          obtain ⟨holds, nextAgain⟩ := given b same
          refine ⟨holds, fun later laterSound grown => ?_⟩
          rw [answer_bind, again later laterSound (extended.trans grown)]
          exact nextAgain later laterSound grown

theorem Steady.mono {r : Resolve β} {pre' : JoinGraph → Prop} {post' : β → JoinGraph → Prop}
    (steady : Steady pre r post) (before : ∀ g, g.Sound → pre' g → pre g)
    (after : ∀ b g, g.Sound → post b g → post' b g) : Steady pre' r post' := by
  intro g sound fit
  obtain ⟨afterSound, extended, given⟩ := steady g sound (before g sound fit)
  refine ⟨afterSound, extended, fun b same => ?_⟩
  obtain ⟨holds, again⟩ := given b same
  exact ⟨after b _ afterSound holds, again⟩

theorem steady_ensure (key table : String) (kind : JoinKind) (left : TableAlias)
    (leftColumn rightColumn : String) :
    Steady (fun g => g.Has left) (ensure key table kind ⟨left, leftColumn, rightColumn⟩)
      (fun a g => g.aliasOf? key = some a) := by
  intro g sound has
  obtain ⟨afterSound, extended, known⟩ := sound.ensure key table kind
    ⟨left, leftColumn, rightColumn⟩ has
  refine ⟨afterSound, extended, fun a same => ?_⟩
  cases same
  refine ⟨known, fun later _ grown => ?_⟩
  show (Except.ok (later.ensure key table kind ⟨left, leftColumn, rightColumn⟩).1,
    (later.ensure key table kind ⟨left, leftColumn, rightColumn⟩).2) = _
  rw [ensure_found table kind _ (aliasOf_extends grown known)]
  rfl

theorem steady_markCollection {kept : JoinGraph → Prop}
    (unmarked : ∀ g, kept g → kept { g with collection := true }) :
    Steady kept markCollection (fun _ => kept) := by
  intro g sound fit
  refine ⟨⟨sound.distinct, sound.numbered, sound.start, sound.joined⟩,
    ⟨List.prefix_refl _, fun _ => rfl⟩, fun u same => ⟨unmarked g fit, fun later _ grown => ?_⟩⟩
  have marked : { later with collection := true } = later := by
    have collected : later.collection = true := grown.collection rfl
    rw [← collected]
  show (Except.ok (), { later with collection := true }) = _
  rw [marked]

/-! ### Paths -/

theorem answer_levelAlias {key : String} {g : JoinGraph} {node : TableAlias}
    (model level : EntityModel) (found : g.aliasOf? key = some node) :
    (levelAlias key model level).answer g =
      (if level.same model.root then pure node
        else ensure (levelKey key level) level.table (if key = "" then .inner else .leftOuter)
          ⟨node, model.root.primaryKey, level.primaryKey⟩ : Resolve TableAlias).answer g := by
  show Resolve.answer (if level.same model.root then
    pure ((g.aliasOf? key).getD rootAlias) else _) g = _
  rw [found]
  rfl

private theorem steady_levelAlias (key : String) (model level : EntityModel) :
    Steady (fun g => g.Knows key) (levelAlias key model level) (fun a g => g.Has a) := by
  intro g sound known
  obtain ⟨node, found⟩ := known
  have rest : Steady (fun g => g.Has node)
      (if level.same model.root then pure node
        else ensure (levelKey key level) level.table (if key = "" then .inner else .leftOuter)
          ⟨node, model.root.primaryKey, level.primaryKey⟩ : Resolve TableAlias)
      (fun a g => g.Has a) := by
    split
    · exact steady_pure fun _ has => has
    · exact (steady_ensure _ _ _ _ _ _).mono (fun _ _ has => has)
        fun _ _ sound => sound.has_of_aliasOf
  obtain ⟨afterSound, extended, given⟩ := rest g sound (sound.has_of_aliasOf found)
  rw [← answer_levelAlias model level found] at afterSound extended given
  refine ⟨afterSound, extended, fun a same => ?_⟩
  obtain ⟨holds, again⟩ := given a same
  refine ⟨holds, fun later laterSound grown => ?_⟩
  rw [answer_levelAlias model level (aliasOf_extends (extended.trans grown) found)]
  exact again later laterSound grown

private theorem knows_of_found {key : String} {a : TableAlias} {g : JoinGraph}
    (found : g.aliasOf? key = some a) : g.Knows key :=
  ⟨a, found⟩

private theorem steady_walk (schema : Schema) (path : String) (names : List String) (key : String)
    (model : EntityModel) :
    Steady (fun g => g.Knows key) (walk schema path key model names)
      (fun found g => g.Has found.1.tableAlias) := by
  induction names generalizing key model with
  | nil => exact steady_throw
  | cons name rest ih =>
      unfold walk
      split
      · exact steady_throw
      · next level column _ =>
          refine (steady_levelAlias key model level).bind fun here => ?_
          split
          · split
            · exact steady_pure fun _ has => has
            · exact steady_throw
          · split
            · next field target _ _ =>
                refine (steady_ensure _ _ _ _ _ _).bind fun _ => ?_
                exact (ih _ _).mono (fun _ _ => knows_of_found) fun _ _ _ has => has
            · next target table _ =>
                refine (steady_ensure _ _ _ _ _ _).bind fun link => ?_
                refine ((steady_ensure _ _ _ _ _ _).mono (fun _ sound => sound.has_of_aliasOf)
                  fun _ _ _ => knows_of_found).bind fun _ => ?_
                refine (steady_markCollection fun _ known => known).bind fun _ => ?_
                exact ih _ _
            · exact steady_throw

/-- A path resolves on any sound graph or fails there; a column that it finds is one of a table in
the graph. -/
theorem steady_column (schema : Schema) (model : EntityModel) (path : String) :
    Steady (fun _ => True) (column schema model path) (fun found g => g.Has found.1.tableAlias) :=
  (steady_walk schema path (segments path) "" model).mono
    (fun _ sound _ => ⟨_, sound.aliasOf_start⟩) fun _ _ _ has => has

end Resolve

end EntityStore
