import EntityStore.Proofs.Query.Counting
import EntityStore.Proofs.Sql.Independence

/-!
Tables that are joined for an order. An order is resolved after the filter, on the same tables, and
what it brings in is joined by outer joins. So it neither drops a row that the filter keeps nor adds
another entity: the ids that a condition keeps are the same with and without the order's tables.
-/

namespace EntityStore

open JoinGraph

/-! ### Outer joins -/

namespace JoinGraph

structure Widens (g later : JoinGraph) : Prop where
  root : later.root = g.root
  joins : ∃ added, later.joins = g.joins ++ added ∧ ∀ node ∈ added, node.kind = .leftOuter

variable {g later latest : JoinGraph}

theorem Widens.refl (g : JoinGraph) : g.Widens g where
  root := rfl
  joins := ⟨[], (List.append_nil _).symm, nofun⟩

private theorem Widens.trans (first : g.Widens later) (second : later.Widens latest) :
    g.Widens latest := by
  obtain ⟨root, added, joins, outer⟩ := first
  obtain ⟨root', added', joins', outer'⟩ := second
  refine ⟨root'.trans root, added ++ added', ?_, List.forall_mem_append.2 ⟨outer, outer'⟩⟩
  rw [joins', joins, List.append_assoc]

private theorem widens_ensure (g : JoinGraph) (key table : String) (on : JoinOn) :
    g.Widens (g.ensure key table .leftOuter on).2 := by
  cases known : g.aliasOf? key with
  | some a =>
      rw [ensure_found _ _ _ known]
      exact .refl g
  | none =>
      rw [ensure_added known]
      refine ⟨rfl, [_], rfl, fun node inside => ?_⟩
      rw [List.mem_singleton.1 inside]
      rfl

private theorem extends_ensure (g : JoinGraph) (key table : String) (kind : JoinKind) (on : JoinOn) :
    g.Extends (g.ensure key table kind on).2 := by
  cases known : g.aliasOf? key with
  | some a =>
      rw [ensure_found _ _ _ known]
      exact .refl g
  | none =>
      rw [ensure_added known]
      exact extends_added _

/-- The tables of the model are there, and beside those of the first graph there are outer joins
only. -/
structure Widened (model : EntityModel) (g later : JoinGraph) : Prop where
  grown : (ofModel model).Extends later
  widens : g.Widens later

end JoinGraph

/-- All columns of the model's levels have a name that paths may use. -/
def EntityModel.Named (m : EntityModel) : Prop :=
  ∀ level ∈ m.chain, ∀ c ∈ level.columns, c.fieldName ≠ ""

instance (m : EntityModel) : Decidable m.Named :=
  inferInstanceAs (Decidable (∀ level ∈ m.chain, ∀ c ∈ level.columns, c.fieldName ≠ ""))

/-- The model and all that relations may lead to are named. -/
structure Schema.Named (schema : Schema) (model : EntityModel) : Prop where
  own : model.Named
  others : ∀ target, (schema.model target).Named

namespace Resolve

variable {schema : Schema} {model : EntityModel} {g : JoinGraph}

theorem widened_ensure (key table : String) (on : JoinOn) :
    Keeps (Widened model g) (ensure key table .leftOuter on) :=
  fun before holds =>
    ⟨holds.grown.trans (extends_ensure before key table .leftOuter on),
      holds.widens.trans (widens_ensure before key table on)⟩

private theorem widened_markCollection : Keeps (Widened model g) markCollection :=
  fun _ holds => ⟨⟨holds.grown.nodes, fun _ => rfl⟩, holds.widens.root, holds.widens.joins⟩

/-- The levels of the model itself are there already. -/
theorem widened_levelAlias {m level : EntityModel} (inside : level ∈ m.chain) {key : String}
    (start : key = "" → m = model) : Keeps (Widened model g) (levelAlias key m level) := by
  intro before holds
  show Widened model g ((if level.same m.root then pure ((before.aliasOf? key).getD rootAlias)
    else ensure (levelKey key level) level.table (if key = "" then .inner else .leftOuter)
      ⟨(before.aliasOf? key).getD rootAlias, m.root.primaryKey, level.primaryKey⟩ :
        Resolve TableAlias).answer before).2
  split
  · exact holds
  · next below =>
      by_cases first : key = ""
      · subst first
        cases start rfl
        have apart : level ≠ model.root := by
          rintro rfl
          exact below (beq_self_eq_true _)
        obtain ⟨a, -, known, -⟩ := aliasOf_level holds.grown (EntityModel.mem_levels.2 inside) apart
        show Widened model g (before.ensure (levelKey "" level) level.table _ _).2
        rw [ensure_found _ _ _ known]
        exact holds
      · rw [if_neg first]
        exact widened_ensure _ _ _ before holds

private theorem hopKey_ne {key field : String} (named : field ≠ "") : hopKey key field ≠ "" := by
  unfold hopKey
  split
  · exact named
  · next further => simp [further]

/-- Only at the start of a path are levels joined by inner joins, and those are there already: behind
a hop the key is not empty. -/
theorem widened_walk (named : schema.Named model) (path : String) (names : List String)
    {key : String} {m : EntityModel} (fields : m.Named) (start : key = "" → m = model) :
    Keeps (Widened model g) (walk schema path key m names) := by
  induction names generalizing key m with
  | nil => exact keeps_throw _
  | cons name rest ih =>
      unfold walk
      split
      · exact keeps_throw _
      · next level column finds =>
          obtain ⟨inside, declared, -⟩ := EntityModel.findColumn_cases finds
          have filled : column.fieldName ≠ "" := fields level inside column declared
          unfold Column.fieldName at filled
          refine (widened_levelAlias inside start).bind fun here => ?_
          split
          · split
            · exact keeps_pure _
            · exact keeps_throw _
          · split
            · next field target _ kind =>
                rw [kind] at filled
                exact (widened_ensure _ _ _).bind fun _ =>
                  ih (named.others target) fun empty => (hopKey_ne filled empty).elim
            · next target table kind =>
                rw [kind] at filled
                refine (widened_ensure _ _ _).bind fun link => (widened_ensure _ _ _).bind fun _ => ?_
                exact widened_markCollection.bind fun _ =>
                  ih (named.others target) fun empty => (hopKey_ne filled empty).elim
            · exact keeps_throw _

private theorem widened_column (named : schema.Named model) (path : String) :
    Keeps (Widened model g) (column schema model path) :=
  widened_walk named path _ named.own fun _ => rfl

theorem keeps_order {inv : JoinGraph → Prop} (each : ∀ path, Keeps inv (column schema model path))
    (order : List (String × Sql.Direction)) : Keeps inv (Sql.orderClause schema model order) := by
  induction order with
  | nil => exact keeps_pure _
  | cons term rest ih =>
      rw [Sql.orderClause, List.mapM_cons]
      exact ((each term.1).bind fun _ => keeps_pure _).bind fun _ => ih.bind fun _ => keeps_pure _

theorem widens_order (named : schema.Named model) (grown : (ofModel model).Extends g)
    (order : List (String × Sql.Direction)) :
    g.Widens ((Sql.orderClause schema model order).answer g).2 :=
  (keeps_order (widened_column named) order g ⟨grown, .refl g⟩).widens

theorem joined_column (schema : Schema) (model : EntityModel) (path : String) :
    Keeps (Semantics.Joined schema model) (column schema model path) := by
  intro before joined
  obtain ⟨sound, grown, -⟩ := steady_column schema model path before joined.sound trivial
  exact ⟨sound, joined.grown.trans grown, keeps_column path before joined.marked⟩

end Resolve

/-! ### Rows that are kept -/

namespace Semantics

variable {sem : Semantics} {tables : Tables} {m : EntityModel} {g later : JoinGraph}
  {c c' : Combination} {w : WhereGroup}

/-- The combinations have the same rows of the tables of a graph. -/
def AgreeOn (g : JoinGraph) (c c' : Combination) : Prop :=
  ∀ a, g.Has a → c a = c' a

/-- The raw fragments of a condition read the tables of a graph only. -/
def Local (sem : Semantics) (g : JoinGraph) (w : WhereGroup) : Prop :=
  ∀ l ∈ w.leaves, ∀ sql, l.operand = .raw sql →
    ∀ c c', AgreeOn g c c' → sem.fragment sql c = sem.fragment sql c'

private theorem exists_joinNode (sem : Semantics) (tables : Tables) {node : JoinNode}
    (outer : node.kind = .leftOuter) (c : Combination) :
    ∃ c', c' ∈ sem.joinNode tables node c := by
  unfold joinNode
  cases node.on? with
  | none => exact ⟨c, List.mem_singleton_self c⟩
  | some on =>
      dsimp only
      rw [outer]
      cases sem.matching tables node on c with
      | nil => exact ⟨_, List.mem_singleton_self _⟩
      | cons row rest => exact ⟨_, List.mem_cons_self⟩

/-- Outer joins leave the rows of all tables before them, and lose none. -/
theorem combinations_widened (sem : Semantics) (tables : Tables) (sound : later.Sound)
    (widens : g.Widens later) :
    (∀ c ∈ sem.combinations tables later, ∃ c' ∈ sem.combinations tables g, AgreeOn g c c') ∧
      ∀ c ∈ sem.combinations tables g, ∃ c' ∈ sem.combinations tables later, AgreeOn g c c' := by
  obtain ⟨root, joins, collection⟩ := g
  obtain ⟨root', joins', collection'⟩ := later
  obtain ⟨same, added, joined, outer⟩ := widens
  dsimp only at same joined
  subst same joined
  induction added using List.reverseRecOn with
  | nil =>
      rw [List.append_nil]
      exact ⟨fun c inside => ⟨c, inside, fun _ _ => rfl⟩, fun c inside => ⟨c, inside, fun _ _ => rfl⟩⟩
  | append_singleton added node ih =>
      rw [← List.append_assoc] at sound ⊢
      obtain ⟨before, numbered, -⟩ :=
        JoinGraph.Sound.last (g := ⟨root', joins ++ added, collection'⟩) sound
      obtain ⟨down, up⟩ := ih (fun other inside => outer other (List.mem_append_left _ inside)) before
      -- The last table is numbered after those of the first graph, so a join of it leaves their rows.
      have kept {c c' : Combination} (made : c' ∈ sem.joinNode tables node c) :
          AgreeOn ⟨root', joins, collection⟩ c' c := by
        intro a has
        apply joinNode_elsewhere made
        rintro rfl
        have low : node.tableAlias.number < joins.length + 1 := has
        rw [numbered, List.length_append] at low
        dsimp only at low
        omega
      rw [combinations_snoc ⟨root', joins ++ added, collection'⟩]
      constructor
      · intro c inside
        obtain ⟨earlier, known, made⟩ := List.mem_flatMap.1 inside
        obtain ⟨c', there, agree⟩ := down earlier known
        exact ⟨c', there, fun a has => (kept made a has).trans (agree a has)⟩
      · intro c inside
        obtain ⟨earlier, known, agree⟩ := up c inside
        obtain ⟨c', made⟩ := exists_joinNode sem tables
          (outer node (List.mem_append_right _ (List.mem_singleton_self node))) earlier
        exact ⟨c', List.mem_flatMap.2 ⟨earlier, known, made⟩,
          fun a has => (agree a has).trans (kept made a has).symm⟩

private theorem keeps_congr (known : ∀ ref ∈ w.refs, g.Has ref.tableAlias) (confined : sem.Local g w)
    (agree : AgreeOn g c c') : sem.keeps (some w) c = sem.keeps (some w) c' := by
  have same : w.truth (sem.interpretation c) = w.truth (sem.interpretation c') := by
    have holds : (sem.interpretation c).holds = (sem.interpretation c').holds := rfl
    refine WhereGroup.truth_congr holds w (fun ref inside => ?_) fun l inside => ?_
    · exact Combination.value_congr (agree _ (known ref inside))
    · cases given : l.operand with
      | literal value => rfl
      | «variable» name => rfl
      | raw sql => exact confined l inside sql given c c' agree
  rw [keeps, keeps, same]

/-- With the tables of an order the same ids are kept as without. -/
theorem kept_ids_widened (sound : g.Sound) (laterSound : later.Sound) (widens : g.Widens later)
    (known : ∀ ref ∈ w.refs, g.Has ref.tableAlias) (confined : sem.Local g w) (v : Value) :
    v ∈ ((sem.kept tables later (some w)).map fun c => c.value (Sql.idColumn m)) ↔
      v ∈ (sem.kept tables g (some w)).map fun c => c.value (Sql.idColumn m) := by
  obtain ⟨down, up⟩ := combinations_widened sem tables laterSound widens
  have transfer {first second : JoinGraph}
      (carry : ∀ c ∈ sem.combinations tables first,
        ∃ c' ∈ sem.combinations tables second, AgreeOn g c c')
      (inside : v ∈ (sem.kept tables first (some w)).map fun c => c.value (Sql.idColumn m)) :
      v ∈ (sem.kept tables second (some w)).map fun c => c.value (Sql.idColumn m) := by
    obtain ⟨c, kept, rfl⟩ := List.mem_map.1 inside
    obtain ⟨member, holds⟩ := List.mem_filter.1 kept
    obtain ⟨c', there, agree⟩ := carry c member
    refine List.mem_map.2 ⟨c', List.mem_filter.2 ⟨there, ?_⟩, ?_⟩
    · rw [← keeps_congr known confined agree]
      exact holds
    · exact (Combination.value_congr (agree rootAlias sound.has_root)).symm
  exact ⟨transfer down, transfer up⟩

end Semantics

end EntityStore
