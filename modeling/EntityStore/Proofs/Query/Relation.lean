import EntityStore.Proofs.Filter.Meaning
import EntityStore.Proofs.Removal.Tables
import EntityStore.Sql.Select
import EntityStore.Value.Row
import Mathlib.Data.List.Induction
import Mathlib.Data.List.Pairwise

/-!
What selects read from tables. The joins of a graph combine rows of its tables, one combination at a
time: an inner join asks for a row whose column equals the one it is joined to, an outer join goes on
without a row where there is none. A condition keeps the combinations it is true of, and a select of
distinct rows keeps one of those that are alike. Rows come in any order.
-/

namespace EntityStore

def Cells.of (values : List (String × Value)) : Cells :=
  fun column => (values.lookup column).getD .null

abbrev Combination := TableAlias → Option Cells

namespace Combination

variable {c : Combination} {a other : TableAlias} {row? : Option Cells}

def value (c : Combination) (ref : ColumnRef) : Value :=
  match c ref.tableAlias with
  | some row => row ref.column
  | none => .null

def place (c : Combination) (a : TableAlias) (row? : Option Cells) : Combination :=
  fun other => if other = a then row? else c other

@[simp]
theorem place_self : c.place a row? a = row? :=
  if_pos rfl

theorem place_other (apart : other ≠ a) : c.place a row? other = c other :=
  if_neg apart

theorem value_of_row {row : Cells} (here : c a = some row) (column : String) :
    c.value ⟨a, column⟩ = row column := by
  unfold value
  rw [here]

theorem value_congr {c' : Combination} {ref : ColumnRef}
    (same : c ref.tableAlias = c' ref.tableAlias) : c.value ref = c'.value ref := by
  unfold value
  rw [same]

end Combination

/-- What a database makes of values: which of them are equal, how they compare besides, and what
variables and raw fragments stand for. -/
structure Semantics where
  same : Value → Value → Bool
  refl : ∀ v, same v v = true
  symm : ∀ v w, same v w = true → same w v = true
  trans : ∀ u v w, same u v = true → same v w = true → same u w = true
  bound : String → Value
  fragment : String → Combination → Value
  holds : CompareOp → Bool → Value → Value → Bool

namespace Semantics

def plain : Semantics where
  same v w := (v.asInt?, v.asText?, v.isNull) == (w.asInt?, w.asText?, w.isNull)
  refl _ := beq_self_eq_true _
  symm _ _ same := by rw [beq_iff_eq] at same ⊢; exact same.symm
  trans _ _ _ first second := by rw [beq_iff_eq] at *; exact first.trans second
  bound _ := .null
  fragment _ _ := .null
  holds op _ v w := op == .ne && (v.asInt?, v.asText?) != (w.asInt?, w.asText?)

variable (sem : Semantics) (tables : Tables)

/-! ### Joins and conditions -/

def meets (left right : Value) : Bool :=
  !left.isNull && !right.isNull && sem.same left right

theorem meets_eq {sem : Semantics} {left right : Value} :
    sem.meets left right = true ↔
      (left.isNull = false ∧ right.isNull = false) ∧ sem.same left right = true := by
  simp [meets]

def matching (node : JoinNode) (on : JoinOn) (c : Combination) : List Cells :=
  (tables node.table).filter fun row =>
    sem.meets (c.value ⟨on.left, on.leftColumn⟩) (row on.rightColumn)

/-- The combinations that a join makes of one. -/
def joinNode (node : JoinNode) (c : Combination) : List Combination :=
  match node.on? with
  | none => [c]
  | some on =>
    match node.kind, sem.matching tables node on c with
    | .leftOuter, [] => [c.place node.tableAlias none]
    | _, rows => rows.map fun row => c.place node.tableAlias (some row)

def joinAll (nodes : List JoinNode) (cs : List Combination) : List Combination :=
  nodes.foldl (fun cs node => cs.flatMap (sem.joinNode tables node)) cs

def combinations (g : JoinGraph) : List Combination :=
  sem.joinAll tables g.joins
    ((tables g.root.table).map fun row =>
      Combination.place (fun _ => none) g.root.tableAlias (some row))

/-- How a condition is read on a combination. -/
def interpretation (c : Combination) : Interpretation where
  column := c.value
  bound := sem.bound
  fragment sql := sem.fragment sql c
  holds := sem.holds

def keeps (filter? : Option WhereGroup) (c : Combination) : Bool :=
  match filter? with
  | none => true
  | some w => w.truth (sem.interpretation c) == .yes

def kept (g : JoinGraph) (filter? : Option WhereGroup) : List Combination :=
  (sem.combinations tables g).filter (sem.keeps filter?)

/-! ### Selects -/

/-- One of those that are alike is chosen. -/
structure Distinct {α : Type} (alike : α → α → Prop) (all chosen : List α) : Prop where
  apart : chosen.Pairwise fun a b => ¬alike a b
  among : ∀ a ∈ chosen, a ∈ all
  covers : ∀ a ∈ all, ∃ b ∈ chosen, alike a b

def rowOf (columns : List ColumnRef) (c : Combination) : Row :=
  ⟨columns.map fun ref => (ref.column, c.value ref)⟩

/-- Rows with equal values throughout; two missing values count as equal here. -/
def Alike (r r' : Row) : Prop :=
  List.Forall₂ (fun a b => sem.same a b = true) (r.columns.map Prod.snd) (r'.columns.map Prod.snd)

/-- The rows may come of a select of the columns, which reads distinct ones if it has to. -/
def Selects (g : JoinGraph) (filter? : Option WhereGroup) (columns : List ColumnRef)
    (rows : List Row) : Prop :=
  let all := (sem.kept tables g filter?).map (rowOf columns)
  if g.collection then Distinct sem.Alike all rows else rows.Perm all

/-- The number comes of a count of the entities: of the combinations, or of the distinct ids in
them. -/
def Counts (m : EntityModel) (g : JoinGraph) (filter? : Option WhereGroup) (n : Nat) : Prop :=
  let ids := (sem.kept tables g filter?).map fun c => c.value (Sql.idColumn m)
  if g.collection then
    ∃ chosen, Distinct (fun a b => sem.same a b = true) (ids.filter fun id => !id.isNull) chosen ∧
      n = chosen.length
  else n = ids.length

/-! ### Combinations of a sound graph -/

variable {sem tables} {node : JoinNode} {on : JoinOn} {c c' : Combination} {a : TableAlias}

theorem mem_joinNode (joined : node.on? = some on) (made : c' ∈ sem.joinNode tables node c) :
    (∃ row ∈ sem.matching tables node on c, c' = c.place node.tableAlias (some row)) ∨
      node.kind = .leftOuter ∧ c' = c.place node.tableAlias none := by
  unfold joinNode at made
  rw [joined] at made
  dsimp only at made
  split at made
  · next outer none => exact Or.inr ⟨outer, List.mem_singleton.1 made⟩
  · next rows _ =>
      obtain ⟨row, found, rfl⟩ := List.mem_map.1 made
      exact Or.inl ⟨row, found, rfl⟩

theorem joinNode_elsewhere (made : c' ∈ sem.joinNode tables node c) (apart : a ≠ node.tableAlias) :
    c' a = c a := by
  cases joined : node.on? with
  | none =>
      unfold joinNode at made
      rw [joined] at made
      rw [List.mem_singleton.1 made]
  | some on =>
      rcases mem_joinNode joined made with ⟨row, -, rfl⟩ | ⟨-, rfl⟩
      · exact Combination.place_other apart
      · exact Combination.place_other apart

theorem mem_matching {row : Cells} :
    row ∈ sem.matching tables node on c ↔ row ∈ tables node.table ∧
      sem.meets (c.value ⟨on.left, on.leftColumn⟩) (row on.rightColumn) = true :=
  List.mem_filter

theorem combinations_snoc (g : JoinGraph) (joins : List JoinNode) (node : JoinNode) :
    sem.combinations tables { g with joins := joins ++ [node] } =
      (sem.combinations tables { g with joins := joins }).flatMap (sem.joinNode tables node) := by
  simp [combinations, joinAll]

/-- A combination has a row of the first table, and one of each table with an inner join, which
fulfils its condition. -/
structure Composed (sem : Semantics) (tables : Tables) (g : JoinGraph) (c : Combination) : Prop where
  root : ∃ row ∈ tables g.root.table, c JoinGraph.rootAlias = some row
  inner : ∀ node ∈ g.joins, node.kind = .inner → ∀ on, node.on? = some on →
    ∃ row ∈ tables node.table, c node.tableAlias = some row ∧
      sem.meets (c.value ⟨on.left, on.leftColumn⟩) (row on.rightColumn) = true

end Semantics

namespace JoinGraph

/-- The last node of a sound graph is numbered by the nodes before it, which it is joined to. -/
theorem Sound.last {g : JoinGraph} {joins : List JoinNode} {node : JoinNode}
    (sound : Sound { g with joins := joins ++ [node] }) :
    Sound { g with joins := joins } ∧ node.tableAlias = ⟨joins.length + 1⟩ ∧
      ∃ on, node.on? = some on ∧ on.left.number ≤ joins.length := by
  have numbered := sound.numbered (joins.length + 1) node (by simp [nodes])
  obtain ⟨on, joined, before⟩ := sound.joined joins.length node (by simp)
  refine ⟨⟨?_, ?_, sound.start, ?_⟩, numbered, on, joined, before⟩
  · have distinct := sound.distinct
    rw [show nodes { g with joins := joins ++ [node] } =
      nodes { g with joins := joins } ++ [node] from rfl, List.map_append, List.nodup_append]
      at distinct
    exact distinct.1
  · intro i n found
    apply sound.numbered i n
    show ((g.root :: joins) ++ [node])[i]? = some n
    exact List.getElem?_append_left (List.getElem?_eq_some_iff.1 found).1 ▸ found
  · intro i n found
    apply sound.joined i n
    exact List.getElem?_append_left (List.getElem?_eq_some_iff.1 found).1 ▸ found

end JoinGraph

namespace Semantics

variable {sem : Semantics} {tables : Tables} {g : JoinGraph} {c c' : Combination}

theorem composed_of_mem (sound : g.Sound) (inside : c ∈ sem.combinations tables g) :
    Composed sem tables g c := by
  obtain ⟨root, joins, collection⟩ := g
  -- By the last join: it leaves the rows before it, and what it finds fulfils its own condition.
  induction joins using List.reverseRecOn generalizing c with
  | nil =>
      obtain ⟨row, stored, rfl⟩ := List.mem_map.1 inside
      have first : root.tableAlias = JoinGraph.rootAlias := sound.numbered 0 root rfl
      refine ⟨⟨row, stored, ?_⟩, fun node absurd => nomatch absurd⟩
      rw [← first, Combination.place_self]
  | append_singleton joins node ih =>
      obtain ⟨before, numbered, on, joined, left⟩ :=
        JoinGraph.Sound.last (g := ⟨root, joins, collection⟩) sound
      rw [combinations_snoc ⟨root, joins, collection⟩, List.mem_flatMap] at inside
      obtain ⟨earlier, known, made⟩ := inside
      obtain ⟨⟨row, stored, here⟩, inner⟩ := ih before known
      have kept {a : TableAlias} (low : a.number ≤ joins.length) : c a = earlier a := by
        apply joinNode_elsewhere made
        rintro rfl
        rw [numbered] at low
        exact Nat.not_succ_le_self _ low
      refine ⟨⟨row, stored, (kept (Nat.zero_le _)).trans here⟩, fun other member kind on' joined' => ?_⟩
      rcases List.mem_append.1 member with old | last
      · obtain ⟨row', stored', there, meets⟩ := inner other old kind on' joined'
        have low : other.tableAlias.number < joins.length + 1 :=
          before.has_of_mem (List.mem_cons_of_mem _ old)
        obtain ⟨i, found⟩ := List.mem_iff_getElem?.1 old
        obtain ⟨on'', joined'', lower⟩ := before.joined i other found
        cases joined'.symm.trans joined''
        have bound := (List.getElem?_eq_some_iff.1 found).1
        refine ⟨row', stored', (kept (Nat.le_of_lt_succ low)).trans there, ?_⟩
        rw [Combination.value_congr (kept (Nat.le_trans lower (Nat.le_of_lt bound)))]
        exact meets
      · rw [List.mem_singleton.1 last] at kind joined' ⊢
        cases joined.symm.trans joined'
        rcases mem_joinNode joined made with ⟨row', found, rfl⟩ | ⟨outer, -⟩
        · obtain ⟨stored', meets⟩ := mem_matching.1 found
          refine ⟨row', stored', Combination.place_self, ?_⟩
          rw [Combination.value_congr (kept left)]
          exact meets
        · rw [outer] at kind
          cases kind

/-! ### Unique keys -/

/-- The key of a table is unique: every row has one, and no two rows have equal ones. -/
structure Keyed (sem : Semantics) (tables : Tables) (table key : String) : Prop where
  present : ∀ row ∈ tables table, (row key).isNull = false
  apart : (tables table).Pairwise fun row other => sem.same (row key) (other key) = false

private theorem same_false_symm {v w : Value} (apart : sem.same v w = false) :
    sem.same w v = false := by
  cases equal : sem.same w v with
  | false => rfl
  | true => exact (apart.symm.trans (sem.symm w v equal)).symm

theorem Keyed.unique {table key : String} (keyed : Keyed sem tables table key) {row other : Cells}
    (first : row ∈ tables table) (second : other ∈ tables table)
    (equal : sem.same (row key) (other key) = true) : row = other := by
  by_contra different
  have : Std.Symm fun row other : Cells => sem.same (row key) (other key) = false :=
    ⟨fun _ _ => same_false_symm⟩
  have apart := keyed.apart.forall first second different
  rw [equal] at apart
  cases apart

/-- A join by a unique key finds one row at most. -/
theorem joinNode_length {node : JoinNode}
    (keyed : ∀ on, node.on? = some on → Keyed sem tables node.table on.rightColumn)
    (c : Combination) : (sem.joinNode tables node c).length ≤ 1 := by
  unfold joinNode
  cases joined : node.on? with
  | none => exact Nat.le_refl 1
  | some on =>
      have single : (sem.matching tables node on c).length ≤ 1 := by
        have apart := (keyed on joined).apart.sublist
          (List.filter_sublist (p := fun row : Cells =>
            sem.meets (c.value ⟨on.left, on.leftColumn⟩) (row on.rightColumn)))
        change (sem.matching tables node on c).Pairwise _ at apart
        -- Two rows that match would have keys equal to one value, and so to each other.
        rcases found : sem.matching tables node on c with - | ⟨row, - | ⟨other, rest⟩⟩
        · exact Nat.zero_le 1
        · exact Nat.le_refl 1
        · have meets (r : Cells) (inside : r ∈ row :: other :: rest) :=
            (meets_eq.1 (mem_matching.1 (found ▸ inside)).2).2
          rw [found, List.pairwise_cons] at apart
          have equal := sem.trans _ _ _ (sem.symm _ _ (meets row (by simp))) (meets other (by simp))
          rw [apart.1 other (by simp)] at equal
          cases equal
      dsimp only
      split
      · exact Nat.le_refl 1
      · rwa [List.length_map]

/-- Where every join is by a unique key, each row of the first table is met once at most. -/
theorem keys_apart (sound : g.Sound) {key : String} (rootKeyed : Keyed sem tables g.root.table key)
    (keyed : ∀ node ∈ g.joins, ∀ on, node.on? = some on →
      Keyed sem tables node.table on.rightColumn) :
    (sem.combinations tables g).Pairwise fun c c' =>
      sem.same (c.value ⟨JoinGraph.rootAlias, key⟩) (c'.value ⟨JoinGraph.rootAlias, key⟩) =
        false := by
  obtain ⟨root, joins, collection⟩ := g
  induction joins using List.reverseRecOn with
  | nil =>
      have first : root.tableAlias = JoinGraph.rootAlias := sound.numbered 0 root rfl
      have read (row : Cells) :
          (Combination.place (fun _ => none) root.tableAlias (some row)).value
            ⟨JoinGraph.rootAlias, key⟩ = row key := by
        rw [← first]
        exact Combination.value_of_row Combination.place_self key
      exact List.pairwise_map.2 (rootKeyed.apart.imp fun {row other} apart => by
        rw [read row, read other]
        exact apart)
  | append_singleton joins node ih =>
      obtain ⟨before, numbered, on, joined, left⟩ :=
        JoinGraph.Sound.last (g := ⟨root, joins, collection⟩) sound
      have earlier := ih before rootKeyed fun other inside =>
        keyed other (List.mem_append_left _ inside)
      have kept {c c' : Combination} (made : c' ∈ sem.joinNode tables node c) :
          c'.value ⟨JoinGraph.rootAlias, key⟩ = c.value ⟨JoinGraph.rootAlias, key⟩ := by
        apply Combination.value_congr
        apply joinNode_elsewhere made
        rw [numbered]
        exact fun absurd => nomatch absurd
      rw [combinations_snoc ⟨root, joins, collection⟩, List.pairwise_flatMap]
      -- One combination gives one at most, and different ones still differ in the first row.
      constructor
      · intro c _
        have single := joinNode_length (keyed node (by simp)) c
        match sem.joinNode tables node c, single with
        | [], _ => exact .nil
        | [_], _ => exact List.pairwise_singleton _ _
      · refine earlier.imp fun {c c'} apart made fromFirst made' fromSecond => ?_
        rw [kept fromFirst, kept fromSecond]
        exact apart

end Semantics

end EntityStore
