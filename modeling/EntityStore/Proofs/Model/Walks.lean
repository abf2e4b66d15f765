import Mathlib.Data.List.Nodup
import EntityStore.Proofs.Model.Forest

/-!
Walks over a forest: up by the links to parents, and down over a stack of children. Neither walk is told
when to stop. In a forest that insertions have grown both end, the first at the root, and the second after
it has met every node below once, each subtree in one piece with its top first.
-/

namespace EntityStore.Forest

def Below (f : Forest) : Nat → Nat → Prop :=
  Relation.TransGen fun id p => f.parentOf? id = some p

inductive Climbs (f : Forest) : Nat → List Nat → Prop
  | top {id : Nat} (alone : f.parentOf? id = none) : Climbs f id []
  | up {id p : Nat} {way : List Nat} (above : f.parentOf? id = some p) (climbs : Climbs f p way) :
      Climbs f id (p :: way)

/-- What is met over a stack: its first node, then what is met when the node's children have been put
in its place. -/
inductive Unstacks (f : Forest) : List Nat → List Nat → Prop
  | done : Unstacks f [] []
  | next {id : Nat} {stack met : List Nat} (rest : Unstacks f (f.childrenOf id ++ stack) met) :
      Unstacks f (id :: stack) (id :: met)

variable {f : Forest} {id p : Nat}

theorem ancestors_alone (alone : f.parentOf? id = none) : f.ancestors id = [] := by
  unfold parentOf? at alone
  rw [ancestors, alone]

namespace Coherent

variable (coherent : Coherent f)

include coherent

theorem lt_of_below {low high : Nat} (below : f.Below low high) : high < low := by
  induction below with
  | single above => exact coherent.parent_lt above
  | tail _ above ih => exact Nat.lt_trans (coherent.parent_lt above) ih

theorem mem_childrenOf {c : Nat} : c ∈ f.childrenOf id ↔ f.parentOf? c = some id := by
  rw [coherent.children, List.mem_filter, List.mem_range, decide_eq_true_eq]
  exact and_iff_right_of_imp lt_size_of_parentOf

theorem children_ascend (id : Nat) : (f.childrenOf id).Pairwise (· < ·) := by
  rw [coherent.children]
  exact List.pairwise_lt_range.filter _

theorem from_children {P : Nat → Prop} (step : ∀ id, (∀ c ∈ f.childrenOf id, P c) → P id) (id : Nat) :
    P id := by
  -- A child comes after its parent, and there are nodes only up to the size.
  induction left : f.size - id using Nat.strongRecOn generalizing id with
  | ind n ih =>
      refine step id fun c member => ?_
      have above := coherent.mem_childrenOf.1 member
      have after := coherent.parent_lt above
      have there := lt_size_of_parentOf above
      exact ih (f.size - c) (by omega) c rfl

/-! ### Up -/

theorem ancestors_up (above : f.parentOf? id = some p) : f.ancestors id = p :: f.ancestors p := by
  have before := coherent.parent_lt above
  unfold parentOf? at above
  rw [ancestors, above]
  exact if_pos before

private theorem climbs (id : Nat) : f.Climbs id (f.ancestors id) := by
  induction id using Nat.strongRecOn with
  | ind id ih =>
      cases above : f.parentOf? id with
      | none =>
          rw [ancestors_alone above]
          exact .top above
      | some p =>
          rw [coherent.ancestors_up above]
          exact .up above (ih p (coherent.parent_lt above))

theorem mem_ancestors {d : Nat} : id ∈ f.ancestors d ↔ f.Below d id := by
  induction d using Nat.strongRecOn with
  | ind d ih =>
      unfold Below
      rw [Relation.TransGen.head'_iff]
      cases above : f.parentOf? d with
      | none => simp [ancestors_alone above]
      | some p =>
          rw [coherent.ancestors_up above, List.mem_cons, ih p (coherent.parent_lt above)]
          simp [Below, Relation.reflTransGen_iff_eq_or_transGen]

private theorem ancestors_descend (id : Nat) : (id :: f.ancestors id).Pairwise (· > ·) := by
  induction id using Nat.strongRecOn with
  | ind id ih =>
      refine List.pairwise_cons.2 ⟨fun a member => coherent.lt_of_below (coherent.mem_ancestors.1 member), ?_⟩
      cases above : f.parentOf? id with
      | none => rw [ancestors_alone above]; exact List.Pairwise.nil
      | some p => rw [coherent.ancestors_up above]; exact ih p (coherent.parent_lt above)

private theorem ancestors_end (known : id < f.size) :
    (id :: f.ancestors id).getLast? = f.rootOf? id := by
  induction id using Nat.strongRecOn with
  | ind id ih =>
      rw [coherent.root known]
      cases above : f.parentOf? id with
      | none => rw [ancestors_alone above]; rfl
      | some p =>
          have before := coherent.parent_lt above
          rw [coherent.ancestors_up above, List.getLast?_cons_cons]
          exact ih p before (Nat.lt_trans before known)

/-! ### Down -/

theorem descendants_eq (id : Nat) :
    f.descendants id = (f.childrenOf id).flatMap fun c => c :: f.descendants c := by
  have within : ∀ c ∈ f.childrenOf id, id < c ∧ c < f.size := fun c member =>
    have above := coherent.mem_childrenOf.1 member
    ⟨coherent.parent_lt above, lt_size_of_parentOf above⟩
  rw [descendants]
  unfold childrenOf at within ⊢
  cases known : f.node? id with
  | none => rfl
  | some node =>
      rw [known] at within
      exact List.flatMap_congr fun c member => if_pos (within c member)

theorem mem_descendants {d : Nat} : d ∈ f.descendants id ↔ f.Below d id := by
  revert d
  refine coherent.from_children (P := fun id => ∀ {d}, d ∈ f.descendants id ↔ f.Below d id) ?_ id
  intro id ih d
  unfold Below
  rw [coherent.descendants_eq, List.mem_flatMap, Relation.TransGen.tail'_iff]
  refine exists_congr fun c => ?_
  rw [coherent.mem_childrenOf, and_comm]
  refine and_congr_left fun above => ?_
  rw [List.mem_cons, ih c (coherent.mem_childrenOf.2 above), Relation.reflTransGen_iff_eq_or_transGen,
    eq_comm]
  rfl

/-- Two children of a node have no node in common that is one of them or below it. -/
theorem subtrees_apart {c other d : Nat} (first : f.parentOf? c = some id)
    (second : f.parentOf? other = some id) (left : d ∈ c :: f.descendants c)
    (right : d ∈ other :: f.descendants other) : c = other := by
  have within {top : Nat} (member : d ∈ top :: f.descendants top) :
      Relation.ReflTransGen (fun low high => f.parentOf? low = some high) d top := by
    rw [List.mem_cons, coherent.mem_descendants, eq_comm] at member
    exact Relation.reflTransGen_iff_eq_or_transGen.2 member
  have unique : Relator.RightUnique fun low high => f.parentOf? low = some high :=
    fun _ _ _ one two => Option.some.inj (one.symm.trans two)
  -- The way up from a node is one line, so one of the two lies above the other, but they are siblings.
  have alone {low high : Nat} (above : f.parentOf? low = some id) (beside : f.parentOf? high = some id)
      (line : Relation.ReflTransGen (fun low high => f.parentOf? low = some high) low high) :
      low = high := by
    rcases Relation.ReflTransGen.cases_head line with same | ⟨next, step, rest⟩
    · exact same
    · have same : next = id := Option.some.inj (step.symm.trans above)
      have least := coherent.parent_lt beside
      rcases Relation.reflTransGen_iff_eq_or_transGen.1 (same ▸ rest) with top | below
      · omega
      · have before := coherent.lt_of_below below
        omega
  rcases Relation.ReflTransGen.total_of_right_unique unique (within left) (within right) with up | down
  · exact alone first second up
  · exact (alone second first down).symm

private theorem descendants_nodup (id : Nat) : (f.descendants id).Nodup := by
  refine coherent.from_children (P := fun id => (f.descendants id).Nodup) (fun id ih => ?_) id
  rw [coherent.descendants_eq, List.nodup_flatMap]
  constructor
  · intro c member
    refine List.nodup_cons.2 ⟨fun again => ?_, ih c member⟩
    exact Nat.lt_irrefl c (coherent.lt_of_below (coherent.mem_descendants.1 again))
  · refine (coherent.children_ascend id).imp_of_mem fun {c other} here there ascends => ?_
    intro d left right
    exact Nat.ne_of_lt ascends (coherent.subtrees_apart (coherent.mem_childrenOf.1 here)
      (coherent.mem_childrenOf.1 there) left right)

theorem subtree_whole {d : Nat} (member : d ∈ f.descendants id) :
    d :: f.descendants d <:+: f.descendants id := by
  revert d
  refine coherent.from_children
    (P := fun id => ∀ {d}, d ∈ f.descendants id → d :: f.descendants d <:+: f.descendants id) ?_ id
  intro id ih d member
  rw [coherent.descendants_eq id] at member ⊢
  obtain ⟨c, child, within⟩ := List.mem_flatMap.1 member
  have piece : c :: f.descendants c <:+: (f.childrenOf id).flatMap fun c => c :: f.descendants c :=
    List.infix_flatMap_of_mem child fun c => c :: f.descendants c
  rcases List.mem_cons.1 within with rfl | below
  · exact piece
  · exact (ih c child below).trans ((List.suffix_cons c _).isInfix.trans piece)

private theorem unstacks_onto {stack met : List Nat} (rest : f.Unstacks stack met) (id : Nat) :
    f.Unstacks (id :: stack) (id :: f.descendants id ++ met) := by
  revert stack met
  refine coherent.from_children (P := fun id => ∀ {stack met}, f.Unstacks stack met →
    f.Unstacks (id :: stack) (id :: f.descendants id ++ met)) ?_ id
  intro id ih stack met rest
  rw [coherent.descendants_eq]
  refine .next ?_
  show f.Unstacks _ (_ ++ met)
  generalize f.childrenOf id = children at ih
  induction children with
  | nil => exact rest
  | cons c others more =>
      rw [List.flatMap_cons, List.append_assoc]
      exact ih c List.mem_cons_self (more fun other member => ih other (List.mem_cons_of_mem c member))

private theorem unstacks (id : Nat) : f.Unstacks (f.childrenOf id) (f.descendants id) := by
  rw [coherent.descendants_eq]
  induction f.childrenOf id with
  | nil => exact .done
  | cons c others ih =>
      rw [List.flatMap_cons]
      exact coherent.unstacks_onto ih c

private theorem parent_first {c : Nat} (member : c ∈ f.descendants id) (above : f.parentOf? c = some p)
    (other : p ≠ id) : [p, c].Sublist (f.descendants id) := by
  have below : f.Below p id := by
    obtain ⟨next, step, rest⟩ := Relation.TransGen.head'_iff.1 (coherent.mem_descendants.1 member)
    have same : next = p := Option.some.inj (step.symm.trans above)
    subst same
    exact (Relation.reflTransGen_iff_eq_or_transGen.1 rest).resolve_left fun same => other same.symm
  have piece := coherent.subtree_whole (coherent.mem_descendants.2 below)
  have child := coherent.mem_descendants.2 (Relation.TransGen.single above)
  exact ((List.singleton_sublist.2 child).cons_cons p).trans piece.sublist

end Coherent

/-! ### Whole histories -/

/-- The links between nodes, and the walks along them. -/
structure WellFormed (f : Forest) : Prop where
  parent_before {id p : Nat} (above : f.parentOf? id = some p) : p < id
  listed (id c : Nat) : c ∈ f.childrenOf id ↔ f.parentOf? c = some id
  in_order (id : Nat) : (f.childrenOf id).Pairwise (· < ·)
  root {id : Nat} (known : id < f.size) : f.rootOf? id = f.rootFor id (f.parentOf? id)
  climbs (id : Nat) : f.Climbs id (f.ancestors id)
  descending (id : Nat) : (id :: f.ancestors id).Pairwise (· > ·)
  to_root {id : Nat} (known : id < f.size) : (id :: f.ancestors id).getLast? = f.rootOf? id
  unstacks (id : Nat) : f.Unstacks (f.childrenOf id) (f.descendants id)
  below (id d : Nat) : d ∈ f.descendants id ↔ id ∈ f.ancestors d
  once (id : Nat) : (f.descendants id).Nodup
  after_parent {id c p : Nat} (member : c ∈ f.descendants id) (above : f.parentOf? c = some p)
    (other : p ≠ id) : [p, c].Sublist (f.descendants id)
  contiguous {id d : Nat} (member : d ∈ f.descendants id) :
    d :: f.descendants d <:+: f.descendants id

private theorem Coherent.wellFormed (coherent : Coherent f) : WellFormed f where
  parent_before above := coherent.parent_lt above
  listed _ _ := coherent.mem_childrenOf
  in_order := coherent.children_ascend
  root := coherent.root
  climbs := coherent.climbs
  descending := coherent.ancestors_descend
  to_root := coherent.ancestors_end
  unstacks := coherent.unstacks
  below _ _ := coherent.mem_descendants.trans coherent.mem_ancestors.symm
  once := coherent.descendants_nodup
  after_parent := coherent.parent_first
  contiguous := coherent.subtree_whole

/-- Whatever is inserted, with success or without, the nodes form a forest. An insertion that fails
changes nothing, and one that succeeds leaves the nodes there were as they are, save for new children
at the end. Nodes are those that insertions have made, and a name leads to the node that was inserted
with it. -/
theorem insertions_grow_forest (history : List Insertion) :
    (grown history).WellFormed ∧
    (∀ (i : Insertion) (e : RegistryError), (grown history).insert i.model i.alias? = .error e →
      grown (history ++ [i]) = grown history) ∧
    (∀ (later : List Insertion) (id : Nat) (node : Node), (grown history).node? id = some node →
      ∃ added, (grown (history ++ later)).node? id =
        some { node with children := node.children ++ added }) ∧
    (∀ (id : Nat) (i : Insertion),
      ((grown history).node? id).map Node.origin = some i ↔ Made history id i) ∧
    ∀ (name : String) (id : Nat), (grown history).find? name = some id ↔
      ∃ i, Made history id i ∧ name ∈ i.names := by
  have coherent := coherent_grown history
  refine ⟨coherent.wellFormed, fun i e refused => ?_, fun later id node known => node?_later known later,
    fun id i => origin_iff_made, fun name id => ?_⟩
  · rw [grown_snoc, add, refused]
  · rw [coherent.named]
    constructor
    · rintro ⟨node, known, named⟩
      exact ⟨node.origin, origin_iff_made.1 (by rw [known]; rfl), named⟩
    · rintro ⟨i, made, named⟩
      obtain ⟨node, known, rfl⟩ := Option.map_eq_some_iff.1 (origin_iff_made.2 made)
      exact ⟨node, known, named⟩

end EntityStore.Forest
