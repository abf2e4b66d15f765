import Mathlib.Data.List.Induction
import Mathlib.Logic.Relation
import EntityStore.Model.Forest

/-!
Forests that insertions grow. A node's parent comes before it and knows it as a child, its root is that
of its parent, and a name leads to the node that was inserted with it. From this the two walks follow:
the way up from a node ends at its root, and the walk down over a stack meets each node below once, a
whole subtree at a time.
-/

namespace EntityStore.Forest

structure Insertion where
  model : EntityModel
  alias? : Option String
  deriving DecidableEq, Repr

def Insertion.names (i : Insertion) : List String :=
  i.model.path :: i.alias?.toList

def Node.origin (node : Node) : Insertion :=
  ⟨node.model, node.alias?⟩

def parentOf? (f : Forest) (id : Nat) : Option Nat :=
  (f.node? id).bind (·.parent?)

def childrenOf (f : Forest) (id : Nat) : List Nat :=
  ((f.node? id).map (·.children)).getD []

def rootOf? (f : Forest) (id : Nat) : Option Nat :=
  (f.node? id).map (·.root)

def rootFor (f : Forest) (id : Nat) : Option Nat → Option Nat
  | none => some id
  | some p => f.rootOf? p

def add (f : Forest) (i : Insertion) : Forest :=
  match f.insert i.model i.alias? with
  | .ok (_, after) => after
  | .error _ => f

def grown (history : List Insertion) : Forest :=
  history.foldl add {}

/-- The insertion was among those tried, and it made the node. -/
def Made (history : List Insertion) (id : Nat) (i : Insertion) : Prop :=
  ∃ before later after, history = before ++ i :: later ∧
    (grown before).insert i.model i.alias? = .ok (id, after)

variable {f after : Forest} {model : EntityModel} {alias? : Option String} {parent? : Option Nat}
  {id : Nat}

/-! ### One insertion -/

theorem insert_eq_ok (inserted : f.insert model alias? = .ok (id, after)) :
    id = f.size ∧ (∀ name ∈ model.path :: alias?.toList, f.find? name = none) ∧
      ∃ parent?, after = f.append model alias? parent? ∧
        model.parent?.map (fun parent => f.find? parent.path) = parent?.map some := by
  cases taken : (model.path :: alias?.toList).find? fun path => (f.find? path).isSome with
  | some path =>
      rw [insert, taken] at inserted
      cases inserted
  | none =>
      have fresh (name : String) (member : name ∈ model.path :: alias?.toList) :
          f.find? name = none := by
        simpa using List.find?_eq_none.1 taken name member
      rw [insert, taken] at inserted
      by_cases full : capacity ≤ f.size
      · cases above : model.parent? with
        | none =>
            rw [above] at inserted
            simp only [if_pos full] at inserted
            cases inserted
        | some parent =>
            cases found : f.find? parent.path with
            | none =>
                simp only [above, found] at inserted
                cases inserted
            | some p =>
                simp only [above, found, if_pos full] at inserted
                cases inserted
      · cases above : model.parent? with
        | none =>
            rw [above] at inserted
            simp only [if_neg full] at inserted
            cases inserted
            exact ⟨rfl, fresh, none, rfl, rfl⟩
        | some parent =>
            cases found : f.find? parent.path with
            | none =>
                simp only [above, found] at inserted
                cases inserted
            | some p =>
                simp only [above, found, if_neg full] at inserted
                cases inserted
                exact ⟨rfl, fresh, some p, rfl, congrArg some found⟩

theorem size_append (parent? : Option Nat) : (f.append model alias? parent?).size = f.size + 1 := by
  cases parent? <;> simp [append, size]

theorem node?_eq_none : f.node? id = none ↔ f.size ≤ id :=
  List.getElem?_eq_none_iff

def linked (f : Forest) : Option Nat → List Node
  | some p => f.nodes.modify p fun node => { node with children := node.children ++ [f.size] }
  | none => f.nodes

private theorem length_linked (parent? : Option Nat) : (f.linked parent?).length = f.size := by
  cases parent? with
  | none => rfl
  | some p => exact List.length_modify ..

private theorem getElem?_linked (parent? : Option Nat) (id : Nat) :
    (f.linked parent?)[id]? = (f.node? id).map fun node =>
      if parent? = some id then { node with children := node.children ++ [f.size] } else node := by
  cases parent? with
  | none => simp [linked, node?]
  | some p =>
      rw [linked, List.getElem?_modify]
      by_cases same : p = id <;> simp [same, node?]

/-- The new node stands at the end; of the others only the parent changes, by one more child. -/
theorem node?_append (parent? : Option Nat) (id : Nat) :
    (f.append model alias? parent?).node? id =
      if id = f.size then some ⟨model, alias?, parent?, [], f.rootUnder parent?⟩
      else (f.node? id).map fun node =>
        if parent? = some id then { node with children := node.children ++ [f.size] } else node := by
  have nodes : (f.append model alias? parent?).node? id =
      (f.linked parent? ++ [⟨model, alias?, parent?, [], f.rootUnder parent?⟩])[id]? := by
    cases parent? <;> rfl
  have length := length_linked (f := f) parent?
  rw [nodes]
  by_cases old : id < f.size
  · rw [List.getElem?_append_left (by rwa [length]), getElem?_linked, if_neg (Nat.ne_of_lt old)]
  · rw [List.getElem?_append_right (by omega), length]
    by_cases new : id = f.size
    · rw [if_pos new, new, Nat.sub_self]
      rfl
    · rw [if_neg new, node?_eq_none.2 (Nat.le_of_not_lt old), Option.map_none]
      exact List.getElem?_eq_none (Nat.sub_pos_of_lt (by omega))

theorem node?_append_old {node : Node} (known : f.node? id = some node) (model : EntityModel)
    (alias? : Option String) (parent? : Option Nat) :
    ∃ added, (f.append model alias? parent?).node? id =
      some { node with children := node.children ++ added } := by
  have other : id ≠ f.size := by
    rintro rfl
    rw [node?_eq_none.2 (Nat.le_refl _)] at known
    cases known
  rw [node?_append, if_neg other, known, Option.map_some]
  split
  · exact ⟨[f.size], rfl⟩
  · exact ⟨[], by rw [List.append_nil]⟩

theorem node?_append_new (parent? : Option Nat) :
    (f.append model alias? parent?).node? f.size =
      some ⟨model, alias?, parent?, [], f.rootUnder parent?⟩ := by
  rw [node?_append, if_pos rfl]

/-- A name leads to the new node if it is one of its names, and else where it led before. -/
theorem find?_append (parent? : Option Nat) (name : String) :
    (f.append model alias? parent?).find? name =
      (f.find? name).or (if name ∈ model.path :: alias?.toList then some f.size else none) := by
  have given (names : List String) (n : Nat) :
      (names.map (·, n)).lookup name = if name ∈ names then some n else none := by
    induction names with
    | nil => rfl
    | cons other rest ih =>
        rw [List.map_cons, List.lookup_cons]
        by_cases same : name = other
        · simp [same]
        · simp [beq_eq_false_iff_ne.2 same, same, ih]
  show (f.paths ++ _).lookup name = _
  rw [List.lookup_append, given]
  rfl

/-! ### Links -/

theorem lt_size_of_node {node : Node} (known : f.node? id = some node) : id < f.size :=
  (List.getElem?_eq_some_iff.1 known).1

theorem exists_node (known : id < f.size) : ∃ node, f.node? id = some node :=
  ⟨_, List.getElem?_eq_getElem known⟩

theorem lt_size_of_parentOf {p : Nat} (above : f.parentOf? id = some p) : id < f.size := by
  obtain ⟨node, known, -⟩ := Option.bind_eq_some_iff.1 above
  exact lt_size_of_node known

private theorem childrenOf_unknown (past : f.size ≤ id) : f.childrenOf id = [] := by
  rw [childrenOf, node?_eq_none.2 past]
  rfl

private theorem parentOf?_append (parent? : Option Nat) (id : Nat) :
    (f.append model alias? parent?).parentOf? id =
      if id = f.size then parent? else f.parentOf? id := by
  rw [parentOf?, node?_append]
  split
  · rfl
  · unfold parentOf?
    cases f.node? id with
    | none => rfl
    | some node =>
        rw [Option.map_some, Option.bind_some, Option.bind_some]
        split <;> rfl

private theorem childrenOf_append (known : ∀ p, parent? = some p → p < f.size) (id : Nat) :
    (f.append model alias? parent?).childrenOf id =
      f.childrenOf id ++ if parent? = some id then [f.size] else [] := by
  by_cases old : id < f.size
  · obtain ⟨node, found⟩ := exists_node old
    rw [childrenOf, node?_append, if_neg (Nat.ne_of_lt old), childrenOf, found]
    by_cases parent : parent? = some id <;> simp [parent]
  · have other : parent? ≠ some id := fun above => old (known id above)
    have past : f.size ≤ id := Nat.le_of_not_lt old
    rw [childrenOf, node?_append, childrenOf_unknown past, if_neg other]
    split
    · rfl
    · rw [node?_eq_none.2 past]
      rfl

private theorem rootOf?_append (parent? : Option Nat) (id : Nat) :
    (f.append model alias? parent?).rootOf? id =
      if id = f.size then some (f.rootUnder parent?) else f.rootOf? id := by
  rw [rootOf?, node?_append]
  split
  · rfl
  · unfold rootOf?
    cases f.node? id with
    | none => rfl
    | some node =>
        rw [Option.map_some, Option.map_some, Option.map_some]
        split <;> rfl

private theorem some_rootUnder (known : ∀ p, parent? = some p → p < f.size) :
    some (f.rootUnder parent?) = f.rootFor f.size parent? := by
  cases parent? with
  | none => rfl
  | some p =>
      obtain ⟨node, found⟩ := exists_node (known p rfl)
      simp [rootUnder, rootFor, rootOf?, found]

/-! ### What insertions keep -/

/-- The links of a forest agree with each other, and so do its names. -/
structure Coherent (f : Forest) : Prop where
  parent_lt {id p : Nat} (above : f.parentOf? id = some p) : p < id
  children (id : Nat) :
    f.childrenOf id = (List.range f.size).filter fun c => f.parentOf? c = some id
  root {id : Nat} (known : id < f.size) :
    f.rootOf? id = f.rootFor id (f.parentOf? id)
  named (name : String) (id : Nat) :
    f.find? name = some id ↔ ∃ node, f.node? id = some node ∧ name ∈ node.origin.names

private theorem coherent_empty : Coherent {} where
  parent_lt above := by cases above
  children _ := rfl
  root known := absurd known (Nat.not_lt_zero _)
  named name id := by
    constructor
    · intro found
      cases found
    · rintro ⟨_, known, -⟩
      cases known

private theorem Coherent.appended (coherent : Coherent f)
    (fresh : ∀ name ∈ model.path :: alias?.toList, f.find? name = none)
    (known : ∀ p, parent? = some p → p < f.size) :
    Coherent (f.append model alias? parent?) where
  parent_lt {id p} above := by
    rw [parentOf?_append] at above
    split at above
    · next new => exact new ▸ known p above
    · exact coherent.parent_lt above
  children id := by
    have others : (List.range f.size).filter (fun c =>
        (f.append model alias? parent?).parentOf? c = some id) =
        (List.range f.size).filter fun c => f.parentOf? c = some id := by
      refine List.filter_congr fun c member => ?_
      rw [parentOf?_append, if_neg (Nat.ne_of_lt (List.mem_range.1 member))]
    rw [childrenOf_append known, coherent.children, size_append, List.range_succ,
      List.filter_append, others, List.filter_cons, parentOf?_append, if_pos rfl]
    by_cases parent : parent? = some id <;> simp [parent]
  root {id} there := by
    rw [size_append] at there
    rw [rootOf?_append, parentOf?_append]
    by_cases new : id = f.size
    · rw [if_pos new, if_pos new, some_rootUnder known, new]
      cases above : parent? with
      | none => rfl
      | some p => exact ((rootOf?_append _ p).trans (if_neg (Nat.ne_of_lt (known p above)))).symm
    · rw [if_neg new, if_neg new, coherent.root (by omega)]
      cases above : f.parentOf? id with
      | none => rfl
      | some p =>
          have before := coherent.parent_lt above
          exact ((rootOf?_append _ p).trans (if_neg (by omega))).symm
  named name id := by
    rw [find?_append, Option.or_eq_some_iff, coherent.named]
    constructor
    · rintro (⟨node, old, named⟩ | ⟨-, new⟩)
      · obtain ⟨added, still⟩ := node?_append_old old model alias? parent?
        exact ⟨_, still, named⟩
      · rw [Option.ite_none_right_eq_some] at new
        obtain ⟨named, same⟩ := new
        cases same
        exact ⟨_, node?_append_new parent?, named⟩
    · rintro ⟨node, there, named⟩
      by_cases new : id = f.size
      · rw [new, node?_append_new] at there
        cases there
        exact Or.inr ⟨fresh name named, (if_pos named).trans (congrArg some new.symm)⟩
      · rw [node?_append, if_neg new] at there
        obtain ⟨old, found, rfl⟩ := Option.map_eq_some_iff.1 there
        refine Or.inl ⟨old, found, ?_⟩
        revert named
        split <;> exact fun named => named

private theorem Coherent.lt_size (coherent : Coherent f) {name : String}
    (found : f.find? name = some id) :
    id < f.size := by
  obtain ⟨node, known, -⟩ := (coherent.named name id).1 found
  exact lt_size_of_node known

private theorem Coherent.parent_known (coherent : Coherent f)
    (sought : model.parent?.map (fun parent => f.find? parent.path) = parent?.map some) (p : Nat)
    (above : parent? = some p) : p < f.size := by
  rw [above, Option.map_some] at sought
  obtain ⟨parent, -, found⟩ := Option.map_eq_some_iff.1 sought
  exact coherent.lt_size found

theorem add_eq (f : Forest) (i : Insertion) :
    (∃ e, f.insert i.model i.alias? = .error e) ∧ f.add i = f ∨
      ∃ parent?, f.insert i.model i.alias? =
          .ok (f.size, f.append i.model i.alias? parent?) ∧
        f.add i = f.append i.model i.alias? parent? ∧
        (∀ name ∈ i.names, f.find? name = none) ∧
        i.model.parent?.map (fun parent => f.find? parent.path) = parent?.map some := by
  unfold add
  cases inserted : f.insert i.model i.alias? with
  | error e => exact Or.inl ⟨⟨e, rfl⟩, rfl⟩
  | ok result =>
      obtain ⟨id, after⟩ := result
      obtain ⟨rfl, fresh, parent?, rfl, sought⟩ := insert_eq_ok inserted
      exact Or.inr ⟨parent?, rfl, rfl, fresh, sought⟩

private theorem Coherent.added (coherent : Coherent f) (i : Insertion) : Coherent (f.add i) := by
  rcases add_eq f i with ⟨-, same⟩ | ⟨parent?, -, same, fresh, sought⟩
  · rwa [same]
  · rw [same]
    exact coherent.appended fresh (coherent.parent_known sought)

/-! ### Histories -/

variable {history later : List Insertion} {i : Insertion}

theorem grown_snoc (history : List Insertion) (i : Insertion) :
    grown (history ++ [i]) = (grown history).add i :=
  List.foldl_append ..

theorem coherent_grown (history : List Insertion) : Coherent (grown history) := by
  induction history using List.reverseRecOn with
  | nil => exact coherent_empty
  | append_singleton history i ih =>
      rw [grown_snoc]
      exact ih.added i

/-- A node stays as it is, but for children that come after those it has. -/
theorem node?_later {node : Node} (known : (grown history).node? id = some node)
    (later : List Insertion) :
    ∃ added, (grown (history ++ later)).node? id =
      some { node with children := node.children ++ added } := by
  induction later using List.reverseRecOn with
  | nil => exact ⟨[], by rw [List.append_nil, List.append_nil, known]⟩
  | append_singleton later i ih =>
      obtain ⟨added, still⟩ := ih
      rw [← List.append_assoc, grown_snoc]
      rcases add_eq (grown (history ++ later)) i with ⟨-, same⟩ | ⟨parent?, -, same, -⟩
      · rw [same]
        exact ⟨added, still⟩
      · obtain ⟨more, now⟩ := node?_append_old still i.model i.alias? parent?
        rw [same]
        exact ⟨added ++ more, by rw [now, List.append_assoc]⟩

private theorem made_snoc (j : Insertion) :
    Made (history ++ [j]) id i ↔ Made history id i ∨
      i = j ∧ ∃ after, (grown history).insert j.model j.alias? = .ok (id, after) := by
  constructor
  · rintro ⟨before, later, after, split, made⟩
    rcases List.eq_nil_or_concat later with rfl | ⟨between, last, rfl⟩
    · obtain ⟨rfl, same⟩ := List.append_inj' split rfl
      cases same
      exact Or.inr ⟨rfl, after, made⟩
    · rw [List.concat_eq_append, ← List.cons_append, ← List.append_assoc] at split
      obtain ⟨rfl, -⟩ := List.append_inj' split rfl
      exact Or.inl ⟨before, between, after, rfl, made⟩
  · rintro (⟨before, later, after, rfl, made⟩ | ⟨rfl, after, made⟩)
    · exact ⟨before, later ++ [j], after, by rw [List.append_assoc, List.cons_append], made⟩
    · exact ⟨history, [], after, rfl, made⟩

/-- Nodes are those that insertions have made, each with what it was inserted with. -/
theorem origin_iff_made : ((grown history).node? id).map Node.origin = some i ↔ Made history id i := by
  induction history using List.reverseRecOn with
  | nil =>
      constructor
      · intro known
        cases known
      · rintro ⟨before, later, after, split, -⟩
        cases before <;> cases split
  | append_singleton history j ih =>
      rw [made_snoc, ← ih, grown_snoc]
      rcases add_eq (grown history) j with ⟨⟨e, refused⟩, same⟩ | ⟨parent?, made, same, -⟩
      · rw [same, refused]
        simp
      · rw [same, made, node?_append]
        by_cases new : id = (grown history).size
        · rw [if_pos new, new, node?_eq_none.2 (Nat.le_refl _)]
          simp [Node.origin, eq_comm]
        · have other : ∀ after, (Except.ok ((grown history).size, (grown history).append j.model j.alias? parent?) :
              Except RegistryError (Nat × Forest)) ≠ .ok (id, after) := by
            intro after same
            cases same
            exact new rfl
          rw [if_neg new, Option.map_map]
          simp only [other, exists_false, and_false, or_false]
          have origin : (Node.origin ∘ fun node : Node =>
              if parent? = some id then
                { node with children := node.children ++ [(grown history).size] }
              else node) = Node.origin := by
            funext node
            dsimp only [Function.comp]
            split <;> rfl
          rw [origin]

end EntityStore.Forest
