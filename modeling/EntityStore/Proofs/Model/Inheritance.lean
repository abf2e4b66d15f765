import EntityStore.Proofs.Model.Chain
import EntityStore.Proofs.Model.Walks

/-!
The forest of nodes beside the inheritance that models declare. A parent is looked up by its path alone,
and what is found under a path is any model that was inserted under it, with the path as its own or as
its alias. So the forest mirrors the levels of its models exactly where the paths of these levels lead to
the levels themselves.
-/

namespace EntityStore

namespace EntityModel

def levelsAbove (m : EntityModel) : List EntityModel :=
  m.levels.dropLast.reverse

private theorem levelsAbove_root {m : EntityModel} (alone : m.parent? = none) :
    m.levelsAbove = [] := by
  obtain ⟨own, above⟩ := m
  cases above with
  | nil => rfl
  | cons next rest => cases alone

theorem levelsAbove_parent {m parent : EntityModel} (above : m.parent? = some parent) :
    m.levelsAbove = parent :: parent.levelsAbove := by
  have tail (m : EntityModel) : m.levelsAbove = m.chain.tail := by
    rw [levelsAbove, levels, List.dropLast_reverse, List.reverse_reverse]
  obtain ⟨own, levels⟩ := m
  cases levels with
  | nil => cases above
  | cons next rest =>
      cases above
      obtain ⟨further, chain⟩ := chain_eq_cons ⟨next, rest⟩
      rw [tail, tail, chain]
      exact chain

end EntityModel

namespace Forest

def modelAt? (f : Forest) (id : Nat) : Option EntityModel :=
  (f.node? id).map (·.model)

/-- The nodes above each node hold the levels above its model, nearest first. -/
def Mirrors (f : Forest) : Prop :=
  ∀ id node, f.node? id = some node →
    (f.ancestors id).map f.modelAt? = node.model.levelsAbove.map some

/-- What has the path of a level above a node's model among its names holds that level. -/
def NamesLevels (f : Forest) : Prop :=
  ∀ node ∈ f.nodes, ∀ level ∈ node.model.levelsAbove, ∀ other ∈ f.nodes,
    level.path ∈ other.origin.names → other.model = level

instance (f : Forest) : Decidable f.NamesLevels :=
  inferInstanceAs (Decidable (∀ node ∈ f.nodes, _))

/-- A node has a parent if its model has one, and it is what the parent's path leads to. -/
def Linked (f : Forest) : Prop :=
  ∀ id node, f.node? id = some node →
    node.model.parent?.map (fun parent => f.find? parent.path) = node.parent?.map some

variable {f : Forest} {id : Nat} {node : Node}

theorem mem_nodes (known : f.node? id = some node) : node ∈ f.nodes :=
  List.mem_of_getElem? known

private theorem Linked.added (linked : Linked f) (i : Insertion) : Linked (f.add i) := by
  rcases add_eq f i with ⟨-, same⟩ | ⟨parent?, -, same, -, sought⟩
  · rwa [same]
  -- What a path has led to it goes on to lead to.
  have still {m : EntityModel} {p? : Option Nat}
      (before : m.parent?.map (fun parent => f.find? parent.path) = p?.map some) :
      m.parent?.map (fun parent => (f.append i.model i.alias? parent?).find? parent.path) =
        p?.map some := by
    cases above : m.parent? with
    | none =>
        rw [above] at before
        exact before
    | some parent =>
        rw [above] at before
        obtain ⟨p, rfl, there⟩ := Option.map_eq_some_iff.1 before.symm
        have found : f.find? parent.path = some p := there.symm
        rw [Option.map_some, find?_append, found]
        rfl
  intro id node known
  rw [same] at known ⊢
  rw [node?_append] at known
  split at known
  · cases known
    exact still sought
  · obtain ⟨old, there, rfl⟩ := Option.map_eq_some_iff.1 known
    split <;> exact still (linked id old there)

private theorem linked_grown (history : List Insertion) : Linked (grown history) := by
  induction history using List.reverseRecOn with
  | nil =>
      intro id node known
      cases known
  | append_singleton history i ih =>
      rw [grown_snoc]
      exact ih.added i

private theorem Linked.parent (linked : Linked f) (known : f.node? id = some node)
    {parent : EntityModel}
    (above : node.model.parent? = some parent) :
    ∃ p, f.parentOf? id = some p ∧ f.find? parent.path = some p := by
  have sought := linked id node known
  rw [above, Option.map_some] at sought
  obtain ⟨p, there, found⟩ := Option.map_eq_some_iff.1 sought.symm
  refine ⟨p, ?_, found.symm⟩
  rw [parentOf?, known]
  exact there

private theorem Linked.alone (linked : Linked f) (known : f.node? id = some node)
    (root : node.model.parent? = none) : f.parentOf? id = none := by
  have sought := linked id node known
  rw [root, Option.map_none] at sought
  rw [parentOf?, known]
  exact Option.map_eq_none_iff.1 sought.symm

private theorem Coherent.mirrors_of_names (coherent : Coherent f) (linked : Linked f)
    (names : f.NamesLevels) : f.Mirrors := by
  intro id
  induction id using Nat.strongRecOn with
  | ind id ih =>
      intro node known
      cases above : node.model.parent? with
      | none =>
          rw [ancestors_alone (linked.alone known above), EntityModel.levelsAbove_root above]
          rfl
      | some parent =>
          obtain ⟨p, up, found⟩ := linked.parent known above
          obtain ⟨other, there, named⟩ := (coherent.named parent.path p).1 found
          have levels := EntityModel.levelsAbove_parent above
          have own : other.model = parent := names node (mem_nodes known) parent
            (levels ▸ List.mem_cons_self) other (mem_nodes there) named
          have rest := ih p (coherent.parent_lt up) other there
          rw [coherent.ancestors_up up, levels, List.map_cons, List.map_cons, rest, modelAt?, there,
            Option.map_some, own]

theorem Coherent.names_of_mirrors (coherent : Coherent f) (mirrors : f.Mirrors) : f.NamesLevels := by
  intro node member level above other beside named
  obtain ⟨id, known⟩ := List.mem_iff_getElem?.1 member
  obtain ⟨o, there⟩ := List.mem_iff_getElem?.1 beside
  have held : some level ∈ (f.ancestors id).map f.modelAt? := by
    rw [mirrors id node known]
    exact List.mem_map_of_mem above
  obtain ⟨a, -, holds⟩ := List.mem_map.1 held
  obtain ⟨holder, kept, rfl⟩ := Option.map_eq_some_iff.1 holds
  -- The level's path is a name of the node that holds it, and no name belongs to two nodes.
  have first := (coherent.named holder.model.path a).2 ⟨holder, kept, List.mem_cons_self⟩
  have second := (coherent.named holder.model.path o).2 ⟨other, there, named⟩
  have same : a = o := Option.some.inj (first.symm.trans second)
  subst same
  exact congrArg Node.model (Option.some.inj (there.symm.trans kept))

/-- After any insertions the nodes above each node hold the levels above its model if and only if the
paths of these levels lead to nothing but the levels. An insertion of a model with a parent has succeeded
only if something was inserted under the path of that parent before, and this was the parent itself if
paths lead to levels. -/
theorem inheritance_mirrored (history : List Insertion) :
    ((grown history).Mirrors ↔ (grown history).NamesLevels) ∧
    ∀ (before later : List Insertion) (i : Insertion) (id : Nat) (after : Forest)
      (parent : EntityModel), history = before ++ i :: later →
      (grown before).insert i.model i.alias? = .ok (id, after) → i.model.parent? = some parent →
      ∃ p j, Made before p j ∧ parent.path ∈ j.names ∧
        ((grown history).NamesLevels → j.model = parent) := by
  have coherent := coherent_grown history
  refine ⟨⟨coherent.names_of_mirrors, coherent.mirrors_of_names (linked_grown history)⟩, ?_⟩
  rintro before later i id after parent rfl inserted above
  obtain ⟨-, -, parent?, -, sought⟩ := insert_eq_ok inserted
  rw [above, Option.map_some] at sought
  obtain ⟨p, -, found⟩ := Option.map_eq_some_iff.1 sought.symm
  obtain ⟨holder, there, named⟩ := ((coherent_grown before).named parent.path p).1 found.symm
  refine ⟨p, holder.origin, origin_iff_made.1 (by rw [there]; rfl), named, fun names => ?_⟩
  -- Both the parent's node and the new one are still there at the end.
  obtain ⟨_, still⟩ := node?_later there (i :: later)
  have made : Made (before ++ i :: later) id i := ⟨before, later, after, rfl, inserted⟩
  obtain ⟨node, known, origin⟩ := Option.map_eq_some_iff.1 (origin_iff_made.2 made)
  have model : node.model = i.model := congrArg Insertion.model origin
  have level : parent ∈ node.model.levelsAbove := by
    rw [model, EntityModel.levelsAbove_parent above]
    exact List.mem_cons_self
  have held := names node (mem_nodes known) parent level _ (mem_nodes still) named
  exact held

/-! ### A staff -/

def plainModel (name : String) (above : List Level) : EntityModel :=
  ⟨⟨name, name, "id", []⟩, above⟩

def person : EntityModel :=
  plainModel "w::Person" []

def employee : EntityModel :=
  plainModel "w::Employee" [person.own]

def manager : EntityModel :=
  plainModel "w::Manager" [employee.own, person.own]

def tag : EntityModel :=
  plainModel "w::Tag" []

def staff : List Insertion :=
  [⟨manager, none⟩, ⟨person, some "people"⟩, ⟨tag, none⟩, ⟨employee, none⟩, ⟨person, none⟩,
    ⟨manager, some "chief"⟩]

theorem staff_mirrored : (grown staff).size = 4 ∧ (grown staff).NamesLevels ∧ (grown staff).Mirrors :=
  have names : (grown staff).NamesLevels := by decide
  ⟨by decide, names, (inheritance_mirrored staff).1.2 names⟩

/-- An alias that is the path of a model makes another model pass for it: the employee is inserted though
the person never was, and stands below the tag. -/
theorem alias_passes_for_parent :
    employee.parent? = some person ∧
    (∃ after, (grown [⟨tag, some person.path⟩]).insert employee none = .ok (1, after)) ∧
    (∀ node ∈ (grown [⟨tag, some person.path⟩]).nodes, node.model ≠ person) ∧
    ((grown [⟨tag, some person.path⟩, ⟨employee, none⟩]).parentOf? 1).bind
      (grown [⟨tag, some person.path⟩, ⟨employee, none⟩]).modelAt? = some tag ∧
    ¬ (grown [⟨tag, some person.path⟩, ⟨employee, none⟩]).Mirrors := by
  refine ⟨rfl, ⟨_, rfl⟩, by decide, by decide, fun mirrors => ?_⟩
  exact absurd ((coherent_grown _).names_of_mirrors mirrors) (by decide)

end Forest

end EntityStore
