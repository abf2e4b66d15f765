import EntityStore.Builder.Update
import EntityStore.Proofs.Filter.Trail

/-!
Plans of updates. A list of fields is planned unless it is empty, names what no level has, or names
a key; and then each column that it names stands in the plan once: a column of a table with those of
its level, a relation to many rows with the links.
-/

namespace EntityStore

namespace UpdatePlan

variable {m : EntityModel} {fields more : List String} {plan : UpdatePlan}

/-- A field names a column of the table of a level. -/
def Lists (m : EntityModel) (fields : List String) (level : EntityModel) (name : String) : Prop :=
  ∃ field ∈ fields, ∃ c, m.findColumn? field = some (level, c) ∧ c.isMany = false ∧ c.name = name

/-- A field names a relation to many rows. -/
def ListsLinks (m : EntityModel) (fields : List String) (name : String) : Prop :=
  ∃ field ∈ fields, ∃ level c, m.findColumn? field = some (level, c) ∧ c.isMany = true
    ∧ c.name = name

/-- Nothing is named, or something that is unknown or a key. -/
def Refused (m : EntityModel) (fields : List String) : Prop :=
  fields = [] ∨ ∃ field ∈ fields,
    m.findColumn? field = none ∨ ∃ level c, m.findColumn? field = some (level, c) ∧ c.primary = true

private theorem refused_iff : Refused m fields ↔
    fields = [] ∨ ∃ field ∈ fields, (m.findColumn? field).all (·.2.primary) = true := by
  refine or_congr_right (exists_congr fun field => and_congr_right fun _ => ?_)
  cases m.findColumn? field with
  | none => simp
  | some found => simp [Prod.ext_iff]

instance (m : EntityModel) (fields : List String) : Decidable (Refused m fields) :=
  decidable_of_iff _ refused_iff.symm

/-- The plan has a place for the columns that the fields name, and only one. -/
structure Places (m : EntityModel) (fields : List String) (plan : UpdatePlan) : Prop where
  apart : (plan.levels.map (·.1)).Nodup
  filled : ∀ group ∈ plan.levels, group.2 ≠ []
  once : ∀ group ∈ plan.levels, (group.2.map (·.name)).Nodup
  columns : ∀ level name, (∃ group ∈ plan.levels, group.1 = level ∧ name ∈ group.2.map (·.name)) ↔
    Lists m fields level name
  linksOnce : plan.links.Nodup
  links : ∀ name, name ∈ plan.links ↔ ListsLinks m fields name

private theorem lists_append {level : EntityModel} {name : String} :
    Lists m (fields ++ more) level name ↔ Lists m fields level name ∨ Lists m more level name := by
  unfold Lists
  simp only [List.mem_append, or_and_right, exists_or]

private theorem listsLinks_append {name : String} :
    ListsLinks m (fields ++ more) name ↔ ListsLinks m fields name ∨ ListsLinks m more name := by
  unfold ListsLinks
  simp only [List.mem_append, or_and_right, exists_or]

private theorem lists_single {field : String} {level other : EntityModel} {c : Column} {name : String}
    (finds : m.findColumn? field = some (level, c)) :
    Lists m [field] other name ↔ c.isMany = false ∧ other = level ∧ name = c.name := by
  unfold Lists
  simp only [List.mem_singleton, exists_eq_left, finds, Option.some.injEq, Prod.mk.injEq]
  constructor
  · rintro ⟨c, ⟨rfl, rfl⟩, one, rfl⟩
    exact ⟨one, rfl, rfl⟩
  · rintro ⟨one, rfl, rfl⟩
    exact ⟨c, ⟨rfl, rfl⟩, one, rfl⟩

private theorem listsLinks_single {field : String} {level : EntityModel} {c : Column} {name : String}
    (finds : m.findColumn? field = some (level, c)) :
    ListsLinks m [field] name ↔ c.isMany = true ∧ name = c.name := by
  unfold ListsLinks
  simp only [List.mem_singleton, exists_eq_left, finds, Option.some.injEq, Prod.mk.injEq]
  constructor
  · rintro ⟨level, c, ⟨rfl, rfl⟩, many, rfl⟩
    exact ⟨many, rfl⟩
  · rintro ⟨many, rfl⟩
    exact ⟨level, c, ⟨rfl, rfl⟩, many, rfl⟩

theorem Lists.mem_chain {level : EntityModel} {name : String} (lists : Lists m fields level name) :
    level ∈ m.chain ∧ ∃ c ∈ level.ownColumns, c.name = name := by
  obtain ⟨field, -, c, finds, one, rfl⟩ := lists
  obtain ⟨member, declared, -⟩ := EntityModel.findColumn_cases finds
  exact ⟨member, c, List.mem_filter.2 ⟨declared, by simpa [Column.isMany] using one⟩, rfl⟩

/-! ### Adding a column -/

section

variable {groups : List (EntityModel × List Column)} {level : EntityModel} {c : Column}

/-- Where paths tell levels apart, the group of a level gets the column, or a new group does. -/
theorem addColumn_levels (told : ∀ group ∈ groups, group.1.path = level.path → group.1 = level) :
    (addColumn level c groups).map (·.1) =
      if level ∈ groups.map (·.1) then groups.map (·.1) else groups.map (·.1) ++ [level] := by
  induction groups with
  | nil => rfl
  | cons group rest ih =>
      obtain ⟨first, others⟩ := List.forall_mem_cons.1 told
      unfold addColumn
      by_cases here : group.1 = level
      · have same : group.1.same level = true := by
          rw [here]
          exact beq_self_eq_true _
        have known : level ∈ (group :: rest).map (·.1) := here ▸ List.mem_cons_self
        rw [if_pos same, if_pos known]
        rfl
      · have other : ¬group.1.same level = true := fun same => here (first (beq_iff_eq.1 same))
        rw [if_neg other, List.map_cons, ih others, List.map_cons]
        by_cases later : level ∈ rest.map (·.1)
        · rw [if_pos later, if_pos (List.mem_cons_of_mem _ later)]
        · rw [if_neg later, if_neg fun member =>
            (List.mem_cons.1 member).elim (fun same => here same.symm) later]
          rfl

private theorem addColumn_filled (filled : ∀ group ∈ groups, group.2 ≠ []) :
    ∀ group ∈ addColumn level c groups, group.2 ≠ [] := by
  fun_induction addColumn level c groups with
  | case1 => exact List.forall_mem_singleton.2 (List.cons_ne_nil _ _)
  | case2 l columns rest here =>
      obtain ⟨first, others⟩ := List.forall_mem_cons.1 filled
      refine List.forall_mem_cons.2 ⟨?_, others⟩
      split
      · exact first
      · exact List.append_ne_nil_of_right_ne_nil _ (List.cons_ne_nil _ _)
  | case3 l columns rest other ih =>
      obtain ⟨first, others⟩ := List.forall_mem_cons.1 filled
      exact List.forall_mem_cons.2 ⟨first, ih others⟩

private theorem addColumn_once (once : ∀ group ∈ groups, (group.2.map (·.name)).Nodup) :
    ∀ group ∈ addColumn level c groups, (group.2.map (·.name)).Nodup := by
  fun_induction addColumn level c groups with
  | case1 => exact List.forall_mem_singleton.2 (List.nodup_singleton _)
  | case2 l columns rest here =>
      obtain ⟨first, others⟩ := List.forall_mem_cons.1 once
      refine List.forall_mem_cons.2 ⟨?_, others⟩
      split
      · exact first
      · next absent =>
          rw [List.map_append, List.map_singleton]
          refine List.nodup_append.2
            ⟨first, List.nodup_singleton _, fun name member other single => ?_⟩
          rw [List.mem_singleton] at single
          rintro rfl
          obtain ⟨old, inside, named⟩ := List.mem_map.1 member
          exact absent (List.any_eq_true.2 ⟨old, inside, beq_iff_eq.2 (named.trans single)⟩)
  | case3 l columns rest other ih =>
      obtain ⟨first, others⟩ := List.forall_mem_cons.1 once
      exact List.forall_mem_cons.2 ⟨first, ih others⟩

private theorem mem_addColumn (told : ∀ group ∈ groups, group.1.path = level.path → group.1 = level)
    {other : EntityModel} {name : String} :
    (∃ group ∈ addColumn level c groups, group.1 = other ∧ name ∈ group.2.map (·.name)) ↔
      (∃ group ∈ groups, group.1 = other ∧ name ∈ group.2.map (·.name))
        ∨ other = level ∧ name = c.name := by
  induction groups with
  | nil =>
      unfold addColumn
      simp [eq_comm]
  | cons group rest ih =>
      obtain ⟨first, others⟩ := List.forall_mem_cons.1 told
      unfold addColumn
      by_cases same : group.1.same level = true
      · obtain rfl := first (beq_iff_eq.1 same)
        rw [if_pos same]
        simp only [List.mem_cons, or_and_right, exists_or, exists_eq_left]
        by_cases present : group.2.any (·.name == c.name) = true
        · rw [if_pos present]
          obtain ⟨old, inside, named⟩ := List.any_eq_true.1 present
          have known : c.name ∈ group.2.map (·.name) :=
            List.mem_map.2 ⟨old, inside, beq_iff_eq.1 named⟩
          constructor
          · exact Or.inl
          · rintro (listed | ⟨rfl, rfl⟩)
            · exact listed
            · exact Or.inl ⟨rfl, known⟩
        · rw [if_neg present, List.map_append, List.mem_append, List.map_singleton,
            List.mem_singleton, and_or_left]
          constructor
          · rintro ((listed | ⟨rfl, rfl⟩) | later)
            · exact Or.inl (Or.inl listed)
            · exact Or.inr ⟨rfl, rfl⟩
            · exact Or.inl (Or.inr later)
          · rintro ((listed | later) | ⟨rfl, rfl⟩)
            · exact Or.inl (Or.inl listed)
            · exact Or.inr later
            · exact Or.inl (Or.inr ⟨rfl, rfl⟩)
      · rw [if_neg same]
        simp only [List.mem_cons, or_and_right, exists_or, exists_eq_left]
        rw [ih others, or_assoc]

end

/-! ### Planning -/

private theorem Places.nothing (m : EntityModel) : Places m [] {} where
  apart := List.nodup_nil
  filled := nofun
  once := nofun
  columns level name := by simp [Lists]
  linksOnce := List.nodup_nil
  links name := by simp [ListsLinks]

theorem Places.level_mem (places : Places m fields plan) {group : EntityModel × List Column}
    (member : group ∈ plan.levels) : group.1 ∈ m.chain := by
  obtain ⟨c, columns, listed⟩ := List.exists_cons_of_ne_nil (places.filled group member)
  have named : c.name ∈ group.2.map (·.name) := by
    rw [listed]
    exact List.mem_cons_self
  exact ((places.columns group.1 c.name).1 ⟨group, member, rfl, named⟩).mem_chain.1

/-- A field that names something other than a key gets its place. -/
theorem Places.addField (paths : (m.chain.map (·.path)).Nodup) (places : Places m fields plan)
    {field : String} {level : EntityModel} {c : Column}
    (finds : m.findColumn? field = some (level, c)) (free : c.primary = false) :
    ∃ plan', UpdatePlan.addField m plan field = .ok plan' ∧ Places m (fields ++ [field]) plan' := by
  have member := (EntityModel.findColumn_cases finds).1
  unfold UpdatePlan.addField
  rw [finds]
  dsimp only
  rw [if_neg (by rw [free]; exact Bool.false_ne_true)]
  cases many : c.isMany with
  | true =>
      rw [if_pos rfl]
      refine ⟨_, rfl, ?_⟩
      have columns (other : EntityModel) (name : String) :
          Lists m (fields ++ [field]) other name ↔ Lists m fields other name := by
        rw [lists_append, lists_single finds, many]
        simp
      have links (name : String) : ListsLinks m (fields ++ [field]) name ↔
          name ∈ plan.links ∨ name = c.name := by
        rw [listsLinks_append, listsLinks_single finds, places.links, many]
        simp
      by_cases known : c.name ∈ plan.links
      · rw [if_pos (List.contains_iff_mem.2 known)]
        refine { places with
          columns := fun other name => (places.columns other name).trans (columns other name).symm
          links := fun name => ?_ }
        rw [links]
        exact ⟨Or.inl, fun listed => listed.elim id fun same => same ▸ known⟩
      · rw [if_neg fun contains => known (List.contains_iff_mem.1 contains)]
        refine { places with
          columns := fun other name => (places.columns other name).trans (columns other name).symm
          linksOnce := ?_
          links := fun name => ?_ }
        · refine List.nodup_append.2 ⟨places.linksOnce, List.nodup_singleton _, ?_⟩
          rintro name inside other single rfl
          exact known (List.mem_singleton.1 single ▸ inside)
        · rw [links, List.mem_append, List.mem_singleton]
  | false =>
      rw [if_neg Bool.false_ne_true]
      refine ⟨_, rfl, ?_⟩
      have told : ∀ group ∈ plan.levels, group.1.path = level.path → group.1 = level :=
        fun group inside same =>
          List.inj_on_of_nodup_map paths (places.level_mem inside) member same
      have levels := addColumn_levels (c := c) told
      refine { places with
        apart := ?_
        filled := addColumn_filled places.filled
        once := addColumn_once places.once
        columns := fun other name => ?_
        links := fun name => ?_ }
      · rw [levels]
        split
        · exact places.apart
        · next fresh =>
            refine List.nodup_append.2 ⟨places.apart, List.nodup_singleton _, ?_⟩
            rintro old inside other single rfl
            exact fresh (List.mem_singleton.1 single ▸ inside)
      · rw [mem_addColumn told, places.columns, lists_append, lists_single finds, many]
        simp
      · rw [places.links, listsLinks_append, listsLinks_single finds, many]
        simp

/-- What is not refused is planned. -/
theorem resolve_places (paths : (m.chain.map (·.path)).Nodup) (accepted : ¬Refused m fields) :
    ∃ plan, resolve m fields = .ok plan ∧ Places m fields plan := by
  have named : fields ≠ [] := fun none => accepted (Or.inl none)
  have each : ∀ field ∈ fields,
      ∃ level c, m.findColumn? field = some (level, c) ∧ c.primary = false := by
    intro field member
    cases finds : m.findColumn? field with
    | none => exact absurd (Or.inr ⟨field, member, Or.inl finds⟩) accepted
    | some found =>
        refine ⟨found.1, found.2, rfl, Bool.eq_false_iff.2 fun primary => accepted ?_⟩
        exact Or.inr ⟨field, member, Or.inr ⟨found.1, found.2, finds, primary⟩⟩
  -- Every plan that places what came before goes on to one that places the rest as well.
  have onwards : ∀ (rest done : List String) (plan : UpdatePlan), Places m done plan →
      (∀ field ∈ rest, ∃ level c, m.findColumn? field = some (level, c) ∧ c.primary = false) →
      ∃ plan', rest.foldlM (UpdatePlan.addField m) plan = .ok plan'
        ∧ Places m (done ++ rest) plan' := by
    intro rest
    induction rest with
    | nil =>
        intro done plan places _
        exact ⟨plan, rfl, by rwa [List.append_nil]⟩
    | cons field rest ih =>
        intro done plan places each
        obtain ⟨⟨level, c, finds, free⟩, others⟩ := List.forall_mem_cons.1 each
        obtain ⟨next, added, placed⟩ := places.addField paths finds free
        obtain ⟨last, planned, whole⟩ := ih _ next placed others
        refine ⟨last, ?_, by rwa [List.append_assoc] at whole⟩
        rw [List.foldlM_cons, added]
        exact planned
  unfold resolve
  rw [if_neg fun empty => named (List.isEmpty_iff.1 empty)]
  exact onwards fields [] {} (.nothing m) each

theorem resolve_refused (refused : Refused m fields) : ∃ e, resolve m fields = .error e := by
  unfold resolve
  split
  · exact ⟨_, rfl⟩
  · next some =>
      have bad : ∃ field ∈ fields, ∀ plan, ∃ e, UpdatePlan.addField m plan field = .error e := by
        rcases refused with none | ⟨field, member, unknown | ⟨level, c, finds, primary⟩⟩
        · exact absurd (List.isEmpty_iff.2 none) some
        · exact ⟨field, member, fun plan => ⟨_, by rw [UpdatePlan.addField, unknown]⟩⟩
        · refine ⟨field, member, fun plan => ⟨QueryError.primaryKeyField field, ?_⟩⟩
          rw [UpdatePlan.addField, finds]
          dsimp only
          rw [if_pos primary]
      obtain ⟨field, member, fails⟩ := bad
      clear refused some
      generalize ({} : UpdatePlan) = plan
      induction fields generalizing plan with
      | nil => cases member
      | cons first rest ih =>
          rw [List.foldlM_cons]
          rcases List.mem_cons.1 member with rfl | later
          · obtain ⟨e, failed⟩ := fails plan
            exact ⟨e, by rw [failed]; rfl⟩
          · cases added : UpdatePlan.addField m plan first with
            | error e => exact ⟨e, rfl⟩
            | ok next => exact ih later next

end UpdatePlan

end EntityStore
