import EntityStore.Builder.Delete
import EntityStore.Proofs.Model.Chain

/-!
What a storage's models tell a removal: which link tables there are, and which relations lead to the
rows of a model. Both are found by walking all models and keeping one of each name, so they are
complete where no level gives one name to two members.
-/

namespace EntityStore

/-! ### Lists without repeats -/

section

variable {α : Type} {same : α → α → Bool} {add : List α → α → List α}

/-- Elements are only added, and only given ones. -/
theorem mem_foldl_add
    (adds : ∀ found x, add found x = if found.any (same · x) then found else found ++ [x])
    (found xs : List α) (y : α) (member : y ∈ xs.foldl add found) : y ∈ found ∨ y ∈ xs := by
  induction xs generalizing found with
  | nil => exact Or.inl member
  | cons x xs ih =>
      rcases ih (add found x) member with before | later
      · rw [adds] at before
        split at before
        · exact Or.inl before
        · rcases List.mem_append.1 before with before | here
          · exact Or.inl before
          · rw [List.mem_singleton] at here
            exact Or.inr (here ▸ List.mem_cons_self)
      · exact Or.inr (List.mem_cons_of_mem x later)

theorem foldl_add_keeps
    (adds : ∀ found x, add found x = if found.any (same · x) then found else found ++ [x])
    (found xs : List α) (y : α) (member : y ∈ found) : y ∈ xs.foldl add found := by
  induction xs generalizing found with
  | nil => exact member
  | cons x xs ih =>
      refine ih (add found x) ?_
      rw [adds]
      split
      · exact member
      · exact List.mem_append_left [x] member

/-- Of each given element one of the same name is there. -/
theorem foldl_add_covers
    (adds : ∀ found x, add found x = if found.any (same · x) then found else found ++ [x])
    (refl : ∀ x, same x x = true) (found xs : List α) (x : α) (member : x ∈ xs) :
    ∃ y ∈ xs.foldl add found, same y x = true := by
  induction xs generalizing found with
  | nil => cases member
  | cons head xs ih =>
      rcases List.mem_cons.1 member with rfl | later
      · have here : ∃ y ∈ add found x, same y x = true := by
          rw [adds]
          split
          · next known => exact List.any_eq_true.1 known
          · exact ⟨x, List.mem_append_right found (List.mem_singleton_self x), refl x⟩
        obtain ⟨y, known, equal⟩ := here
        exact ⟨y, foldl_add_keeps adds _ xs y known, equal⟩
      · exact ih (add found head) later

end

/-! ### Registered models -/

/-- The link tables of the models: one for each relation to many rows that a level declares. -/
inductive Links (schema : Schema) (models : List EntityModel) : LinkTable → Prop
  | declared (level : EntityModel) (registered : level ∈ models) (c : Column)
      (declares : c ∈ level.columns) (target : ModelRef) (table : String)
      (kind : c.kind = .many target table) :
      Links schema models (.between table c.name level (schema.model target))

/-- Models registered together. With a model come the levels above it and those that its relations
lead to, and no two of them share a path or a table. -/
structure Registered (schema : Schema) (models : List EntityModel) : Prop where
  ancestors : ∀ m ∈ models, ∀ level ∈ m.chain, level ∈ models
  targets : ∀ m ∈ models, ∀ c ∈ m.columns, ∀ target, c.target? = some target →
    schema.model target ∈ models
  paths : ∀ a ∈ models, ∀ b ∈ models, a.path = b.path → a = b
  tables : ∀ a ∈ models, ∀ b ∈ models, a.table = b.table → a = b
  links : ∀ l l', Links schema models l → Links schema models l' → l.table = l'.table → l = l'
  linksApart : ∀ l, Links schema models l → ∀ m ∈ models, l.table ≠ m.table

def declaredLinks (schema : Schema) (models : List EntityModel) : List LinkTable :=
  models.flatMap fun level => level.columns.filterMap fun c =>
    match c.kind with
    | .many target table => some (.between table c.name level (schema.model target))
    | _ => none

theorem links_iff {schema : Schema} {models : List EntityModel} {l : LinkTable} :
    Links schema models l ↔ l ∈ declaredLinks schema models := by
  constructor
  · intro link
    cases link with
    | declared level registered c declares target table kind =>
        refine List.mem_flatMap.2 ⟨level, registered, List.mem_filterMap.2 ⟨c, declares, ?_⟩⟩
        rw [kind]
  · intro member
    obtain ⟨level, registered, member⟩ := List.mem_flatMap.1 member
    obtain ⟨c, declares, found⟩ := List.mem_filterMap.1 member
    cases kind : c.kind with
    | many target table =>
        rw [kind] at found
        cases found
        exact .declared level registered c declares target table kind
    | _ =>
        rw [kind] at found
        cases found

instance (schema : Schema) (models : List EntityModel) : Decidable (Registered schema models) :=
  decidable_of_iff
    ((∀ m ∈ models, ∀ level ∈ m.chain, level ∈ models)
      ∧ (∀ m ∈ models, ∀ c ∈ m.columns, c.target?.all (fun target => schema.model target ∈ models))
      ∧ (∀ a ∈ models, ∀ b ∈ models, a.path = b.path → a = b)
      ∧ (∀ a ∈ models, ∀ b ∈ models, a.table = b.table → a = b)
      ∧ (∀ l ∈ declaredLinks schema models, ∀ l' ∈ declaredLinks schema models,
        l.table = l'.table → l = l')
      ∧ ∀ l ∈ declaredLinks schema models, ∀ m ∈ models, l.table ≠ m.table) (by
    constructor
    · rintro ⟨ancestors, targets, paths, tables, links, apart⟩
      refine ⟨ancestors, ?_, paths, tables, ?_, ?_⟩
      · intro m known c declares target leads
        exact of_decide_eq_true ((Option.all_eq_true _ _).1 (targets m known c declares) target leads)
      · intro l l' link link'
        exact links l (links_iff.1 link) l' (links_iff.1 link')
      · intro l link
        exact apart l (links_iff.1 link)
    · intro registered
      refine ⟨registered.ancestors, ?_, registered.paths, registered.tables, ?_, ?_⟩
      · intro m known c declares
        refine (Option.all_eq_true _ _).2 fun target leads => decide_eq_true ?_
        exact registered.targets m known c declares target leads
      · intro l link l' link'
        exact registered.links l l' (links_iff.2 link) (links_iff.2 link')
      · intro l link
        exact registered.linksApart l (links_iff.2 link))

/-- A level gives no name to two members, and does not empty its own key. -/
structure EntityModel.Unambiguous (level : EntityModel) : Prop where
  members : ∀ a ∈ level.columns, ∀ b ∈ level.columns, a.target?.isSome → b.target?.isSome →
    a.name = b.name → a = b
  links : ∀ c ∈ level.columns, c.isMany → level.columns.find? (·.answersTo c.name) = some c
  key : ∀ c ∈ level.columns, ∀ field target, c.kind = .relation field target .setNull →
    c.name ≠ level.primaryKey

def EntityModel.keepsKey (level : EntityModel) (c : Column) : Bool :=
  match c.kind with
  | .relation _ _ .setNull => c.name != level.primaryKey
  | _ => true

private theorem EntityModel.keepsKey_iff {level : EntityModel} {c : Column} :
    level.keepsKey c = true ↔ ∀ field target, c.kind = .relation field target .setNull →
      c.name ≠ level.primaryKey := by
  unfold EntityModel.keepsKey
  cases c.kind with
  | relation field target onDelete => cases onDelete <;> simp
  | _ => simp

instance (level : EntityModel) : Decidable level.Unambiguous :=
  decidable_of_iff
    ((∀ a ∈ level.columns, ∀ b ∈ level.columns, a.target?.isSome → b.target?.isSome →
        a.name = b.name → a = b)
      ∧ (∀ c ∈ level.columns, c.isMany → level.columns.find? (·.answersTo c.name) = some c)
      ∧ ∀ c ∈ level.columns, level.keepsKey c = true) (by
    constructor
    · rintro ⟨members, links, key⟩
      exact ⟨members, links, fun c declares => EntityModel.keepsKey_iff.1 (key c declares)⟩
    · intro unambiguous
      exact ⟨unambiguous.members, unambiguous.links,
        fun c declares => EntityModel.keepsKey_iff.2 (unambiguous.key c declares)⟩)

section

variable {schema : Schema} {models : List EntityModel} {a b m : EntityModel}

theorem Registered.mem_chain_iff (registered : Registered schema models) (first : a ∈ models)
    (second : b ∈ models) : b ∈ a.chain ↔ a.descendsFrom b = true := by
  constructor
  · exact EntityModel.descendsFrom_of_mem_chain
  · intro descends
    obtain ⟨level, member, same⟩ := EntityModel.exists_of_descendsFrom descends
    have known := registered.ancestors a first level member
    exact registered.paths level known b second same ▸ member

theorem Registered.root_of_descendsFrom (registered : Registered schema models)
    (first : a ∈ models) (second : b ∈ models) (descends : a.descendsFrom b = true) :
    b.root = a.root :=
  EntityModel.root_of_mem_chain ((registered.mem_chain_iff first second).2 descends)

theorem Registered.root_of_sharesKeys (registered : Registered schema models)
    (first : a ∈ models) (second : b ∈ models) (shares : Removal.sharesKeys a b = true) :
    b.root = a.root := by
  rcases Bool.or_eq_true_iff.1 shares with descends | descends
  · exact registered.root_of_descendsFrom first second descends
  · exact (registered.root_of_descendsFrom second first descends).symm

theorem Registered.mem_descendants_iff (registered : Registered schema models)
    (known : m ∈ models) :
    b ∈ Removal.descendants models m ↔ b ∈ models ∧ b ≠ m ∧ m ∈ b.chain := by
  unfold Removal.descendants
  rw [List.mem_filter, Bool.and_eq_true, Bool.not_eq_true']
  refine and_congr_right fun member => and_congr ?_ (registered.mem_chain_iff member known).symm
  rw [EntityModel.same, beq_eq_false_iff_ne]
  constructor
  · rintro different rfl
    exact different rfl
  · intro different same
    exact different (registered.paths b member m known same)

/-! ### Link tables -/

theorem links_owner {l : LinkTable} (link : Links schema models l) : l.owner ∈ models := by
  cases link
  assumption

theorem Registered.links_target (registered : Registered schema models) {l : LinkTable}
    (link : Links schema models l) : l.target ∈ models := by
  cases link with
  | declared level known c declares target table kind =>
      refine registered.targets level known c declares target ?_
      rw [Column.target?, kind]

theorem addLinkTable_adds (found : List LinkTable) (l : LinkTable) :
    Removal.addLinkTable found l =
      if found.any fun y => y.table == l.table then found else found ++ [l] :=
  rfl

theorem Registered.mem_linkTables (registered : Registered schema models) {l : LinkTable}
    (member : l ∈ Removal.linkTables schema models) : Links schema models l := by
  rcases mem_foldl_add addLinkTable_adds [] _ l member with absurd | member
  · cases absurd
  · obtain ⟨m, known, member⟩ := List.mem_flatMap.1 member
    obtain ⟨⟨walked, column⟩, _, found⟩ := List.mem_filterMap.1 member
    cases foundColumn : m.findColumn? column.name with
    | none =>
        simp [EntityModel.linkTable?, foundColumn] at found
    | some answer =>
        obtain ⟨level, c⟩ := answer
        cases kind : c.kind with
        | many target table =>
            simp only [EntityModel.linkTable?, foundColumn, kind, Option.some.injEq] at found
            subst found
            obtain ⟨level', member', answer⟩ := List.exists_of_findSome?_eq_some foundColumn
            obtain ⟨c', foundIn, same⟩ := Option.map_eq_some_iff.1 answer
            cases same
            exact .declared level (registered.ancestors m known level member') c
              (List.mem_of_find?_eq_some foundIn) target table kind
        | _ => simp [EntityModel.linkTable?, foundColumn, kind] at found

theorem Registered.linkTables_complete (registered : Registered schema models)
    (unambiguous : ∀ m ∈ models, m.Unambiguous) {l : LinkTable} (link : Links schema models l) :
    l ∈ Removal.linkTables schema models := by
  have walked : l ∈ models.flatMap (Storage.linkTables schema) := by
    cases link with
    | declared level known c declares target table kind =>
        have many : c.isMany = true := by
          rw [Column.isMany, Column.isPhysical, kind]
          rfl
        refine List.mem_flatMap.2 ⟨level, known, List.mem_filterMap.2 ⟨(level, c), ?_, ?_⟩⟩
        · refine List.mem_flatMap.2 ⟨level, EntityModel.mem_levels.2 level.self_mem_chain, ?_⟩
          exact List.mem_map.2 ⟨c, List.mem_filter.2 ⟨declares, many⟩, rfl⟩
        · have found : level.findColumn? c.name = some (level, c) := by
            obtain ⟨above, chain⟩ := level.chain_eq_cons
            unfold EntityModel.findColumn?
            rw [chain, List.findSome?_cons, (unambiguous level known).links c declares many]
            rfl
          simp only [EntityModel.linkTable?, found, kind]
  obtain ⟨l', member, same⟩ := foldl_add_covers addLinkTable_adds
    (fun x => beq_self_eq_true x.table) [] _ l walked
  have equal := registered.links l' l (registered.mem_linkTables member) link (eq_of_beq same)
  exact equal ▸ member

/-! ### Relations -/

/-- A relation to single rows that a level declares. -/
structure Declares (models : List EntityModel) (level : EntityModel) (c : Column) (target : ModelRef)
    (onDelete : OnDelete) : Prop where
  registered : level ∈ models
  declared : c ∈ level.columns
  relates : ∃ field, c.kind = .relation field target onDelete

theorem Declares.target?_eq {level : EntityModel} {c : Column} {target : ModelRef}
    {onDelete : OnDelete} (declares : Declares models level c target onDelete) :
    c.target? = some target := by
  obtain ⟨field, kind⟩ := declares.relates
  rw [Column.target?, kind]

/-- A level has one relation of a name. -/
theorem Declares.eq_of_name {level : EntityModel} (unambiguous : level.Unambiguous)
    {c c' : Column} {target target' : ModelRef} {onDelete onDelete' : OnDelete}
    (first : Declares models level c target onDelete)
    (second : Declares models level c' target' onDelete') (same : c.name = c'.name) :
    c = c' ∧ onDelete = onDelete' := by
  have leads : c.target?.isSome = true := by
    rw [first.target?_eq]
    rfl
  have leads' : c'.target?.isSome = true := by
    rw [second.target?_eq]
    rfl
  have equal := unambiguous.members c first.declared c' second.declared leads leads' same
  obtain ⟨field, kind⟩ := first.relates
  obtain ⟨field', kind'⟩ := second.relates
  rw [← equal, kind] at kind'
  injection kind' with _ _ policies
  exact ⟨equal, policies⟩

theorem Registered.declares_target (registered : Registered schema models) {level : EntityModel}
    {c : Column} {target : ModelRef} {onDelete : OnDelete}
    (declares : Declares models level c target onDelete) : schema.model target ∈ models :=
  registered.targets level declares.registered c declares.declared target declares.target?_eq

theorem addMember_adds (found : List (EntityModel × Column)) (x : EntityModel × Column) :
    EntityModel.addMember found x =
      if found.any fun y => y.2.name == x.2.name then found else found ++ [x] :=
  rfl

private theorem mem_relatedMembers {level related : EntityModel} {c : Column} {target : ModelRef}
    (unambiguous : level.Unambiguous) (declares : c ∈ level.columns)
    (leads : c.target? = some target)
    (descends : related.descendsFrom (schema.model target) = true) :
    (level, c) ∈ level.relatedMembers schema related := by
  have relates : EntityModel.relatesTo schema related c = true := by
    rw [EntityModel.relatesTo, leads]
    exact descends
  obtain ⟨above, chain⟩ := level.chain_eq_cons
  unfold EntityModel.relatedMembers
  rw [chain, List.flatMap_cons, List.foldl_append]
  refine foldl_add_keeps addMember_adds _ _ (level, c) ?_
  have given : (level, c) ∈ (level.columns.filter (EntityModel.relatesTo schema related)).map
      fun c => (level, c) :=
    List.mem_map.2 ⟨c, List.mem_filter.2 ⟨declares, relates⟩, rfl⟩
  obtain ⟨y, member, same⟩ := foldl_add_covers addMember_adds
    (fun x => beq_self_eq_true x.2.name) [] _ (level, c) given
  rcases mem_foldl_add addMember_adds [] _ y member with absurd | known
  · cases absurd
  · obtain ⟨c', found, equal⟩ := List.mem_map.1 known
    subst equal
    obtain ⟨declared, relates'⟩ := List.mem_filter.1 found
    have leads' : c'.target?.isSome = true := by
      unfold EntityModel.relatesTo at relates'
      cases aim : c'.target? with
      | none =>
          rw [aim] at relates'
          cases relates'
      | some _ => rfl
    have equal : c' = c := unambiguous.members c' declared c declares leads'
      (by rw [leads]; rfl) (eq_of_beq same)
    exact equal ▸ member

theorem of_mem_relatedMembers {owner level related : EntityModel} {c : Column}
    (member : (level, c) ∈ owner.relatedMembers schema related) :
    level ∈ owner.chain ∧ c ∈ level.columns ∧ EntityModel.relatesTo schema related c = true := by
  rcases mem_foldl_add addMember_adds [] _ _ member with absurd | member
  · cases absurd
  · obtain ⟨walked, inChain, member⟩ := List.mem_flatMap.1 member
    obtain ⟨c', found, equal⟩ := List.mem_map.1 member
    cases equal
    obtain ⟨declared, relates⟩ := List.mem_filter.1 found
    exact ⟨inChain, declared, relates⟩

theorem addReference_adds (found : List Removal.Reference) (r : Removal.Reference) :
    Removal.addReference found r =
      if found.any fun f => f.level.table == r.level.table && f.column == r.column then found
      else found ++ [r] :=
  rfl

/-- A relation that is found leads to rows that may be rows of the model. -/
theorem Registered.of_mem_references (registered : Registered schema models) (known : m ∈ models)
    {r : Removal.Reference} (member : r ∈ Removal.references schema models m) :
    ∃ c target, Declares models r.level c target r.onDelete ∧ c.name = r.column
      ∧ (schema.model target).root = m.root := by
  rcases mem_foldl_add addReference_adds [] _ r member with absurd | member
  · cases absurd
  · obtain ⟨owner, ownerKnown, member⟩ := List.mem_flatMap.1 member
    obtain ⟨related, aimed, member⟩ := List.mem_flatMap.1 member
    obtain ⟨⟨level, c⟩, found, refers⟩ := List.mem_filterMap.1 member
    obtain ⟨inChain, declared, relates⟩ := of_mem_relatedMembers found
    have relatedKnown : related ∈ models ∧ m ∈ related.chain := by
      rcases List.mem_cons.1 aimed with rfl | below
      · exact ⟨known, related.self_mem_chain⟩
      · obtain ⟨here, -, above⟩ := (registered.mem_descendants_iff known).1 below
        exact ⟨here, above⟩
    cases kind : c.kind with
    | relation field target onDelete =>
        simp only [Removal.reference?, kind, Option.some.injEq] at refers
        subst refers
        have declares : Declares models level c target onDelete :=
          ⟨registered.ancestors owner ownerKnown level inChain, declared, field, kind⟩
        refine ⟨c, target, declares, rfl, ?_⟩
        rw [EntityModel.relatesTo, declares.target?_eq] at relates
        rw [registered.root_of_descendsFrom relatedKnown.1 (registered.declares_target declares)
          relates, EntityModel.root_of_mem_chain relatedKnown.2]
    | _ => simp [Removal.reference?, kind] at refers

private theorem Registered.exists_descendant (registered : Registered schema models)
    (known : m ∈ models)
    (other : b ∈ models) (line : b ∈ m.chain ∨ m ∈ b.chain) :
    ∃ related ∈ m :: Removal.descendants models m, related.descendsFrom b = true := by
  rcases line with above | below
  · exact ⟨m, List.mem_cons_self, (registered.mem_chain_iff known other).1 above⟩
  · refine ⟨b, ?_, EntityModel.descendsFrom_of_mem_chain b.self_mem_chain⟩
    by_cases same : b = m
    · rw [same]
      exact List.mem_cons_self
    · exact List.mem_cons_of_mem m
        ((registered.mem_descendants_iff known).2 ⟨other, same, below⟩)

/-- Every relation to a model of the same line is found. -/
theorem Registered.references_complete (registered : Registered schema models)
    (unambiguous : ∀ m ∈ models, m.Unambiguous) (known : m ∈ models) {level : EntityModel}
    {c : Column} {target : ModelRef} {onDelete : OnDelete}
    (declares : Declares models level c target onDelete)
    (line : schema.model target ∈ m.chain ∨ m ∈ (schema.model target).chain) :
    ⟨level, c.name, onDelete⟩ ∈ Removal.references schema models m := by
  obtain ⟨related, among, descends⟩ :=
    registered.exists_descendant known (registered.declares_target declares) line
  obtain ⟨field, kind⟩ := declares.relates
  have found := mem_relatedMembers (unambiguous level declares.registered) declares.declared
    declares.target?_eq descends
  have given : (⟨level, c.name, onDelete⟩ : Removal.Reference) ∈ models.flatMap fun owner =>
      (m :: Removal.descendants models m).flatMap fun target =>
        (owner.relatedMembers schema target).filterMap Removal.reference? := by
    refine List.mem_flatMap.2 ⟨level, declares.registered, List.mem_flatMap.2 ⟨related, among, ?_⟩⟩
    refine List.mem_filterMap.2 ⟨(level, c), found, ?_⟩
    simp only [Removal.reference?, kind]
  obtain ⟨r, member, same⟩ := foldl_add_covers addReference_adds
    (fun x => by simp) [] _ _ given
  obtain ⟨sameTable, sameColumn⟩ := Bool.and_eq_true_iff.1 same
  obtain ⟨c', target', declares', name, -⟩ := registered.of_mem_references known member
  have levels : r.level = level :=
    registered.tables _ declares'.registered _ declares.registered (eq_of_beq sameTable)
  have columns : r.column = c.name := eq_of_beq sameColumn
  rw [levels] at declares'
  obtain ⟨-, policies⟩ := declares'.eq_of_name (unambiguous level declares.registered) declares
    (name.trans columns)
  have whole : r = ⟨level, c.name, onDelete⟩ := by
    cases r
    cases levels
    cases columns
    cases policies
    rfl
  exact whole ▸ member

end

end EntityStore
