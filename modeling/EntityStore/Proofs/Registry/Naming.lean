import EntityStore.Proofs.Model.Forest
import EntityStore.Registry.Basic
import EntityStore.Registry.Dispatcher

/-!
Names in a registry. Registering never gives a name away twice, so a name belongs to the one type
whose path or alias it is, for as long as the registry lasts, and what the dispatcher has kept is
what the registry would answer again.
-/

namespace EntityStore

variable {ε : Type}

structure TypeFamily (ε : Type) where
  type : TypeKey → EntityType ε
  keyed (key : TypeKey) : (type key).key = key

/-! ### The forest -/

namespace Forest

variable {f : Forest} {model : EntityModel} {alias? : Option String}

def aliasAt? (f : Forest) (id : Nat) : Option String :=
  (f.node? id).bind (·.alias?)

private theorem aliasAt?_append_old (parent? : Option Nat) {id : Nat} (old : id < f.size) :
    (f.append model alias? parent?).aliasAt? id = f.aliasAt? id := by
  obtain ⟨node, known⟩ := exists_node old
  obtain ⟨added, still⟩ := node?_append_old known model alias? parent?
  rw [aliasAt?, aliasAt?, still, known]
  rfl

private theorem aliasAt?_append_new (parent? : Option Nat) :
    (f.append model alias? parent?).aliasAt? f.size = alias? := by
  rw [aliasAt?, node?_append_new]
  rfl

end Forest

/-! ### The registry -/

private theorem Assoc.put_new {κ α : Type} [BEq κ] [LawfulBEq κ] {key : κ} {l : List (κ × α)}
    (new : l.lookup key = none) (value : α) : Assoc.put key value l = l ++ [(key, value)] := by
  induction l with
  | nil => rfl
  | cons head rest ih =>
      obtain ⟨k, v⟩ := head
      by_cases same : key = k
      · rw [same, List.lookup_cons_self] at new
        cases new
      · rw [List.lookup_cons, beq_eq_false_iff_ne.2 same] at new
        rw [Assoc.put, if_neg (by simpa using Ne.symm same), ih new]
        rfl

private theorem Assoc.lookup_putAll {κ α : Type} [BEq κ] [LawfulBEq κ] [DecidableEq κ] (keys : List κ)
    (value : α) (l : List (κ × α)) (key : κ) :
    (keys.foldl (fun l key => Assoc.put key value l) l).lookup key =
      if key ∈ keys then some value else l.lookup key := by
  induction keys generalizing l with
  | nil => simp
  | cons first rest ih =>
      rw [List.foldl_cons, ih, Assoc.lookup_put]
      by_cases later : key ∈ rest
      · simp [later]
      · by_cases same : key = first <;> simp [later, same]

namespace Registry

def namesOf (r : Registry ε) (record : TypeRecord ε) : List String :=
  record.model.path :: (r.forest.aliasAt? record.node).toList

/-- The tables of a registry tell the same of every type and of every name. -/
structure Coherent (F : TypeFamily ε) (r : Registry ε) : Prop where
  type {key : TypeKey} {record : TypeRecord ε} (found : r.record? key = some record) :
    record.manager.type = F.type key
  node {key : TypeKey} {record : TypeRecord ε} (found : r.record? key = some record) :
    record.node < r.forest.size
  named (name : String) (key : TypeKey) : r.paths.lookup name = some key ↔
    ∃ record, r.record? key = some record ∧ name ∈ r.namesOf record
  placed (name : String) : (r.forest.find? name).isSome = (r.paths.lookup name).isSome

theorem Coherent.empty (F : TypeFamily ε) : Coherent F {} where
  type found := by cases found
  node found := by cases found
  named name key := ⟨fun found => by (cases found), fun ⟨_, found, _⟩ => by (cases found)⟩
  placed _ := rfl

/-- What registering changes if it succeeds. -/
theorem insert_ok {r after : Registry ε} {m : Manager ε} {alias? : Option String} {node : Nat}
    (inserted : r.insert m alias? = .ok (node, after)) :
    ∃ forest, r.forest.insert m.type.model alias? = .ok (node, forest) ∧ after.forest = forest ∧
      after.types = Assoc.put m.type.key ⟨node, m.storage, m⟩ r.types ∧
      after.paths = (m.type.model.path :: alias?.toList).foldl
        (fun ps path => Assoc.put path m.type.key ps) r.paths := by
  unfold insert at inserted
  dsimp only at inserted
  split at inserted
  · cases inserted
  · cases grown : r.forest.insert m.type.model alias? with
    | error e =>
        rw [grown] at inserted
        cases inserted
    | ok found =>
        rw [grown] at inserted
        cases inserted
        exact ⟨found.2, rfl, rfl, rfl, rfl⟩

structure Entered (r after : Registry ε) (key : TypeKey) (m : Manager ε) (alias? : Option String)
    (parent? : Option Nat) : Prop where
  forest : after.forest = r.forest.append m.type.model alias? parent?
  parent : m.type.model.parent?.map (fun parent => r.forest.find? parent.path) = parent?.map some
  unplaced {name : String} (new : name ∈ m.type.model.path :: alias?.toList) :
    r.forest.find? name = none
  unknown : r.record? key = none
  types : after.types = r.types ++ [(key, ⟨r.forest.size, m.storage, m⟩)]
  record (other : TypeKey) : after.record? other =
    if other = key then some ⟨r.forest.size, m.storage, m⟩ else r.record? other
  lookup (name : String) : after.paths.lookup name =
    if name ∈ m.type.model.path :: alias?.toList then some key else r.paths.lookup name

variable {F : TypeFamily ε} {r after : Registry ε} {m : Manager ε} {alias? : Option String}
  {key : TypeKey} {node : Nat} {parent? : Option Nat}

private theorem Coherent.unregistered (coherent : Coherent F r) (own : m.type = F.type key)
    (inserted : r.insert m alias? = .ok (node, after)) : r.record? key = none := by
  obtain ⟨forest, grown, -⟩ := insert_ok inserted
  obtain ⟨-, fresh, -⟩ := Forest.insert_eq_ok grown
  cases known : r.record? key with
  | none => rfl
  | some record =>
      have path : record.model.path = m.type.model.path := by
        rw [TypeRecord.model, coherent.type known, own]
      have listed := (coherent.named m.type.model.path key).2
        ⟨record, known, path ▸ List.mem_cons_self⟩
      have taken := coherent.placed m.type.model.path
      rw [fresh _ List.mem_cons_self, listed] at taken
      cases taken

theorem Coherent.entered (coherent : Coherent F r) (own : m.type = F.type key)
    (inserted : r.insert m alias? = .ok (node, after)) :
    ∃ parent?, Entered r after key m alias? parent? := by
  have unknown := coherent.unregistered own inserted
  obtain ⟨forest, grown, rfl, types, paths⟩ := insert_ok inserted
  obtain ⟨rfl, fresh, parent?, appended, sought⟩ := Forest.insert_eq_ok grown
  refine ⟨parent?, appended, sought, fun new => fresh _ new, unknown, ?_, fun other => ?_, fun name => ?_⟩
  · rw [types, own, F.keyed]
    exact Assoc.put_new unknown _
  · rw [record?, types, Assoc.lookup_put, own, F.keyed]
    simp only [beq_iff_eq]
    rfl
  · rw [paths, Assoc.lookup_putAll, own, F.keyed]

theorem Entered.record_old (entered : Entered r after key m alias? parent?) {other : TypeKey}
    {record : TypeRecord ε} (found : r.record? other = some record) :
    after.record? other = some record := by
  have different : other ≠ key := by
    rintro rfl
    rw [entered.unknown] at found
    cases found
  rw [entered.record, if_neg different, found]

private theorem Entered.size (entered : Entered r after key m alias? parent?) :
    after.forest.size = r.forest.size + 1 := by
  rw [entered.forest, Forest.size_append]

private theorem Entered.namesOf_new (entered : Entered r after key m alias? parent?) :
    after.namesOf ⟨r.forest.size, m.storage, m⟩ = m.type.model.path :: alias?.toList := by
  rw [namesOf, entered.forest, Forest.aliasAt?_append_new]
  rfl

private theorem Entered.namesOf_old (coherent : Coherent F r)
    (entered : Entered r after key m alias? parent?)
    {other : TypeKey} {known : TypeRecord ε} (found : r.record? other = some known) :
    after.namesOf known = r.namesOf known := by
  rw [namesOf, entered.forest, Forest.aliasAt?_append_old parent? (coherent.node found)]
  rfl

private theorem Entered.unlisted (coherent : Coherent F r)
    (entered : Entered r after key m alias? parent?)
    {name : String} (new : name ∈ m.type.model.path :: alias?.toList) : r.paths.lookup name = none := by
  have placed := coherent.placed name
  rw [entered.unplaced new] at placed
  exact Option.isNone_iff_eq_none.1 (by simpa using placed.symm)

theorem Entered.record_cases (entered : Entered r after key m alias? parent?) {other : TypeKey}
    {known : TypeRecord ε} (found : after.record? other = some known) :
    other = key ∧ known = ⟨r.forest.size, m.storage, m⟩ ∨ r.record? other = some known := by
  rw [entered.record] at found
  split at found
  · next same => exact .inl ⟨same, (Option.some.inj found).symm⟩
  · exact .inr found

theorem Coherent.kept (coherent : Coherent F r) (own : m.type = F.type key)
    (inserted : r.insert m alias? = .ok (node, after)) {other : TypeKey} {record : TypeRecord ε}
    (found : r.record? other = some record) : after.record? other = some record := by
  obtain ⟨_, entered⟩ := coherent.entered own inserted
  exact entered.record_old found

/-- A name leads to a type just if it is one of its names, also after a type has been entered. -/
theorem Entered.named (coherent : Coherent F r) (entered : Entered r after key m alias? parent?)
    (name : String) (other : TypeKey) : after.paths.lookup name = some other ↔
      ∃ record, after.record? other = some record ∧ name ∈ after.namesOf record := by
  rw [entered.lookup]
  split
  · next new =>
      constructor
      · rintro ⟨⟩
        exact ⟨_, (entered.record _).trans (if_pos rfl), entered.namesOf_new ▸ new⟩
      · rintro ⟨known, found, named⟩
        rcases entered.record_cases found with ⟨rfl, -⟩ | earlier
        · rfl
        · rw [entered.namesOf_old coherent earlier] at named
          have listed := (coherent.named name other).2 ⟨known, earlier, named⟩
          rw [entered.unlisted coherent new] at listed
          cases listed
  · next old =>
      rw [coherent.named]
      constructor
      · rintro ⟨known, found, named⟩
        exact ⟨known, entered.record_old found, by rwa [entered.namesOf_old coherent found]⟩
      · rintro ⟨known, found, named⟩
        rcases entered.record_cases found with ⟨-, rfl⟩ | earlier
        · exact absurd (entered.namesOf_new ▸ named) old
        · exact ⟨known, earlier, by rwa [← entered.namesOf_old coherent earlier]⟩

/-- Registering a type keeps the tables of the registry coherent. -/
theorem Coherent.insert (coherent : Coherent F r) (own : m.type = F.type key)
    (inserted : r.insert m alias? = .ok (node, after)) : Coherent F after := by
  obtain ⟨parent?, entered⟩ := coherent.entered own inserted
  constructor
  case type =>
      intro other known found
      rcases entered.record_cases found with ⟨rfl, rfl⟩ | earlier
      · exact own
      · exact coherent.type earlier
  case node =>
      intro other known found
      rw [entered.size]
      rcases entered.record_cases found with ⟨-, rfl⟩ | earlier
      · exact Nat.lt_succ_self _
      · exact Nat.lt_succ_of_lt (coherent.node earlier)
  case named => exact entered.named coherent
  case placed =>
      intro name
      rw [entered.forest, Forest.find?_append, Option.isSome_or, entered.lookup, coherent.placed]
      split
      · next new => simp
      · next old => simp

variable (F) in
theorem manager_found {record : TypeRecord ε} (found : r.record? key = some record) :
    r.manager (F.type key) = .ok record.manager := by
  rw [Registry.manager, F.keyed, found]

theorem Coherent.typeOf (coherent : Coherent F r) {record : TypeRecord ε} {name : String}
    (found : r.record? key = some record) (named : name ∈ r.namesOf record) :
    r.typeOf name = .ok key := by
  rw [Registry.typeOf, (coherent.named name key).2 ⟨record, found, named⟩]

theorem Coherent.typeOf_unnamed (coherent : Coherent F r) {name : String}
    (unnamed : ∀ key record, r.record? key = some record → name ∉ r.namesOf record) :
    r.typeOf name = .error (.notRegistered name) := by
  cases listed : r.paths.lookup name with
  | none => rw [Registry.typeOf, listed]
  | some key =>
      obtain ⟨record, found, named⟩ := (coherent.named name key).1 listed
      exact absurd named (unnamed key record found)

end Registry

/-! ### The dispatcher -/

namespace Dispatcher

def Current (d : Dispatcher ε) (r : Registry ε) : Prop :=
  ∀ operation key resolved, d.cache.lookup operation = some (key, resolved) →
    ∃ record, r.record? key = some record ∧ resolved = ⟨record.type, record.manager⟩

variable {d : Dispatcher ε} {r : Registry ε}

theorem Current.clear (r : Registry ε) : Current d.clear r := by
  intro operation key resolved kept
  cases kept

/-- A type is resolved as the registry has it if that is what is kept for it, or nothing is. -/
theorem resolve_answer {operation : Operation} {key : TypeKey}
    (current : ∀ resolved, d.cache.lookup operation = some (key, resolved) →
      ∃ record, r.record? key = some record ∧ resolved = ⟨record.type, record.manager⟩) :
    (d.resolve r operation key).1 =
      (match r.record? key with
      | some record => .ok ⟨record.type, record.manager⟩
      | none => .error (.methodNotFound operation key.label)) := by
  unfold Dispatcher.resolve
  split
  · rename_i resolved kept
    unfold cached? at kept
    split at kept
    · rename_i other found lookup
      split at kept
      · rename_i same
        cases kept
        rw [same] at lookup
        obtain ⟨record, known, rfl⟩ := current _ lookup
        rw [known]
      · cases kept
    · cases kept
  · dsimp only
    cases r.record? key with
    | none => rfl
    | some record => rfl

/-- Resolving keeps what was kept, except that it may put what the registry has for the type. -/
theorem resolve_kept {operation other : Operation} {key otherKey : TypeKey} {resolved : Resolved ε}
    (kept : (d.resolve r operation key).2.cache.lookup other = some (otherKey, resolved)) :
    d.cache.lookup other = some (otherKey, resolved) ∨
      other = operation ∧ otherKey = key ∧
        ∃ record, r.record? key = some record ∧ resolved = ⟨record.type, record.manager⟩ := by
  unfold Dispatcher.resolve at kept
  split at kept
  · exact .inl kept
  · dsimp only at kept
    cases known : r.record? key with
    | none =>
        rw [known] at kept
        exact .inl kept
    | some record =>
        rw [known] at kept
        dsimp only at kept
        rw [Assoc.lookup_put] at kept
        split at kept
        · rename_i same
          cases kept
          exact .inr ⟨by simpa using same, rfl, record, rfl, rfl⟩
        · exact .inl kept

theorem Current.resolve (current : Current d r) (operation : Operation) (key : TypeKey) :
    (d.resolve r operation key).1 =
        (match r.record? key with
        | some record => .ok ⟨record.type, record.manager⟩
        | none => .error (.methodNotFound operation key.label)) ∧
      Current (d.resolve r operation key).2 r := by
  refine ⟨resolve_answer (current operation key), fun other otherKey resolved kept => ?_⟩
  rcases resolve_kept kept with earlier | ⟨-, rfl, found⟩
  · exact current _ _ _ earlier
  · exact found

end Dispatcher

end EntityStore
