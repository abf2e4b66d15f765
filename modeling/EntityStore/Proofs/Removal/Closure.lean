import EntityStore.Proofs.Removal.Phases
import Mathlib.Data.List.Forall2
import Mathlib.Data.List.Nodup
import Mathlib.Data.List.ProdSigma
import Mathlib.Data.List.Perm.Subperm

/-!
Removal is the closure of the cascades. Whatever a removal has handled when it starts, it handles
all that it is asked for and all that cascades from it, settles each key that it adds, and makes no
command that a key it adds does not justify. It comes to an end because every cascade that is
followed adds a key, and there are only so many.
-/

namespace EntityStore

namespace Removal

open Tables

variable {σ ε : Type} {schema : Schema} {models : List EntityModel} {D : Tables}

/-! ### Keys that have not been handled -/

structure Notes (table : String) (ids : List Int64) (visited : List RowKey) (new : List Int64)
    (keys : List RowKey) : Prop where
  fresh_eq : fresh table ids visited = (new, keys ++ visited)
  mem_keys : ∀ key, key ∈ keys ↔ ∃ id ∈ new, (table, id) = key
  length_eq : keys.length = new.length
  unhandled : ∀ id ∈ new, id ∈ ids ∧ (table, id) ∉ visited
  covers : ∀ id ∈ ids, (table, id) ∈ keys ++ visited
  distinct : visited.Nodup → (keys ++ visited).Nodup

private theorem Notes.skip {table : String} {id : Int64} {rest new : List Int64}
    {visited keys : List RowKey} (known : (table, id) ∈ visited)
    (notes : Notes table rest visited new keys) : Notes table (id :: rest) visited new keys where
  fresh_eq := by
    rw [fresh, if_pos (List.contains_iff_mem.2 known)]
    exact notes.fresh_eq
  mem_keys := notes.mem_keys
  length_eq := notes.length_eq
  unhandled other member := by
    obtain ⟨among, absent⟩ := notes.unhandled other member
    exact ⟨List.mem_cons_of_mem id among, absent⟩
  covers other member := by
    rcases List.mem_cons.1 member with rfl | later
    · exact List.mem_append_right keys known
    · exact notes.covers other later
  distinct := notes.distinct

private theorem Notes.note {table : String} {id : Int64} {rest new : List Int64}
    {visited keys : List RowKey} (unknown : (table, id) ∉ visited)
    (notes : Notes table rest ((table, id) :: visited) new keys) :
    Notes table (id :: rest) visited (id :: new) (keys ++ [(table, id)]) where
  fresh_eq := by
    rw [fresh, if_neg (mt List.contains_iff_mem.1 unknown), notes.fresh_eq, List.append_assoc]
    rfl
  mem_keys key := by
    rw [List.mem_append, List.mem_singleton, notes.mem_keys, List.exists_mem_cons_iff, or_comm]
    exact or_congr_left eq_comm
  length_eq := by
    rw [List.length_append, notes.length_eq]
    rfl
  unhandled other member := by
    rcases List.mem_cons.1 member with rfl | later
    · exact ⟨List.mem_cons_self, unknown⟩
    · obtain ⟨among, absent⟩ := notes.unhandled other later
      exact ⟨List.mem_cons_of_mem id among, fun handled => absent (List.mem_cons_of_mem _ handled)⟩
  covers other member := by
    rw [List.append_assoc]
    rcases List.mem_cons.1 member with rfl | later
    · exact List.mem_append_right keys List.mem_cons_self
    · exact notes.covers other later
  distinct before := by
    rw [List.append_assoc]
    exact notes.distinct (List.nodup_cons.2 ⟨unknown, before⟩)

theorem exists_notes (table : String) (ids : List Int64) (visited : List RowKey) :
    ∃ new keys, Notes table ids visited new keys := by
  induction ids generalizing visited with
  | nil =>
      refine ⟨[], [], rfl, ?_, rfl, ?_, ?_, fun distinct => distinct⟩
      · simp
      · intro id member
        cases member
      · intro id member
        cases member
  | cons id rest ih =>
      by_cases known : (table, id) ∈ visited
      · obtain ⟨new, keys, notes⟩ := ih visited
        exact ⟨new, keys, notes.skip known⟩
      · obtain ⟨new, keys, notes⟩ := ih ((table, id) :: visited)
        exact ⟨id :: new, keys ++ [(table, id)], notes.note known⟩

theorem Notes.deeper {table : String} {ids new : List Int64} {visited keys : List RowKey}
    (notes : Notes table ids visited new keys) (some : new.isEmpty = false)
    {bound depth : Nat}
    (deep : bound < depth + 1 + visited.length) : bound < depth + (keys ++ visited).length := by
  have positive : 0 < new.length := by
    cases new with
    | nil => cases some
    | cons id rest => exact Nat.zero_lt_succ _
  rw [List.length_append, notes.length_eq]
  omega

private theorem keys_bounded {tables : List String} {keys : List RowKey} (distinct : keys.Nodup)
    (among : ∀ key ∈ keys, key.1 ∈ tables) : keys.length ≤ tables.length * UInt64.size := by
  let number (key : RowKey) : String × Nat := (key.1, key.2.toUInt64.toNat)
  have injective : Function.Injective number := by
    intro a b same
    obtain ⟨table, id⟩ := a
    obtain ⟨table', id'⟩ := b
    obtain ⟨rfl, numbers⟩ := Prod.mk.inj same
    have ids : id.toUInt64 = id'.toUInt64 := UInt64.toNat_inj.1 numbers
    exact congrArg (Prod.mk table) (congrArg UInt64.toInt64 ids)
  have numbered : (keys.map number).Nodup := List.Nodup.map injective distinct
  have inside : keys.map number ⊆ tables ×ˢ List.range UInt64.size := by
    intro pair member
    obtain ⟨key, known, rfl⟩ := List.mem_map.1 member
    refine List.mem_product.2 ⟨among key known, List.mem_range.2 ?_⟩
    exact UInt64.toNat_lt_size _
  have bounded := (List.subperm_of_subset numbered inside).length_le
  rw [List.length_map, List.length_product, List.length_range] at bounded
  exact bounded

/-! ### What a removal adds -/

/-- What points to the key through a cascading relation has been handled. -/
def Closed (schema : Schema) (models : List EntityModel) (D : Tables) (handled : List RowKey)
    (key : RowKey) : Prop :=
  ∀ level c target, Declares models level c target .cascade →
    (schema.model target).root.table = key.1 → ∀ r ∈ D level.table, r c.name = .int key.2 →
    ∀ id, r level.primaryKey = .int id → (level.root.table, id) ∈ handled

/-- Where a removal of some ids of a model stands: the keys it has handled, and the commands that it
has made for them. -/
structure Handled (schema : Schema) (models : List EntityModel) (D : Tables) (m : EntityModel)
    (ids : List Int64) (visited : List RowKey) (made : List Command) : Prop where
  distinct : visited.Nodup
  doomed : ∀ key ∈ visited, Doomed schema models D m ids key
  justified : ∀ c ∈ made, Justified schema models (· ∈ visited) c

/-- What a part of the removal adds: it settles and closes every key that it adds. -/
structure Progress (schema : Schema) (models : List EntityModel) (D : Tables) (m : EntityModel)
    (ids : List Int64) (visited added : List RowKey) (more : List Command) : Prop where
  distinct : (added ++ visited).Nodup
  doomed : ∀ key ∈ added, Doomed schema models D m ids key
  justified : ∀ c ∈ more, Justified schema models (· ∈ added) c
  settled : ∀ key ∈ added, Settled schema models D more key
  closed : ∀ key ∈ added, Closed schema models D (added ++ visited) key

section

variable {m : EntityModel} {ids : List Int64} {visited added later : List RowKey}
  {made more rest : List Command}

private theorem Closed.mono {handled others : List RowKey} {key : RowKey}
    (closed : Closed schema models D handled key) (wider : ∀ key ∈ handled, key ∈ others) :
    Closed schema models D others key := by
  intro level c target declares root r stored points id own
  exact wider _ (closed level c target declares root r stored points id own)

theorem Progress.none (distinct : visited.Nodup) :
    Progress schema models D m ids visited [] [] where
  distinct := distinct
  doomed key member := by cases member
  justified c member := by cases member
  settled key member := by cases member
  closed key member := by cases member

theorem Progress.append (first : Progress schema models D m ids visited added more)
    (second : Progress schema models D m ids (added ++ visited) later rest) :
    Progress schema models D m ids visited (later ++ added) (more ++ rest) where
  distinct := by
    rw [List.append_assoc]
    exact second.distinct
  doomed key member := by
    rcases List.mem_append.1 member with member | member
    · exact second.doomed key member
    · exact first.doomed key member
  justified c member := by
    rcases List.mem_append.1 member with member | member
    · exact (first.justified c member).mono fun key known => List.mem_append_right _ known
    · exact (second.justified c member).mono fun key known => List.mem_append_left _ known
  settled key member := by
    rcases List.mem_append.1 member with member | member
    · exact (second.settled key member).mono fun c known => List.mem_append_right _ known
    · exact (first.settled key member).mono fun c known => List.mem_append_left _ known
  closed key member := by
    rw [List.append_assoc]
    rcases List.mem_append.1 member with member | member
    · exact second.closed key member
    · exact (first.closed key member).mono fun other known => List.mem_append_right _ known

theorem Handled.progress (handled : Handled schema models D m ids visited made)
    (progress : Progress schema models D m ids visited added more) :
    Handled schema models D m ids (added ++ visited) (made ++ more) where
  distinct := progress.distinct
  doomed key member := by
    rcases List.mem_append.1 member with member | member
    · exact progress.doomed key member
    · exact handled.doomed key member
  justified c member := by
    rcases List.mem_append.1 member with member | member
    · exact (handled.justified c member).mono fun key known => List.mem_append_right _ known
    · exact (progress.justified c member).mono fun key known => List.mem_append_left _ known

end

private theorem Doomed.root_table {m : EntityModel} (known : m ∈ models) {ids : List Int64}
    {key : RowKey}
    (doomed : Doomed schema models D m ids key) : key.1 ∈ models.map (·.root.table) := by
  cases doomed with
  | given id member => exact List.mem_map_of_mem known
  | cascades level c target declares r stored id pointed own points doomed =>
      exact List.mem_map_of_mem declares.registered

theorem Handled.bounded {m : EntityModel} (known : m ∈ models) {ids : List Int64}
    {visited : List RowKey} {made : List Command}
    (handled : Handled schema models D m ids visited made) :
    visited.length ≤ models.length * UInt64.size := by
  have among : ∀ key ∈ visited, key.1 ∈ models.map (·.root.table) :=
    fun key member => (handled.doomed key member).root_table known
  have bounded := keys_bounded handled.distinct among
  rwa [List.length_map] at bounded

end Removal

end EntityStore
