import EntityStore.Builder.Links
import EntityStore.Proofs.Storing.Attempts
import EntityStore.Proofs.Storing.Contents

/-!
How links are written. The targets of a relation go to its table in ascending order and each once,
in as many statements as their number asks for, and in place of the old ones if these are to go.
-/

namespace EntityStore

/-! ### Parts of a list -/

section

variable {α : Type} {size : Nat}

theorem flatten_chunksOf (size : Nat) (items : List α) : (chunksOf size items).flatten = items := by
  fun_induction chunksOf size items with
  | case1 => rfl
  | case2 a rest ih => rw [List.flatten_cons, ih, List.cons_append, List.take_append_drop]

theorem of_mem_chunksOf {items chunk : List α} (member : chunk ∈ chunksOf size items) :
    chunk ≠ [] ∧ chunk.length ≤ max 1 size := by
  fun_induction chunksOf size items with
  | case1 => cases member
  | case2 a rest ih =>
      rcases List.mem_cons.1 member with rfl | later
      · refine ⟨List.cons_ne_nil _ _, ?_⟩
        rw [List.length_cons, List.length_take]
        omega
      · exact ih later

/-- Where items have keys of their own, only one has a key. -/
theorem filter_key_of_mem {κ : Type} [DecidableEq κ] {key : α → κ} {items : List α} {item : α}
    (distinct : (items.map key).Nodup) (member : item ∈ items) :
    items.filter (key · = key item) = [item] := by
  induction items with
  | nil => cases member
  | cons first rest ih =>
      obtain ⟨apart, distinct⟩ := List.nodup_cons.1 distinct
      rcases List.mem_cons.1 member with rfl | later
      · have none : rest.filter (key · = key item) = [] :=
          List.filter_eq_nil_iff.2 fun other inside same =>
            apart (List.mem_map.2 ⟨other, inside, of_decide_eq_true same⟩)
        rw [List.filter_cons_of_pos (by simp), none]
      · have other : key first ≠ key item := fun same =>
          apart (List.mem_map.2 ⟨item, later, same.symm⟩)
        rw [List.filter_cons_of_neg (by simpa using other), ih distinct later]

end

namespace Links

/-! ### Targets in order -/

def targets (ids : List Int64) : List Int64 :=
  withoutRepeats (ascending ids)

theorem ascending_perm (ids : List Int64) : (ascending ids).Perm ids :=
  List.mergeSort_perm ids _

theorem ascending_ordered (ids : List Int64) : (ascending ids).Pairwise (· ≤ ·) := by
  let below (a b : Int64) : Bool := decide (a ≤ b)
  have trans (a b c : Int64) (first : below a b = true) (second : below b c = true) :
      below a c = true :=
    decide_eq_true (Int64.le_trans (of_decide_eq_true first) (of_decide_eq_true second))
  have total (a b : Int64) : (below a b || below b a) = true := by
    rw [Bool.or_eq_true, decide_eq_true_iff, decide_eq_true_iff]
    exact Int64.le_total a b
  exact (List.pairwise_mergeSort trans total ids).imp of_decide_eq_true

theorem ascending_strict {ids : List Int64} (distinct : ids.Nodup) :
    (ascending ids).Pairwise (· < ·) := by
  have apart : (ascending ids).Nodup := (ascending_perm ids).nodup_iff.2 distinct
  exact List.Pairwise.imp₂ (fun _ _ below different => Int64.lt_of_le_of_ne below different)
    (ascending_ordered ids) apart

theorem mem_withoutRepeats {ids : List Int64} {t : Int64} : t ∈ withoutRepeats ids ↔ t ∈ ids := by
  fun_induction withoutRepeats ids with
  | case1 a rest ih =>
      rw [ih, List.mem_cons, List.mem_cons, List.mem_cons]
      tauto
  | case2 a b rest different ih =>
      exact List.mem_cons.trans ((or_congr_right ih).trans List.mem_cons.symm)
  | case3 ids => rfl

private theorem withoutRepeats_strict {ids : List Int64} (ordered : ids.Pairwise (· ≤ ·)) :
    (withoutRepeats ids).Pairwise (· < ·) := by
  fun_induction withoutRepeats ids with
  | case1 a rest ih => exact ih ordered.tail
  | case2 a b rest different ih =>
      obtain ⟨first, others⟩ := List.pairwise_cons.1 ordered
      refine List.pairwise_cons.2 ⟨fun t member => ?_, ih others⟩
      have inside := mem_withoutRepeats.1 member
      refine Int64.lt_of_le_of_ne (first t inside) ?_
      -- The second is between the first and `t`, so it would equal the first as well.
      rintro rfl
      rcases List.mem_cons.1 inside with same | later
      · exact different same
      · exact different (Int64.le_antisymm (first b List.mem_cons_self)
          ((List.pairwise_cons.1 others).1 a later))
  | case3 ids short =>
      rcases ids with - | ⟨a, - | ⟨b, rest⟩⟩
      · exact .nil
      · exact List.pairwise_singleton _ _
      · exact (short a b rest rfl).elim

theorem targets_strict (ids : List Int64) : (targets ids).Pairwise (· < ·) :=
  withoutRepeats_strict (ascending_ordered ids)

@[simp]
theorem mem_targets {ids : List Int64} {t : Int64} : t ∈ targets ids ↔ t ∈ ids :=
  mem_withoutRepeats.trans (ascending_perm ids).mem_iff

/-! ### Changes of link tables -/

variable {σ ε W : Type}

def pair (owner target : Int64) : List Value :=
  [.int owner, .int target]

def insertion (link : LinkTable) (owner : Int64) (ts : List Int64) : Change :=
  .insert none link.table [link.ownerColumn, link.targetColumn] (ts.map (pair owner))

def changes (type : EntityType ε) (item : ε) (id : Int64) (replace : Bool) (link : LinkTable) :
    List Change :=
  (if replace then [.delete link.table link.ownerColumn [id]] else [])
    ++ (chunksOf (bulkParams / 2) (targets (type.links item link.field))).map (insertion link id)

/-- The names in a link table bring no marks. -/
structure Unmarked (link : LinkTable) : Prop where
  table : Sql.MarkFree link.table
  owner : Sql.MarkFree link.ownerColumn
  target : Sql.MarkFree link.targetColumn

instance (link : LinkTable) : Decidable (Unmarked link) :=
  decidable_of_iff (Sql.MarkFree link.table ∧ Sql.MarkFree link.ownerColumn ∧
      Sql.MarkFree link.targetColumn)
    ⟨fun ⟨table, owner, target⟩ => ⟨table, owner, target⟩,
      fun unmarked => ⟨unmarked.table, unmarked.owner, unmarked.target⟩⟩

private theorem insertion_named {link : LinkTable} (unmarked : Unmarked link) (owner : Int64)
    (ts : List Int64) : (insertion link owner ts).Named :=
  ⟨unmarked.table, List.forall_mem_cons.2
    ⟨unmarked.owner, List.forall_mem_singleton.2 unmarked.target⟩⟩

private theorem length_insertion (link : LinkTable) (owner : Int64) (ts : List Int64) :
    (insertion link owner ts).values.length = 2 * ts.length := by
  show (ts.map (pair owner)).flatten.length = _
  induction ts with
  | nil => rfl
  | cons t rest ih =>
      rw [List.map_cons, List.flatten_cons, List.length_append, ih, List.length_cons]
      show 2 + 2 * rest.length = _
      omega

/-- No statement about links has more parameters than are allowed. -/
theorem length_of_mem_changes {type : EntityType ε} {item : ε} {id : Int64} {replace : Bool}
    {link : LinkTable} {c : Change} (member : c ∈ changes type item id replace link) :
    c.values.length ≤ bulkParams := by
  rcases List.mem_append.1 member with cleared | inserted
  · cases replace with
    | true =>
        rw [if_pos rfl, List.mem_singleton] at cleared
        subst cleared
        show 1 ≤ 999
        decide
    | false => cases cleared
  · obtain ⟨ts, chunk, rfl⟩ := List.mem_map.1 inserted
    have short : ts.length ≤ max 1 (bulkParams / 2) := (of_mem_chunksOf chunk).2
    have bound : max 1 (bulkParams / 2) = 499 := rfl
    rw [length_insertion]
    show 2 * ts.length ≤ 999
    omega

theorem full_of_mem_changes {type : EntityType ε} {item : ε} {id : Int64} {replace : Bool}
    {link : LinkTable} {c : Change} (member : c ∈ changes type item id replace link) : c.Full := by
  rcases List.mem_append.1 member with cleared | inserted
  · cases replace with
    | true =>
        rw [if_pos rfl, List.mem_singleton] at cleared
        subst cleared
        trivial
    | false => cases cleared
  · obtain ⟨ts, chunk, rfl⟩ := List.mem_map.1 inserted
    refine ⟨rfl, List.cons_ne_nil _ _, fun none => (of_mem_chunksOf chunk).1
      (List.map_eq_nil_iff.1 none), fun row inside => ?_⟩
    obtain ⟨t, -, rfl⟩ := List.mem_map.1 inside
    rfl

theorem rows_of_changes (type : EntityType ε) (item : ε) (id : Int64) (replace : Bool)
    (link : LinkTable) :
    (changes type item id replace link).flatMap Change.inserted =
      (targets (type.links item link.field)).map (pair id) := by
  have cleared : (if replace then [Change.delete link.table link.ownerColumn [id]] else []).flatMap
      Change.inserted = [] := by
    cases replace <;> rfl
  have rows (chunks : List (List Int64)) :
      (chunks.map (insertion link id)).flatMap Change.inserted = chunks.flatten.map (pair id) := by
    rw [List.flatMap_map, List.map_flatten, ← List.flatMap_def]
    rfl
  rw [changes, List.flatMap_append, cleared, List.nil_append, rows, flatten_chunksOf]

def rowOf (link : LinkTable) (owner target : Int64) : Cells :=
  Cells.of [(link.ownerColumn, .int owner), (link.targetColumn, .int target)]

/-- The rows that new links have in a table. -/
theorem cellsIn_changes (type : EntityType ε) (item : ε) (id : Int64) (replace : Bool)
    (link : LinkTable) (table : String) :
    Change.cellsIn (changes type item id replace link) table =
      if link.table = table then (targets (type.links item link.field)).map (rowOf link id)
      else [] := by
  have cleared : Change.cellsIn
      (if replace then [.delete link.table link.ownerColumn [id]] else []) table = [] := by
    cases replace with
    | false => rfl
    | true =>
        rw [if_pos rfl, Change.cellsIn_single]
        exact ite_self _
  have rows (chunks : List (List Int64)) : Change.cellsIn (chunks.map (insertion link id)) table =
      if link.table = table then chunks.flatten.map (rowOf link id) else [] := by
    rw [List.map_eq_flatMap, Change.cellsIn_flatMap]
    induction chunks with
    | nil => exact (ite_self _).symm
    | cons ts rest ih =>
        rw [List.flatMap_cons, ih, Change.cellsIn_single, List.flatten_cons, List.map_append]
        show (if link.table = table then (ts.map (pair id)).map _ else []) ++ _ = _
        split
        · rw [List.map_map]
          rfl
        · rfl
  rw [changes, Change.cellsIn_append, cleared, List.nil_append, rows, flatten_chunksOf]

section

variable {env : Setting σ} {i : StorageId} {view : σ → W} {act : W → Change → W}
  {known : Change → Prop}

/-- Writing links makes the changes of each of their tables. -/
theorem makes_write (performs : Performs (env.provider i) view act known) (type : EntityType ε)
    (item : ε) (id : Int64) (replace : Bool) (only? : Option (List String))
    (unmarked : ∀ link ∈ tablesOf env.schema type.model only?, Unmarked link)
    (knows : ∀ link ∈ tablesOf env.schema type.model only?,
      ∀ c ∈ changes type item id replace link, known c) :
    Makes env i view act (write env i type item id replace only?)
      ((tablesOf env.schema type.model only?).flatMap (changes type item id replace)) := by
  refine makes_forM _ fun link member => ?_
  obtain ⟨cleared, inserted⟩ := List.forall_mem_append.1 (knows link member)
  have inserts : Makes env i view act
      ((chunksOf (bulkParams / 2) (targets (type.links item link.field))).forM
        (insertLinks env i link id) : Attempt σ ε Unit)
      ((chunksOf (bulkParams / 2) (targets (type.links item link.field))).map
        (insertion link id)) := by
    rw [List.map_eq_flatMap]
    refine makes_forM _ fun ts chunk => ?_
    have sends : Makes env i view act (Storage.executeTemplate env i
        ((insertion link id ts).template (Storage.dialect env i)) : Attempt σ ε Nat)
        [insertion link id ts] :=
      makes_template performs (inserted _ (List.mem_map_of_mem chunk))
        (insertion_named (unmarked link member) id ts) fun _ => rfl
    exact sends.returning
  cases replace with
  | false => exact inserts
  | true =>
      have clears : Makes env i view act (clear env i link id : Attempt σ ε Unit)
          [.delete link.table link.ownerColumn [id]] :=
        Makes.returning (makes_template performs (cleared _ List.mem_cons_self)
          ⟨(unmarked link member).table, (unmarked link member).owner⟩ fun _ => rfl)
      exact clears.followed fun _ => inserts

end

end Links

end EntityStore
