import EntityStore.Proofs.Storing.Creation

/-!
Bulk creation against creation one by one. Both are followed on a database that puts rows at the end
of its tables and gives keys one after the other: what they come to is the same, entity by entity
and table by table.
-/

namespace EntityStore

variable {σ ε α β : Type}

/-- The provider puts rows at the end of tables. One table gives its rows keys one after the other,
as long as there are any left, and tells the last of them. -/
structure Appends (p : Provider σ) (view : σ → Holdings) (root key : String)
    (known : String → List String → Prop) : Prop where
  executes : ∀ (table : String) (columns : List String) (rows : List (List Value))
    (q : Sql.Statement) (w : σ), known table columns → Change.Complete columns rows →
    Sql.InsertsRows p.dialect table columns rows q →
    ∃ n after, p.execute q w = (.ok n, after)
      ∧ (view after).tables = (view w).tables.changed (.insert none table columns rows)
      ∧ (table ≠ root → (view after).lastKey = (view w).lastKey)
  inserts : ∀ (columns : List String) (rows : List (List Value)) (q : Sql.Statement) (w : σ),
    known root columns → Change.Complete columns rows →
    (view w).lastKey.toInt + rows.length ≤ Int64.maxValue.toInt →
    Sql.InsertsRows p.dialect root columns rows q →
    ∃ after, p.insert q w = (.ok ((view w).lastKey + Int64.ofNat rows.length), after)
      ∧ (view after).tables = (view w).tables.changed
          (.insert (some (key, (view w).lastKey + 1)) root columns rows)
      ∧ (view after).lastKey = (view w).lastKey + Int64.ofNat rows.length

/-! ### Attempts that put rows in -/

/-- The attempt does nothing but put rows into tables: what it returns, the last key afterwards, and
the rows that it has put into each table. -/
def Adds (env : Setting σ) (i : StorageId) (view : σ → Holdings) (x : Attempt σ ε α) (v : Holdings)
    (gives : α → Int64 → (String → List Cells) → Prop) : Prop :=
  Achieves env i view x v fun a w made =>
    (∀ table, w.tables table = v.tables table ++ Change.cellsIn made table)
      ∧ (∀ c ∈ made, c.Fits) ∧ gives a w.lastKey (Change.cellsIn made)

def placed (table : String) (rows : List Cells) : String → List Cells :=
  fun other => if table = other then rows else []

def behind (rows more : String → List Cells) : String → List Cells :=
  fun table => rows table ++ more table

theorem behind_placed (table : String) (rows more : List Cells) :
    behind (placed table rows) (placed table more) = placed table (rows ++ more) := by
  funext other
  unfold behind placed
  split <;> rfl

section

variable {env : Setting σ} {i : StorageId} {view : σ → Holdings} {v : Holdings} {x : Attempt σ ε α}
  {gives weaker : α → Int64 → (String → List Cells) → Prop}
  {holds : β → Int64 → (String → List Cells) → Prop}

theorem Adds.imp (adds : Adds env i view x v gives)
    (each : ∀ {a key rows}, gives a key rows → weaker a key rows) : Adds env i view x v weaker :=
  Achieves.imp adds fun ⟨grown, fits, given⟩ => ⟨grown, fits, each given⟩

theorem adds_pure {a : α} (given : gives a v.lastKey fun _ => []) :
    Adds env i view (pure a : Attempt σ ε α) v gives :=
  achieves_pure ⟨fun _ => (List.append_nil _).symm, by simp, given⟩

theorem Adds.bind {next : α → Attempt σ ε β} (first : Adds env i view x v gives)
    (second : ∀ a w rows, gives a w.lastKey rows →
      Adds env i view (next a) w fun b key more => holds b key (behind rows more)) :
    Adds env i view (x >>= next) v holds := by
  refine Achieves.bind first ?_
  rintro a w made ⟨grown, fits, given⟩
  refine Achieves.imp (second a w _ given) ?_
  rintro b w' more ⟨grown', fits', given'⟩
  have whole : Change.cellsIn (made ++ more) = behind (Change.cellsIn made) (Change.cellsIn more) :=
    funext (Change.cellsIn_append made more)
  refine ⟨fun table => ?_, List.forall_mem_append.2 ⟨fits, fits'⟩, by rwa [whole]⟩
  rw [grown', grown, Change.cellsIn_append, List.append_assoc]

theorem Adds.returning {next : α → β} (first : Adds env i view x v gives)
    (each : ∀ {a key rows}, gives a key rows → holds (next a) key rows) :
    Adds env i view (x >>= fun a => pure (next a)) v holds :=
  Achieves.returning first fun ⟨grown, fits, given⟩ => ⟨grown, fits, each given⟩

theorem Adds.checked {κ : Type} [Coe κ EngineError] {r : Except κ α} {a : α}
    {next : α → Attempt σ ε β} (good : r = .ok a) (second : Adds env i view (next a) v holds) :
    Adds env i view (Attempt.ofResult r >>= next) v holds := by
  unfold Adds at second ⊢
  exact Attains.checked good second

theorem adds_call {q : Sql.Statement} {event : Bool → Event} {answer : Answer σ α}
    (numbering? : Option (String × Int64)) {table : String} {columns : List String}
    {rows : List (List Value)} (fits : rows.flatten.length ≤ bulkParams ∨ rows.length = 1)
    (tells : Sql.InsertsRows (Storage.dialect env i) table columns rows q)
    (writes : (event true).writes i = true)
    (sent : event true = (Change.insert numbering? table columns rows).sent i q)
    (answers : ∀ w, view w = v → ∃ a after, answer w = (.ok a, after)
      ∧ (view after).tables = v.tables.changed (.insert numbering? table columns rows)
      ∧ gives a (view after).lastKey
          (placed table (Change.insert numbering? table columns rows).cells)) :
    Adds env i view
      (do Storage.traceStatement env i q; Storage.answered (Engine.call event answer) :
      Attempt σ ε α) v gives := by
  let c : Change := .insert numbering? table columns rows
  refine achieves_call [c] ?_ fun w here => ?_
  · rw [if_pos writes]
    exact .cons ⟨q, tells, sent⟩ .nil
  · obtain ⟨a, after, answered, changed, given⟩ := answers w here
    have rows : Change.cellsIn [c] = placed table c.cells := funext (Change.cellsIn_single c)
    refine ⟨a, after, answered, fun other => ?_, List.forall_mem_singleton.2 fits, by rwa [rows]⟩
    rw [changed, Change.cellsIn_single, Tables.changed]
    split
    · rfl
    · exact (List.append_nil _).symm

end

namespace Create

/-- The tables that entities and their links go to, with the columns that are given values. -/
def Writes (c : Create ε) (schema : Schema) (table : String) (columns : List String) : Prop :=
  (∃ level ∈ c.type.model.chain, table = level.table ∧ columns = insertColumns level c.withId)
    ∨ ∃ link ∈ Links.tablesOf schema c.type.model none,
        table = link.table ∧ columns = [link.ownerColumn, link.targetColumn]

variable {c : Create ε} {env : Setting σ} {view : σ → Holdings} {v : Holdings}

structure Given (c : Create ε) (level : EntityModel) : Prop where
  member : level ∈ c.type.model.chain
  keyed : generatesKey level c.withId = false

theorem given_below (creatable : Creatable c.type.model) {level : EntityModel}
    (member : level ∈ c.type.model.chain) (below : level ≠ c.type.model.root) : c.Given level := by
  refine ⟨member, List.any_eq_false.2 fun column own => ?_⟩
  cases primary : column.primary with
  | false => simp [isGenerated, primary]
  | true =>
      have named := creatable.marked level member column own primary
      simp [isGenerated, creatable.given level member below column own named]

theorem given_of_below (creatable : Creatable c.type.model) {below : List EntityModel}
    (levels : c.type.model.levels = c.type.model.root :: below)
    (apart : c.type.model.root ∉ below) :
    ∀ level ∈ below, c.Given level := by
  intro level member
  refine given_below creatable (EntityModel.mem_levels.1 ?_) fun same => apart (same ▸ member)
  rw [levels]
  exact List.mem_cons_of_mem _ member

theorem given_of_leaves (creatable : Creatable c.type.model) (leaves : c.leavesKey = false)
    {level : EntityModel} (member : level ∈ c.type.model.chain) : c.Given level := by
  by_cases root : level = c.type.model.root
  · exact ⟨member, root ▸ leaves⟩
  · exact given_below creatable member root

private theorem table_ne_root (creatable : Creatable c.type.model) {level : EntityModel}
    (member : level ∈ c.type.model.chain) (below : level ≠ c.type.model.root) :
    level.table ≠ c.type.model.root.table := fun same =>
  below (List.inj_on_of_nodup_map creatable.tables (EntityModel.mem_levels.2 member)
    (EntityModel.mem_levels.2 (EntityModel.root_mem_chain c.type.model)) same)

/-! ### The entities of one statement -/

section

theorem mapM_rowValues {level : EntityModel} {chunk : List (List (String × Value) × ε)}
    (supplied : ∀ pair ∈ chunk, Supplies level c.withId pair.1) :
    (chunk.mapM fun (values, item) =>
        rowValues level (insertColumns level c.withId) values (c.type.id item)) =
      .ok (chunk.map fun pair =>
        (insertColumns level c.withId).map (cellOf level pair.1 (c.type.id pair.2))) := by
  induction chunk with
  | nil => rfl
  | cons pair rest ih =>
      obtain ⟨values, item⟩ := pair
      obtain ⟨first, others⟩ := List.forall_mem_cons.1 supplied
      have row := rowValues_ok first (c.type.id item)
      rw [List.mapM_cons, ih others]
      dsimp only at row ⊢
      rw [row]
      rfl

/-- A statement that takes more than one entity has no more parameters than are allowed. -/
theorem chunk_fits {columns : List String} {chunk : List (List (String × Value) × ε)}
    (cell : List (String × Value) × ε → String → Value) (filled : chunk ≠ [])
    (short : chunk.length ≤ max 1 (rowsPerInsert columns.length)) :
    (chunk.map fun pair => columns.map (cell pair)).flatten.length ≤ bulkParams
      ∨ (chunk.map fun pair => columns.map (cell pair)).length = 1 := by
  have counted : (chunk.map fun pair => columns.map (cell pair)).flatten.length =
      chunk.length * columns.length := by
    clear filled short
    induction chunk with
    | nil => exact (Nat.zero_mul _).symm
    | cons pair rest ih =>
        rw [List.map_cons, List.flatten_cons, List.length_append, ih, List.length_map,
          List.length_cons, Nat.succ_mul, Nat.add_comm]
  rw [counted, List.length_map]
  by_cases single : chunk.length = 1
  · exact Or.inr single
  · refine Or.inl ?_
    have some : 0 < chunk.length := List.length_pos_of_ne_nil filled
    have fits : chunk.length ≤ bulkParams / max 1 columns.length := by
      unfold rowsPerInsert at short
      omega
    calc chunk.length * columns.length
        ≤ bulkParams / max 1 columns.length * max 1 columns.length :=
          Nat.mul_le_mul fits (Nat.le_max_right 1 columns.length)
      _ ≤ bulkParams := Nat.div_mul_le_self _ _

structure Chunk (c : Create ε) (level : EntityModel) (chunk : List (List (String × Value) × ε)) :
    Prop where
  filled : chunk ≠ []
  short : chunk.length ≤ max 1 (rowsPerInsert (insertColumns level c.withId).length)
  supplied : ∀ pair ∈ chunk, Supplies level c.withId pair.1

theorem Chunk.fits {level : EntityModel} {chunk : List (List (String × Value) × ε)}
    (part : c.Chunk level chunk) :
    (chunk.map fun pair => (insertColumns level c.withId).map
        (cellOf level pair.1 (c.type.id pair.2))).flatten.length ≤ bulkParams
      ∨ (chunk.map fun pair => (insertColumns level c.withId).map
        (cellOf level pair.1 (c.type.id pair.2))).length = 1 :=
  chunk_fits (fun pair => cellOf level pair.1 (c.type.id pair.2)) part.filled part.short

theorem Chunk.complete {level : EntityModel} {chunk : List (List (String × Value) × ε)}
    (part : c.Chunk level chunk) :
    Change.Complete (insertColumns level c.withId) (chunk.map fun pair =>
      (insertColumns level c.withId).map (cellOf level pair.1 (c.type.id pair.2))) := by
  refine ⟨fun none => part.filled (List.map_eq_nil_iff.1 none), fun row member => ?_⟩
  obtain ⟨pair, -, rfl⟩ := List.mem_map.1 member
  exact List.length_map _

theorem complete_single (columns : List String) (cell : String → Value) :
    Change.Complete columns [columns.map cell] :=
  ⟨List.cons_ne_nil _ _, List.forall_mem_singleton.2 (List.length_map _)⟩

theorem chunk_of_mem {level : EntityModel} {pairs chunk : List (List (String × Value) × ε)}
    (supplied : ∀ pair ∈ pairs, Supplies level c.withId pair.1)
    (member : chunk ∈ chunksOf (rowsPerInsert (insertColumns level c.withId).length) pairs) :
    c.Chunk level chunk := by
  obtain ⟨filled, short⟩ := of_mem_chunksOf member
  refine ⟨filled, short, fun pair inside => supplied pair ?_⟩
  rw [← flatten_chunksOf (rowsPerInsert (insertColumns level c.withId).length) pairs]
  exact List.mem_flatten.2 ⟨chunk, member, inside⟩

end

/-! ### One statement -/

section

variable (unmarked : ∀ level ∈ c.type.model.chain, level.Unmarked)
  (appends : Appends (env.provider c.storage) view c.type.model.root.table
    c.type.model.root.primaryKey (c.Writes env.schema))

include unmarked in
variable (env) in
theorem insert_told {level : EntityModel} (member : level ∈ c.type.model.chain)
    (rows : List (List Value)) :
    ∃ q, (Sql.insert (Storage.dialect env c.storage) level.table (insertColumns level c.withId)
        rows).bind [] = .ok q
      ∧ Sql.InsertsRows (Storage.dialect env c.storage) level.table (insertColumns level c.withId)
          rows q := by
  refine Sql.insert_binds _ (unmarked level member).table ?_ rows
  intro column inside
  obtain ⟨own, kept, rfl⟩ := List.mem_map.1 inside
  exact (unmarked level member).columns own (List.mem_filter.1 kept).1

include unmarked appends

theorem adds_given (creatable : Creatable c.type.model) {level : EntityModel}
    (given : c.Given level) {rows : List (List Value)}
    (complete : Change.Complete (insertColumns level c.withId) rows)
    (fits : rows.flatten.length ≤ bulkParams ∨ rows.length = 1) :
    Adds env c.storage view (insertRows env c.storage c.withId level rows : Attempt σ ε _) v
      fun last? key added => last? = none ∧ (level ≠ c.type.model.root → key = v.lastKey)
        ∧ added = placed level.table
            (rows.map fun row => Cells.of ((insertColumns level c.withId).zip row)) := by
  obtain ⟨q, bound, tells⟩ := insert_told env unmarked given.member rows
  have plain : ¬(level.isRoot && generatesKey level c.withId) = true := by
    rw [given.keyed, Bool.and_false]
    exact Bool.false_ne_true
  unfold insertRows
  refine Adds.checked bound ?_
  rw [if_neg plain]
  have sent : Adds env c.storage view (Storage.execute env c.storage q : Attempt σ ε Nat) v
      fun _ key added => (level ≠ c.type.model.root → key = v.lastKey)
        ∧ added = placed level.table (Change.insert none level.table
            (insertColumns level c.withId) rows).cells := by
    refine adds_call none fits tells (beq_self_eq_true _) rfl fun w here => ?_
    obtain ⟨n, after, answered, changed, same⟩ := appends.executes level.table _ rows q w
      (Or.inl ⟨level, given.member, rfl, rfl⟩) complete tells
    refine ⟨n, after, answered, by rw [changed, here], fun below => ?_, rfl⟩
    rw [same (table_ne_root creatable given.member below), here]
  exact sent.returning fun given => ⟨rfl, given⟩

theorem adds_generated (leaves : c.leavesKey = true) {rows : List (List Value)}
    (complete : Change.Complete (insertColumns c.type.model.root c.withId) rows)
    (fits : rows.flatten.length ≤ bulkParams ∨ rows.length = 1)
    (room : v.lastKey.toInt + rows.length ≤ Int64.maxValue.toInt) :
    Adds env c.storage view
      (insertRows env c.storage c.withId c.type.model.root rows : Attempt σ ε _) v
      fun last? key added => last? = some (v.lastKey + Int64.ofNat rows.length)
        ∧ key = v.lastKey + Int64.ofNat rows.length
        ∧ added = placed c.type.model.root.table (Change.numbered c.type.model.root.primaryKey
            (insertColumns c.type.model.root c.withId) (v.lastKey + 1) rows) := by
  have member := EntityModel.root_mem_chain c.type.model
  obtain ⟨q, bound, tells⟩ := insert_told env unmarked member rows
  have asks : (c.type.model.root.isRoot && generatesKey c.type.model.root c.withId) = true :=
    Bool.and_eq_true_iff.2 ⟨(EntityModel.isRoot_iff member).2 rfl, leaves⟩
  unfold insertRows
  refine Adds.checked bound ?_
  rw [if_pos asks]
  have sent : Adds env c.storage view (Storage.insert env c.storage q : Attempt σ ε Int64) v
      fun last key added => last = v.lastKey + Int64.ofNat rows.length
        ∧ key = v.lastKey + Int64.ofNat rows.length
        ∧ added = placed c.type.model.root.table (Change.insert
            (some (c.type.model.root.primaryKey, v.lastKey + 1)) c.type.model.root.table
            (insertColumns c.type.model.root c.withId) rows).cells := by
    refine adds_call (some (c.type.model.root.primaryKey, v.lastKey + 1)) fits tells
      (beq_self_eq_true _) rfl fun w here => ?_
    subst here
    obtain ⟨after, answered, changed, last⟩ := appends.inserts _ rows q w
      (Or.inl ⟨_, member, rfl, rfl⟩) complete room tells
    exact ⟨_, after, answered, changed, rfl, last, rfl⟩
  exact sent.returning fun ⟨last, given⟩ => ⟨congrArg some last, given⟩

/-! ### One by one -/

private theorem adds_insertLevel (creatable : Creatable c.type.model) {level : EntityModel}
    (given : c.Given level) {values : List (String × Value)}
    (supplied : Supplies level c.withId values) (id : Int64) :
    Adds env c.storage view (insertLevel env c.storage c.withId values id level : Attempt σ ε _) v
      fun id' key added => id' = id ∧ (level ≠ c.type.model.root → key = v.lastKey)
        ∧ added = placed level.table [level.rowOf values id] := by
  unfold insertLevel
  refine Adds.checked (rowValues_ok supplied id) ?_
  refine Adds.returning (adds_given unmarked appends creatable given (complete_single _ _)
    (Or.inr rfl)) ?_
  rintro last? key added ⟨rfl, same, rfl⟩
  refine ⟨rfl, same, ?_⟩
  rw [List.map_singleton, cells_given (creatable.declared level given.member) given.keyed]

private theorem adds_insertLevels (creatable : Creatable c.type.model) {values : List (String × Value)}
    (id : Int64) (levels : List EntityModel) (given : ∀ level ∈ levels, c.Given level)
    (supplied : ∀ level ∈ levels, Supplies level c.withId values) :
    Adds env c.storage view
      (levels.foldlM (insertLevel env c.storage c.withId values) id : Attempt σ ε _) v
      fun id' key added => id' = id
        ∧ ((∀ level ∈ levels, level ≠ c.type.model.root) → key = v.lastKey)
        ∧ added = levelRows levels [values] [id] := by
  induction levels generalizing v with
  | nil => exact adds_pure ⟨rfl, fun _ => rfl, rfl⟩
  | cons level rest ih =>
      obtain ⟨first, others⟩ := List.forall_mem_cons.1 given
      obtain ⟨supplies, supply⟩ := List.forall_mem_cons.1 supplied
      rw [List.foldlM_cons]
      refine Adds.bind (adds_insertLevel unmarked appends creatable first supplies id) ?_
      rintro _ w _ ⟨rfl, same, rfl⟩
      refine (ih others supply).imp ?_
      rintro _ key _ ⟨rfl, kept, rfl⟩
      refine ⟨rfl, fun below => ?_, ?_⟩
      · obtain ⟨here, there⟩ := List.forall_mem_cons.1 below
        rw [kept there, same here]
      · funext table
        rw [levelRows_cons]
        rfl

private theorem adds_insertRoot (creatable : Creatable c.type.model) (leaves : c.leavesKey = true)
    {values : List (String × Value)} (supplied : Supplies c.type.model.root c.withId values)
    (id : Int64) (room : v.lastKey.toInt + 1 ≤ Int64.maxValue.toInt) :
    Adds env c.storage view
      (insertLevel env c.storage c.withId values id c.type.model.root : Attempt σ ε _) v
      fun id' key added => id' = v.lastKey + 1 ∧ key = v.lastKey + 1
        ∧ added = placed c.type.model.root.table
          [c.type.model.root.rowOf values (v.lastKey + 1)] := by
  unfold insertLevel
  refine Adds.checked (rowValues_ok supplied id) ?_
  refine Adds.returning (adds_generated unmarked appends leaves (complete_single _ _)
    (Or.inr rfl) room) ?_
  rintro last? key added ⟨rfl, rfl, rfl⟩
  refine ⟨rfl, rfl, ?_⟩
  rw [Change.numbered, Change.numbered,
    cells_generated (creatable.marked _ (EntityModel.root_mem_chain c.type.model))]

/-- What the entities promise: they have the ids that they are given, and are as they were if that
is the id that they had, wherever it is kept. -/
structure Numbers (c : Create ε) : Prop where
  reads : ∀ e n, c.type.id (c.type.setId e n) = n
  still : c.leavesKey = false → ∀ e ∈ c.items, c.type.setId e (c.type.id e) = e

private theorem adds_insertOne (creatable : Creatable c.type.model) (numbers : Numbers c) {item : ε}
    (listed : item ∈ c.items)
    (supplied : ∀ level ∈ c.type.model.levels, Supplies level c.withId (c.type.values item))
    (room : c.leavesKey = true → v.lastKey.toInt + 1 ≤ Int64.maxValue.toInt) :
    Adds env c.storage view (c.insertOne env item) v fun new key added =>
      c.storedFrom v.lastKey [item] = [new] ∧ (c.leavesKey = true → key = v.lastKey + 1)
        ∧ added = levelRows c.type.model.levels [c.type.values item] [c.type.id new] := by
  unfold insertOne storedFrom
  cases leaves : c.leavesKey with
  | false =>
      have given (level : EntityModel) (member : level ∈ c.type.model.levels) : c.Given level :=
        given_of_leaves creatable leaves (EntityModel.mem_levels.1 member)
      refine Adds.returning (adds_insertLevels unmarked appends creatable (c.type.id item)
        c.type.model.levels given supplied) ?_
      rintro _ key _ ⟨rfl, -, rfl⟩
      rw [numbers.still leaves item listed]
      exact ⟨rfl, nofun, rfl⟩
  | true =>
      obtain ⟨below, levels, apart⟩ := EntityModel.levels_eq_cons c.type.model
      have given := given_of_below creatable levels apart
      rw [levels] at supplied ⊢
      obtain ⟨supplies, supply⟩ := List.forall_mem_cons.1 supplied
      have lower (level : EntityModel) (member : level ∈ below) : level ≠ c.type.model.root :=
        fun same => apart (same ▸ member)
      have whole : Adds env c.storage view
          ((c.type.model.root :: below).foldlM
            (insertLevel env c.storage c.withId (c.type.values item))
            (c.type.id item) : Attempt σ ε _) v fun id key added => id = v.lastKey + 1
              ∧ key = v.lastKey + 1 ∧ added = levelRows (c.type.model.root :: below)
                [c.type.values item] [v.lastKey + 1] := by
        rw [List.foldlM_cons]
        refine Adds.bind
          (adds_insertRoot unmarked appends creatable leaves supplies _ (room leaves)) ?_
        rintro _ w _ ⟨rfl, last, rfl⟩
        refine (adds_insertLevels unmarked appends creatable _ below given supply).imp ?_
        rintro _ key _ ⟨rfl, kept, rfl⟩
        refine ⟨rfl, (kept lower).trans last, ?_⟩
        funext table
        rw [levelRows_cons]
        rfl
      refine whole.returning ?_
      rintro _ key _ ⟨rfl, rfl, rfl⟩
      rw [numbers.reads]
      exact ⟨rfl, fun _ => rfl, rfl⟩

private theorem adds_each (creatable : Creatable c.type.model) (numbers : Numbers c) (items : List ε)
    (listed : ∀ item ∈ items, item ∈ c.items)
    (supplied : ∀ item ∈ items, ∀ level ∈ c.type.model.levels,
      Supplies level c.withId (c.type.values item))
    (room : c.leavesKey = true → v.lastKey.toInt + items.length ≤ Int64.maxValue.toInt) :
    Adds env c.storage view (items.mapM (c.insertOne env)) v fun news _ added =>
      news = c.storedFrom v.lastKey items
        ∧ added = levelRows c.type.model.levels (items.map c.type.values) (news.map c.type.id) := by
  induction items generalizing v with
  | nil =>
      refine adds_pure ⟨?_, ?_⟩
      · unfold storedFrom
        split <;> rfl
      · funext table
        simp [levelRows]
  | cons item rest ih =>
      obtain ⟨here, there⟩ := List.forall_mem_cons.1 listed
      obtain ⟨supplies, supply⟩ := List.forall_mem_cons.1 supplied
      rw [List.mapM_cons]
      refine Adds.bind
        (adds_insertOne unmarked appends creatable numbers here supplies fun leaves => ?_) ?_
      · have enough := room leaves
        rw [List.length_cons] at enough
        omega
      · rintro new w _ ⟨first, last, rfl⟩
        refine Adds.returning (ih there supply fun leaves => ?_) ?_
        · have enough := room leaves
          rw [List.length_cons] at enough
          have next : (v.lastKey + 1).toInt = v.lastKey.toInt + (1 : Nat) := by
            refine toInt_add_ofNat (n := 1) ?_
            omega
          rw [last leaves, next]
          omega
        · rintro news _ _ ⟨rfl, rfl⟩
          refine ⟨?_, ?_⟩
          · unfold storedFrom at first ⊢
            cases leaves : c.leavesKey with
            | false =>
                rw [leaves] at first
                cases first
                rfl
            | true =>
                rw [leaves] at first
                cases first
                rw [last leaves]
                rfl
          · funext table
            exact levelRows_append creatable.tables rfl table

/-! ### In bulk -/

private theorem adds_chunk_given (creatable : Creatable c.type.model) {level : EntityModel}
    (given : c.Given level) {chunk : List (List (String × Value) × ε)}
    (part : c.Chunk level chunk) :
    Adds env c.storage view (c.insertChunk env level chunk) v fun out _ added => out = chunk
      ∧ added = placed level.table (List.zipWith level.rowOf (chunk.map (·.1))
          (chunk.map fun pair => c.type.id pair.2)) := by
  unfold insertChunk
  refine Adds.checked (mapM_rowValues part.supplied) ?_
  refine Adds.bind (adds_given unmarked appends creatable given part.complete part.fits) ?_
  rintro last? w _ ⟨rfl, -, rfl⟩
  refine adds_pure ⟨rfl, ?_⟩
  have rows : chunk.map (fun pair => Cells.of ((insertColumns level c.withId).zip
      ((insertColumns level c.withId).map (cellOf level pair.1 (c.type.id pair.2))))) =
      List.zipWith level.rowOf (chunk.map (·.1)) (chunk.map fun pair => c.type.id pair.2) := by
    rw [List.zipWith_map, List.zipWith_self]
    exact List.map_congr_left fun pair _ =>
      cells_given (creatable.declared level given.member) given.keyed pair.1 _
  rw [← rows, List.map_map]
  funext table
  exact List.append_nil _

private theorem adds_chunk_generated (creatable : Creatable c.type.model) (numbers : Numbers c)
    (leaves : c.leavesKey = true) {chunk : List (List (String × Value) × ε)}
    (part : c.Chunk c.type.model.root chunk)
    (room : v.lastKey.toInt + chunk.length ≤ Int64.maxValue.toInt) :
    Adds env c.storage view (c.insertChunk env c.type.model.root chunk) v fun out key added =>
      out = (chunk.map (·.1)).zip (setIds c.type (v.lastKey + 1) (chunk.map (·.2)))
        ∧ key = v.lastKey + Int64.ofNat chunk.length
        ∧ added = placed c.type.model.root.table (List.zipWith c.type.model.root.rowOf
            (chunk.map (·.1))
              ((setIds c.type (v.lastKey + 1) (chunk.map (·.2))).map c.type.id)) := by
  unfold insertChunk
  refine Adds.checked (mapM_rowValues part.supplied) ?_
  refine Adds.bind (adds_generated unmarked appends leaves part.complete part.fits
    (by rwa [List.length_map])) ?_
  rintro last? w _ ⟨rfl, last, rfl⟩
  rw [List.length_map] at last ⊢
  have first : v.lastKey + Int64.ofNat chunk.length - Int64.ofNat (chunk.length - 1) =
      v.lastKey + 1 := by
    obtain ⟨n, counted⟩ := Nat.exists_eq_succ_of_ne_zero fun none =>
      part.filled (List.length_eq_zero_iff.1 none)
    rw [counted, Nat.succ_eq_add_one, Nat.add_sub_cancel, Int64.ofNat_add]
    grind
  refine adds_pure ⟨by rw [first], last, ?_⟩
  rw [← numbered_eq numbers.reads (creatable.marked _ (EntityModel.root_mem_chain c.type.model))]
  funext table
  exact List.append_nil _

/-- One statement after the other. -/
theorem adds_chunks_given (creatable : Creatable c.type.model) {level : EntityModel}
    (given : c.Given level) (chunks : List (List (List (String × Value) × ε)))
    (parts : ∀ chunk ∈ chunks, c.Chunk level chunk) :
    Adds env c.storage view (chunks.mapM (c.insertChunk env level)) v fun out _ added =>
      out = chunks
      ∧ added = placed level.table (List.zipWith level.rowOf (chunks.flatten.map (·.1))
          (chunks.flatten.map fun pair => c.type.id pair.2)) := by
  induction chunks generalizing v with
  | nil => exact adds_pure ⟨rfl, by funext table; simp [placed]⟩
  | cons chunk rest ih =>
      obtain ⟨first, others⟩ := List.forall_mem_cons.1 parts
      rw [List.mapM_cons]
      refine Adds.bind (adds_chunk_given unmarked appends creatable given first) ?_
      rintro _ w _ ⟨rfl, rfl⟩
      refine Adds.returning (ih others) ?_
      rintro _ key _ ⟨rfl, rfl⟩
      refine ⟨rfl, ?_⟩
      rw [List.flatten_cons, List.map_append, List.map_append,
        List.zipWith_append (by rw [List.length_map, List.length_map])]
      exact behind_placed _ _ _

private theorem adds_chunks_generated (creatable : Creatable c.type.model) (numbers : Numbers c)
    (leaves : c.leavesKey = true) (chunks : List (List (List (String × Value) × ε)))
    (parts : ∀ chunk ∈ chunks, c.Chunk c.type.model.root chunk)
    (room : v.lastKey.toInt + chunks.flatten.length ≤ Int64.maxValue.toInt) :
    Adds env c.storage view (chunks.mapM (c.insertChunk env c.type.model.root)) v fun out _ added =>
      out.flatten = (chunks.flatten.map (·.1)).zip
          (setIds c.type (v.lastKey + 1) (chunks.flatten.map (·.2)))
        ∧ added = placed c.type.model.root.table (List.zipWith c.type.model.root.rowOf
            (chunks.flatten.map (·.1))
            ((setIds c.type (v.lastKey + 1) (chunks.flatten.map (·.2))).map c.type.id)) := by
  induction chunks generalizing v with
  | nil => exact adds_pure ⟨rfl, by funext table; simp [placed]⟩
  | cons chunk rest ih =>
      obtain ⟨first, others⟩ := List.forall_mem_cons.1 parts
      rw [List.flatten_cons, List.length_append] at room
      have here : v.lastKey.toInt + chunk.length ≤ Int64.maxValue.toInt := by omega
      rw [List.mapM_cons]
      refine Adds.bind (adds_chunk_generated unmarked appends creatable numbers leaves first here)
        ?_
      rintro _ w _ ⟨rfl, last, rfl⟩
      refine Adds.returning (ih others ?_) ?_
      · rw [last, toInt_add_ofNat here]
        omega
      · rintro outs key _ ⟨flat, rfl⟩
        have later : w.lastKey + 1 = v.lastKey + 1 + Int64.ofNat (chunk.map (·.2)).length := by
          rw [last, List.length_map]
          grind
        have paired : (chunk.map (·.1)).length =
            (setIds c.type (v.lastKey + 1) (chunk.map (·.2))).length := by
          rw [length_setIds, List.length_map, List.length_map]
        rw [later] at flat ⊢
        rw [List.flatten_cons, List.flatten_cons, List.map_append, List.map_append, setIds_append,
          flat, List.zip_append paired, List.map_append,
          List.zipWith_append (by rw [paired, List.length_map])]
        exact ⟨rfl, behind_placed _ _ _⟩

private theorem adds_level_given (creatable : Creatable c.type.model) {level : EntityModel}
    (given : c.Given level) (pairs : List (List (String × Value) × ε))
    (supplied : ∀ pair ∈ pairs, Supplies level c.withId pair.1) :
    Adds env c.storage view (c.insertBulkLevel env pairs level) v fun out _ added => out = pairs
      ∧ added = placed level.table (List.zipWith level.rowOf (pairs.map (·.1))
          (pairs.map fun pair => c.type.id pair.2)) := by
  unfold insertBulkLevel
  refine Adds.returning (adds_chunks_given unmarked appends creatable given _ fun chunk member =>
    chunk_of_mem supplied member) ?_
  rintro _ key _ ⟨rfl, rfl⟩
  rw [flatten_chunksOf]
  exact ⟨rfl, rfl⟩

private theorem adds_level_generated (creatable : Creatable c.type.model) (numbers : Numbers c)
    (leaves : c.leavesKey = true) (pairs : List (List (String × Value) × ε))
    (supplied : ∀ pair ∈ pairs, Supplies c.type.model.root c.withId pair.1)
    (room : v.lastKey.toInt + pairs.length ≤ Int64.maxValue.toInt) :
    Adds env c.storage view (c.insertBulkLevel env pairs c.type.model.root) v fun out _ added =>
      out = (pairs.map (·.1)).zip (setIds c.type (v.lastKey + 1) (pairs.map (·.2)))
        ∧ added = placed c.type.model.root.table (List.zipWith c.type.model.root.rowOf
            (pairs.map (·.1))
              ((setIds c.type (v.lastKey + 1) (pairs.map (·.2))).map c.type.id)) := by
  unfold insertBulkLevel
  refine Adds.returning (adds_chunks_generated unmarked appends creatable numbers leaves _
    (fun chunk member => chunk_of_mem supplied member) (by rwa [flatten_chunksOf])) ?_
  rintro outs key _ ⟨flat, rfl⟩
  rw [flatten_chunksOf] at flat ⊢
  exact ⟨flat, rfl⟩

theorem adds_levels_given (creatable : Creatable c.type.model) (levels : List EntityModel)
    (given : ∀ level ∈ levels, c.Given level) (pairs : List (List (String × Value) × ε))
    (supplied : ∀ pair ∈ pairs, ∀ level ∈ levels, Supplies level c.withId pair.1) :
    Adds env c.storage view (levels.foldlM (c.insertBulkLevel env) pairs) v fun out _ added =>
      out = pairs ∧ added = levelRows levels (pairs.map (·.1))
        (pairs.map fun pair => c.type.id pair.2) := by
  induction levels generalizing v with
  | nil => exact adds_pure ⟨rfl, rfl⟩
  | cons level rest ih =>
      obtain ⟨first, others⟩ := List.forall_mem_cons.1 given
      rw [List.foldlM_cons]
      refine Adds.bind (adds_level_given unmarked appends creatable first pairs fun pair member =>
        supplied pair member level List.mem_cons_self) ?_
      rintro _ w _ ⟨rfl, rfl⟩
      refine (ih others fun pair member other below =>
        supplied pair member other (List.mem_cons_of_mem _ below)).imp ?_
      rintro _ key _ ⟨rfl, rfl⟩
      refine ⟨rfl, ?_⟩
      funext table
      rw [levelRows_cons]
      rfl

private theorem adds_levels_generated (creatable : Creatable c.type.model) (numbers : Numbers c)
    (leaves : c.leavesKey = true) (pairs : List (List (String × Value) × ε))
    (supplied : ∀ pair ∈ pairs, ∀ level ∈ c.type.model.levels, Supplies level c.withId pair.1)
    (room : v.lastKey.toInt + pairs.length ≤ Int64.maxValue.toInt) :
    Adds env c.storage view (c.type.model.levels.foldlM (c.insertBulkLevel env) pairs) v
      fun out _ added => out.map (·.2) = setIds c.type (v.lastKey + 1) (pairs.map (·.2))
        ∧ added = levelRows c.type.model.levels (pairs.map (·.1))
            ((setIds c.type (v.lastKey + 1) (pairs.map (·.2))).map c.type.id) := by
  obtain ⟨below, levels, apart⟩ := EntityModel.levels_eq_cons c.type.model
  have given := given_of_below creatable levels apart
  rw [levels] at supplied ⊢
  rw [List.foldlM_cons]
  refine Adds.bind (adds_level_generated unmarked appends creatable numbers leaves pairs
    (fun pair member => supplied pair member _ List.mem_cons_self) room) ?_
  rintro _ w _ ⟨rfl, rfl⟩
  have paired : (pairs.map (·.1)).length =
    (setIds c.type (v.lastKey + 1) (pairs.map (·.2))).length := by
    rw [length_setIds, List.length_map, List.length_map]
  have values :
      ((pairs.map (·.1)).zip (setIds c.type (v.lastKey + 1) (pairs.map (·.2)))).map (·.1) =
        pairs.map (·.1) :=
    List.map_fst_zip (Nat.le_of_eq paired)
  have entities :
      ((pairs.map (·.1)).zip (setIds c.type (v.lastKey + 1) (pairs.map (·.2)))).map (·.2) =
        setIds c.type (v.lastKey + 1) (pairs.map (·.2)) :=
    List.map_snd_zip (Nat.le_of_eq paired.symm)
  have ids := List.map_map.symm.trans (congrArg (List.map c.type.id) entities)
  change List.map (fun pair : _ × ε => c.type.id pair.2) _ = _ at ids
  refine (adds_levels_given unmarked appends creatable below given _ ?_).imp ?_
  · intro pair member level inside
    have own : pair.1 ∈ pairs.map (·.1) := values ▸ List.mem_map_of_mem member
    obtain ⟨old, listed, same⟩ := List.mem_map.1 own
    exact same ▸ supplied old listed level (List.mem_cons_of_mem _ inside)
  · rintro _ key _ ⟨rfl, rfl⟩
    refine ⟨entities, ?_⟩
    funext table
    rw [levelRows_cons, values, ids]
    rfl

private theorem adds_bulk (creatable : Creatable c.type.model) (numbers : Numbers c)
    (supplied : ∀ item ∈ c.items, ∀ level ∈ c.type.model.levels,
      Supplies level c.withId (c.type.values item))
    (room : c.leavesKey = true → v.lastKey.toInt + c.items.length ≤ Int64.maxValue.toInt) :
    Adds env c.storage view (c.insertBulk env) v fun news _ added =>
      news = c.storedFrom v.lastKey c.items
        ∧ added = levelRows c.type.model.levels (c.items.map c.type.values)
          (news.map c.type.id) := by
  by_cases none : c.items = []
  · have nothing : Adds env c.storage view (pure [] : Attempt σ ε (List ε)) v fun news _ added =>
        news = c.storedFrom v.lastKey c.items ∧ added =
          levelRows c.type.model.levels (c.items.map c.type.values) (news.map c.type.id) := by
      rw [none]
      refine adds_pure ⟨?_, ?_⟩
      · unfold storedFrom
        split <;> rfl
      · funext table
        simp [levelRows]
    unfold insertBulk
    rwa [if_pos (List.isEmpty_iff.2 none)]
  · have values : (c.items.map fun item => (c.type.values item, item)).map (·.1) =
        c.items.map c.type.values := List.map_map
    have entities : (c.items.map fun item => (c.type.values item, item)).map (·.2) = c.items :=
      List.map_map.trans (List.map_id _)
    have supply : ∀ pair ∈ c.items.map fun item => (c.type.values item, item),
        ∀ level ∈ c.type.model.levels, Supplies level c.withId pair.1 := by
      intro pair member
      obtain ⟨item, listed, rfl⟩ := List.mem_map.1 member
      exact supplied item listed
    unfold insertBulk storedFrom
    rw [if_neg fun empty => none (List.isEmpty_iff.1 empty)]
    cases leaves : c.leavesKey with
    | false =>
        have given (level : EntityModel) (member : level ∈ c.type.model.levels) : c.Given level :=
          given_of_leaves creatable leaves (EntityModel.mem_levels.1 member)
        refine Adds.returning (adds_levels_given unmarked appends creatable _ given _ supply) ?_
        rintro _ key _ ⟨rfl, rfl⟩
        rw [entities, values, List.map_map]
        exact ⟨rfl, rfl⟩
    | true =>
        refine Adds.returning
          (adds_levels_generated unmarked appends creatable numbers leaves _ supply
          (by rw [List.length_map]; exact room leaves)) ?_
        rintro out key _ ⟨news, rfl⟩
        rw [entities] at news
        rw [news, entities, values]
        exact ⟨rfl, rfl⟩

end

/-! ### Entities and their links -/

def linkRows (schema : Schema) (type : EntityType ε) (stored : List ε) (table : String) :
    List Cells :=
  stored.flatMap fun item =>
    ((Links.tablesOf schema type.model none).filter (·.table = table)).flatMap fun link =>
      (Links.targets (type.links item link.field)).map (Links.rowOf link (type.id item))

/-- A creation returns the entities and has put the rows of all their levels and of their links at
the end of the tables, by statements of bounded size. -/
structure Created (c : Create ε) (env : Setting σ) (view : σ → Holdings) (s : State σ ε)
    (stored : List ε) (after : State σ ε) : Prop where
  returned : (c.run env).run s = (.ok stored, after)
  tables : ∀ table, (view after.outside).tables table = (view s.outside).tables table
    ++ levelRows c.type.model.levels (c.items.map c.type.values) (stored.map c.type.id) table
    ++ linkRows env.schema c.type stored table
  statements : ∃ made, Sent (Storage.dialect env c.storage) c.storage made s after
    ∧ ∀ change ∈ made, change.Fits

section

variable (unmarked : ∀ level ∈ c.type.model.chain, level.Unmarked)
  (linked : ∀ link ∈ Links.tablesOf env.schema c.type.model none, Links.Unmarked link)
  (appends : Appends (env.provider c.storage) view c.type.model.root.table
    c.type.model.root.primaryKey (c.Writes env.schema))

include appends linked in
/-- The links of entities are put at the end of their tables. -/
theorem makes_links (stored : List ε) :
    ∃ made, Makes env c.storage (fun w => (view w).tables) Tables.changed
        (stored.forM (c.writeLinks env)) made
      ∧ (∀ change ∈ made, change.Fits)
      ∧ ∀ D : Tables, ∀ table, made.foldl Tables.changed D table =
          D table ++ linkRows env.schema c.type stored table := by
  let made := stored.flatMap fun item => (Links.tablesOf env.schema c.type.model none).flatMap
    (Links.changes c.type item (c.type.id item) false)
  have made_of_mem {change : Change} (member : change ∈ made) : ∃ item,
      ∃ link ∈ Links.tablesOf env.schema c.type.model none,
        change ∈ Links.changes c.type item (c.type.id item) false link := by
    obtain ⟨item, -, member⟩ := List.mem_flatMap.1 member
    exact ⟨item, List.mem_flatMap.1 member⟩
  have inserts {item : ε} {link : LinkTable} {change : Change}
      (member : change ∈ Links.changes c.type item (c.type.id item) false link) :
      ∃ ts, change = Links.insertion link (c.type.id item) ts := by
    obtain ⟨ts, -, rfl⟩ := List.mem_map.1 member
    exact ⟨ts, rfl⟩
  have performs : Performs (env.provider c.storage) (fun w => (view w).tables) Tables.changed
      fun change => ∃ table columns rows, change = .insert none table columns rows
        ∧ c.Writes env.schema table columns ∧ Change.Complete columns rows := by
    rintro _ q w ⟨table, columns, rows, rfl, known, complete⟩ tells
    obtain ⟨n, after, answered, changed, -⟩ :=
      appends.executes table columns rows q w known complete tells
    exact ⟨n, after, answered, changed⟩
  refine ⟨made, ?_, ?_, ?_⟩
  · refine makes_forM stored fun item _ => ?_
    refine Links.makes_write performs c.type item (c.type.id item) false none linked ?_
    intro link listed change member
    obtain ⟨ts, rfl⟩ := inserts member
    exact ⟨link.table, _, _, rfl, Or.inr ⟨link, listed, rfl, rfl⟩,
      (Links.full_of_mem_changes member).2.2⟩
  · intro change member
    obtain ⟨item, link, -, member⟩ := made_of_mem member
    have bounded := Links.length_of_mem_changes member
    obtain ⟨ts, rfl⟩ := inserts member
    exact Or.inl bounded
  · intro D table
    rw [Tables.foldl_changed_inserted]
    · rw [Change.cellsIn_flatMap]
      congr 1
      unfold linkRows
      congr 1
      funext item
      rw [Change.cellsIn_flatMap]
      induction Links.tablesOf env.schema c.type.model none with
      | nil => rfl
      | cons link rest ih =>
          rw [List.flatMap_cons, ih, Links.cellsIn_changes]
          by_cases here : link.table = table
          · rw [if_pos here, List.filter_cons_of_pos (by simpa using here), List.flatMap_cons]
          · rw [if_neg here, List.filter_cons_of_neg (by simpa using here), List.nil_append]
    · intro change member
      obtain ⟨item, link, -, member⟩ := made_of_mem member
      obtain ⟨ts, rfl⟩ := inserts member
      exact ⟨none, _, _, _, rfl⟩

include unmarked linked appends in
theorem created (creatable : Creatable c.type.model) (numbers : Numbers c)
    (supplied : ∀ item ∈ c.items, ∀ level ∈ c.type.model.levels,
      Supplies level c.withId (c.type.values item))
    (transacts : Transacts (env.provider c.storage) view) (s : State σ ε)
    (room : c.leavesKey = true →
      (view s.outside).lastKey.toInt + c.items.length ≤ Int64.maxValue.toInt) :
    ∃ after, c.Created env view s (c.storedFrom (view s.outside).lastKey c.items) after := by
  have all : Adds env c.storage view (c.insertAll env) (view s.outside) fun news _ added =>
      news = c.storedFrom (view s.outside).lastKey c.items ∧ added =
        levelRows c.type.model.levels (c.items.map c.type.values) (news.map c.type.id) := by
    unfold insertAll
    split
    · exact adds_bulk unmarked appends creatable numbers supplied room
    · exact adds_each unmarked appends creatable numbers c.items (fun _ listed => listed)
        supplied room
  have whole : Achieves env c.storage view (c.insertWithLinks env) (view s.outside)
      fun news w made => news = c.storedFrom (view s.outside).lastKey c.items
        ∧ (∀ table, w.tables table = (view s.outside).tables table
          ++ levelRows c.type.model.levels (c.items.map c.type.values) (news.map c.type.id) table
          ++ linkRows env.schema c.type news table)
        ∧ ∀ change ∈ made, change.Fits := by
    refine Achieves.bind all ?_
    rintro news w made ⟨grown, fits, rfl, rows⟩
    obtain ⟨more, makes, fits', linkedRows⟩ := makes_links linked appends
      (c.storedFrom (view s.outside).lastKey c.items)
    refine Achieves.returning (Attains.through (makes w.tables)) ?_
    rintro _ w' _ ⟨rfl, shows⟩
    refine ⟨rfl, fun table => ?_, List.forall_mem_append.2 ⟨fits, fits'⟩⟩
    rw [shows, linkedRows, grown, rows]
  obtain ⟨_, after, made, ran, sent, rfl, tables, fits⟩ := transacts.unit_achieves whole s rfl
  exact ⟨after, ran, tables, made, sent, fits⟩

end

end Create

end EntityStore
