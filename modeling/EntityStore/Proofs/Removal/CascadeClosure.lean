import EntityStore.Proofs.Removal.Descent
import EntityStore.Proofs.Removal.Reader

/-!
Removal computes the closure of the cascades: it comes to an end, also where relations or rows form
circles; the keys it has handled then are those of the given ids and of all that cascades from them,
and the tables are left without their rows, their links and the pointers that are to be emptied. The
depth of a removal bounds the recursion and decides nothing: a depth that is enough for all keys that
have not been handled gives what any greater depth gives.
-/

namespace EntityStore

variable {σ ε α β : Type}

/-- On tables `D` the two attempts do the same. -/
def Agree (view : σ → Tables) (D : Tables) (x y : Attempt σ ε α) : Prop :=
  ∀ s, view s.outside = D → x.run.run s = y.run.run s

section

variable {view : σ → Tables} {D : Tables} {made : List Tables.Command}

theorem Agree.refl (x : Attempt σ ε α) : Agree view D x x := by
  intro s _
  rfl

private theorem Agree.trans {x y z : Attempt σ ε α} (first : Agree view D x y)
    (second : Agree view D y z) :
    Agree view D x z := by
  intro s here
  exact (first s here).trans (second s here)

private theorem Runs.agree {x : Attempt σ ε α} {a : α} {f g : α → Attempt σ ε β}
    (runs : Runs view x D made a) (next : Agree view (D.run made) (f a) (g a)) :
    Agree view D (x >>= f) (x >>= g) := by
  intro s here
  obtain ⟨after, ran, reached⟩ := runs s here
  rw [Attempt.run_bind_ok ran, Attempt.run_bind_ok ran]
  exact next after reached

theorem Agree.bind {x y : Attempt σ ε α} {a : α} {f g : α → Attempt σ ε β}
    (agree : Agree view D x y) (runs : Runs view y D made a)
    (next : Agree view (D.run made) (f a) (g a)) : Agree view D (x >>= f) (y >>= g) := by
  intro s here
  obtain ⟨after, ran, reached⟩ := runs s here
  rw [Attempt.run_bind_ok ran, Attempt.run_bind_ok ((agree s here).trans ran)]
  exact next after reached

end

namespace Removal

open Tables

variable {env : Setting σ} {i : StorageId} {view : σ → Tables} {models : List EntityModel}
  {D : Tables} {origin : EntityModel} {given : List Int64} {depth : Nat}

def Enough (ε : Type) (env : Setting σ) (i : StorageId) (view : σ → Tables)
    (models : List EntityModel) (D : Tables) (origin : EntityModel) (given : List Int64)
    (depth : Nat) : Prop :=
  ∀ m ids visited made, Asked env.schema models D origin given m ids →
    Handled env.schema models D origin given visited made →
    models.length * UInt64.size < depth + visited.length →
    Agree view (D.run made) (remove env i models (depth + 1) m ids visited : Attempt σ ε _)
      (remove env i models depth m ids visited)

private theorem follow_enough (descends : Descends ε env i view models D origin given depth)
    (enough : Enough ε env i view models D origin given depth)
    {cascades : List (EntityModel × List Int64)}
    (asked : ∀ x ∈ cascades, Asked env.schema models D origin given x.1 x.2)
    {visited : List RowKey} {made : List Command}
    (handled : Handled env.schema models D origin given visited made)
    (deep : models.length * UInt64.size < depth + visited.length) :
    Agree view (D.run made)
      (cascades.foldlM (fun visited (level, found) => do
        return (← remove env i models (depth + 1) level found visited).2) visited :
          Attempt σ ε (List RowKey))
      (cascades.foldlM (fun visited (level, found) => do
        return (← remove env i models depth level found visited).2) visited) := by
  induction cascades generalizing visited made with
  | nil => exact Agree.refl _
  | cons x rest ih =>
      obtain ⟨n, added, more, ran, progress, -⟩ :=
        descends x.1 x.2 visited made (asked x List.mem_cons_self) handled deep
      have wider : models.length * UInt64.size < depth + (added ++ visited).length := by
        rw [List.length_append]
        omega
      have later := ih (fun y member => asked y (List.mem_cons_of_mem x member))
        (handled.progress progress) wider
      have same := enough x.1 x.2 visited made (asked x List.mem_cons_self) handled deep
      rw [Tables.run_append] at later
      rw [List.foldlM_cons, List.foldlM_cons]
      exact Agree.bind (Agree.bind same ran (Agree.refl _))
        (Runs.returning (fun result => result.2) ran) later

section

variable (registered : Registered env.schema models) (unambiguous : ∀ m ∈ models, m.Unambiguous)
  (typed : Typed env.schema models D)
  (obeys : Obeys (env.provider i) view (Named env.schema models))

include registered unambiguous typed obeys

private theorem enough_succ (descends : Descends ε env i view models D origin given depth)
    (enough : Enough ε env i view models D origin given depth) :
    Enough ε env i view models D origin given (depth + 1) := by
  intro m ids visited made asked handled deep
  obtain ⟨new, keys, notes⟩ := exists_notes m.root.table ids visited
  unfold remove
  rw [notes.fresh_eq]
  cases some : new.isEmpty with
  | true =>
      dsimp only
      rw [some, if_pos rfl, if_pos rfl]
      exact Agree.refl _
  | false =>
      have noting := handled.noting registered asked notes
      obtain ⟨cascades, gathered, -, cascadesAsked⟩ :=
        gather (ε := ε) (i := i) registered unambiguous typed obeys
          (asked.unhandled notes) noting
      have deeper := notes.deeper some deep
      obtain ⟨added, more, followed, -⟩ := follow descends cascadesAsked noting deeper
      have same := follow_enough descends enough cascadesAsked noting deeper
      rw [Tables.run_append] at gathered followed same
      simp only [some, Bool.false_eq_true, if_false]
      refine Runs.agree (runs_clearLinks obeys registered asked.known new)
        (Runs.agree gathered ?_)
      exact Agree.bind same followed (Agree.refl _)

variable (known : origin ∈ models)

include known

theorem remove_descends (depth : Nat) : Descends ε env i view models D origin given depth := by
  induction depth with
  | zero => exact descends_zero known
  | succ depth ih => exact descends_succ registered unambiguous typed obeys ih

private theorem remove_enough (depth : Nat) : Enough ε env i view models D origin given depth := by
  induction depth with
  | zero =>
      intro m ids visited made asked handled deep
      have bounded := handled.bounded known
      omega
  | succ depth ih =>
      exact enough_succ registered unambiguous typed obeys
        (remove_descends registered unambiguous typed obeys known depth) ih

private theorem remove_deeper {m : EntityModel} {ids : List Int64} {visited : List RowKey}
    {made : List Command} (asked : Asked env.schema models D origin given m ids)
    (handled : Handled env.schema models D origin given visited made)
    (deep : models.length * UInt64.size < depth + visited.length) (more : Nat) :
    Agree view (D.run made) (remove env i models (depth + more) m ids visited : Attempt σ ε _)
      (remove env i models depth m ids visited) := by
  induction more with
  | zero => exact Agree.refl _
  | succ more ih =>
      have wider : models.length * UInt64.size < depth + more + visited.length := by
        omega
      have step := remove_enough (ε := ε) (i := i) registered unambiguous typed obeys known
        (depth + more) m ids visited made asked handled wider
      exact step.trans ih

end

end Removal

/-! ### The closure -/

namespace Removal

open Tables

variable {env : Setting σ} {i : StorageId} {view : σ → Tables}
  {models : List EntityModel} {D : Tables} {m : EntityModel} {ids : List Int64}

/-- On tables `D` a removal, to any depth from the bound on, succeeds with the keys that have to go
and the number of rows of the given ids, and leaves the tables without those keys. -/
def RemovesClosure (ε : Type) (env : Setting σ) (i : StorageId) (view : σ → Tables)
    (models : List EntityModel) (D : Tables) (m : EntityModel) (ids : List Int64) : Prop :=
  ∀ s : State σ ε, view s.outside = D → ∃ n gone after,
    (∀ depth, depthBound models ≤ depth →
      (remove env i models depth m ids []).run.run s = (.ok (n, gone), after))
    ∧ gone.Nodup
    ∧ (∀ key, key ∈ gone ↔ Doomed env.schema models D m ids key)
    ∧ n = (D m.root.table).countP (fun r => holds ids (r m.root.primaryKey))
    ∧ Removed env.schema models D gone (view after.outside)

private theorem Notes.holds_eq {table : String} {new : List Int64} {keys : List RowKey}
    (notes : Notes table ids [] new keys) : holds new = holds ids := by
  funext value
  rw [Bool.eq_iff_iff, holds_iff, holds_iff]
  constructor
  · rintro ⟨id, among, same⟩
    exact ⟨id, (notes.unhandled id among).1, same⟩
  · rintro ⟨id, among, same⟩
    have noted := notes.covers id among
    rw [List.append_nil] at noted
    obtain ⟨other, member, equal⟩ := (notes.mem_keys _).1 noted
    cases equal
    exact ⟨id, member, same⟩

private theorem mem_of_doomed {schema : Schema} {handled : List RowKey}
    (given : ∀ id ∈ ids, (m.root.table, id) ∈ handled)
    (closed : ∀ key ∈ handled, Closed schema models D handled key) {key : RowKey}
    (doomed : Doomed schema models D m ids key) : key ∈ handled := by
  induction doomed with
  | given id member => exact given id member
  | cascades level c target declares r stored id pointed own points doomed ih =>
      exact closed _ ih level c target declares rfl r stored points id own

/-- Removal computes the closure of the cascades. -/
theorem remove_computes_closure (registered : Registered env.schema models)
    (unambiguous : ∀ m ∈ models, m.Unambiguous)
    (free : ∀ table column, Named env.schema models table column →
      Sql.MarkFree table ∧ Sql.MarkFree column)
    (typed : Typed env.schema models D) (linked : Linked env.schema models D)
    (interprets : Interprets (env.provider i) view (Named env.schema models)) (known : m ∈ models)
    (present : ∀ id ∈ ids, Occurs D m id) :
    RemovesClosure ε env i view models D m ids := by
  intro s here
  have obeys := interprets.obeys free
  have asked : Asked env.schema models D m ids m ids :=
    ⟨known, present, fun id member => .given id member⟩
  have handled : Handled env.schema models D m ids [] [] :=
    ⟨List.nodup_nil, fun key member => (List.not_mem_nil member).elim,
      fun c member => (List.not_mem_nil member).elim⟩
  have deep : models.length * UInt64.size < depthBound models + ([] : List RowKey).length := by
    unfold depthBound
    rw [Nat.succ_mul]
    omega
  obtain ⟨n, added, more, runs, progress, covered, count⟩ :=
    remove_descends (ε := ε) (i := i) registered unambiguous typed obeys known
      (depthBound models) m ids [] [] asked handled deep
  have closed := progress.closed
  rw [List.append_nil] at runs covered closed
  obtain ⟨after, ran, reached⟩ := runs s here
  refine ⟨n, added, after, ?_, ?_, ?_, ?_, ?_⟩
  · intro depth enough
    obtain ⟨further, rfl⟩ := Nat.exists_eq_add_of_le enough
    have same := remove_deeper (ε := ε) (i := i) registered unambiguous typed obeys known asked
      handled deep further
    rw [same s here, ran]
  · have distinct := progress.distinct
    rwa [List.append_nil] at distinct
  · intro key
    exact ⟨progress.doomed key, mem_of_doomed covered closed⟩
  · obtain ⟨new, keys, notes⟩ := exists_notes m.root.table ids []
    rw [count, notes.fresh_eq, ← notes.holds_eq]
  · rw [reached]
    exact removed_of_settled registered unambiguous typed linked progress.justified progress.settled

/-! ### Circles -/

def cells (values : List (String × Value)) : Cells :=
  fun column => (values.lookup column).getD .null

theorem occurs_alone {id : Int64} (occurs : Occurs D m id) : ∀ other ∈ [id], Occurs D m other := by
  intro other member
  rw [List.mem_singleton.1 member]
  exact occurs

def onTables (schema : Schema) : Setting Tables where
  schema := schema
  provider _ := database .sqlite
  log _ := {}
  now := SqlType.firstDay.atMidnight

def category : EntityModel where
  own :=
    { path := "Category"
      table := "category"
      primaryKey := "id"
      columns := [Column.generatedKey "id",
        .relation "parent_id" "parent" ⟨"Category"⟩ .cascade,
        .relation "favourite_id" "favourite" ⟨"Category"⟩ .setNull,
        .many "related" ⟨"Category"⟩ "category_related"] }

def shelf : EntityModel where
  own :=
    { path := "Shelf"
      table := "shelf"
      primaryKey := "category_id"
      columns := [Column.inheritedKey "category_id"] }
  above := [category.own]

def categories : Schema := ⟨fun _ => category⟩

def categoryRows : Tables
  | "category" => [cells [("id", .int 1), ("parent_id", .int 2)],
      cells [("id", .int 2), ("parent_id", .int 1)],
      cells [("id", .int 3), ("favourite_id", .int 2)]]
  | "shelf" => [cells [("category_id", .int 2)]]
  | "category_related" => [cells [("category_id", .int 3), ("category_target_id", .int 1)]]
  | _ => []

set_option maxRecDepth 4000 in
/-- Categories that are parents of one another go together. -/
theorem circle_of_categories_goes :
    Registered categories [category, shelf]
      ∧ Typed categories [category, shelf] categoryRows
      ∧ Linked categories [category, shelf] categoryRows
      ∧ RemovesClosure Unit (onTables categories) 0 (fun w => w) [category, shelf] categoryRows
        category [1] := by
  have registered : Registered categories [category, shelf] := by decide
  have typed : Typed categories [category, shelf] categoryRows := by decide
  have linked : Linked categories [category, shelf] categoryRows := by decide
  have unambiguous : ∀ m ∈ [category, shelf], m.Unambiguous := by decide
  have free : ∀ table column, Named categories [category, shelf] table column →
      Sql.MarkFree table ∧ Sql.MarkFree column := markFree_of_named (by decide) (by decide)
  have interprets : Interprets ((onTables categories).provider 0) (fun w => w)
      (Named categories [category, shelf]) := database_interprets .sqlite _
  have known : category ∈ [category, shelf] := by decide
  have present : ∀ id ∈ [1], Occurs categoryRows category id := occurs_alone (by decide)
  refine ⟨registered, typed, linked, ?_⟩
  exact remove_computes_closure registered unambiguous free typed linked interprets known present

/-! ### What stands in the way -/

/-- A removal from which nothing cascades handles one key, by the commands about its id. -/
theorem closure_alone {schema : Schema} (registered : Registered schema models)
    (free : ∀ table column, Named schema models table column →
      Sql.MarkFree table ∧ Sql.MarkFree column) (known : m ∈ models) (id : Int64)
    (alone : (references schema models m).filter (·.onDelete = .cascade) = [])
    (closure : RemovesClosure Unit (onTables schema) 0 (fun w => w) models D m [id]) :
    (∀ key, key = (m.root.table, id) ↔ Doomed schema models D m [id] key)
      ∧ Removed schema models D [(m.root.table, id)]
        (D.run (commandsFor schema models m [id] [] m.chain)) := by
  obtain ⟨n, gone, after, runs, -, doomed, -, removed⟩ := closure { outside := D } rfl
  obtain ⟨below, chain, -⟩ := m.chain_eq_append_root
  obtain ⟨depth, bound⟩ : ∃ depth, depthBound models = depth + 1 := ⟨_, rfl⟩
  have obeys := (database_interprets .sqlite (Named schema models)).obeys free
  have gathered : Runs (fun w => w)
      (((references schema models m).filter (·.onDelete = .cascade)).mapM
        (referencing (onTables schema) 0 [id]) : Attempt Tables Unit _)
      (D.run (linkDeletions schema models m [id])) [] [] := by
    rw [alone]
    exact runs_pure []
  have unhandled : fresh m.root.table [id] [] = ([id], [(m.root.table, id)]) := rfl
  have ran : Runs (fun w => w)
      (remove (onTables schema) 0 models (depth + 1) m [id] [] : Attempt Tables Unit _) D
      (commandsFor schema models m [id] [] m.chain) _ :=
    runs_remove registered obeys known unhandled rfl gathered (runs_pure _) chain
  obtain ⟨other, alike, reached⟩ := ran { outside := D } rfl
  have same := runs (depth + 1) (Nat.le_of_eq bound)
  rw [alike] at same
  cases same
  have left : after.outside = D.run (commandsFor schema models m [id] [] m.chain) := reached
  constructor
  · intro key
    exact List.mem_singleton.symm.trans (doomed key)
  · rw [← left]
    exact removed

/-- Models and content fit, and still the removal is not the closure of the cascades. -/
def FallsShort (schema : Schema) (models : List EntityModel) (D : Tables) (m : EntityModel)
    (ids : List Int64) : Prop :=
  Registered schema models ∧ Typed schema models D
    ∧ Interprets ((onTables schema).provider 0) (fun w => w) (Named schema models)
    ∧ m ∈ models ∧ (∀ id ∈ ids, Occurs D m id)
    ∧ ¬ RemovesClosure Unit (onTables schema) 0 (fun w => w) models D m ids

theorem fallsShort_alone {schema : Schema} {id : Int64} (registered : Registered schema models)
    (typed : Typed schema models D) (known : m ∈ models) (occurs : Occurs D m id)
    (free : ∀ table column, Named schema models table column →
      Sql.MarkFree table ∧ Sql.MarkFree column)
    (alone : (references schema models m).filter (·.onDelete = .cascade) = [])
    (misses : (∀ key, key = (m.root.table, id) ↔ Doomed schema models D m [id] key) →
      ¬ Removed schema models D [(m.root.table, id)]
        (D.run (commandsFor schema models m [id] [] m.chain))) :
    FallsShort schema models D m [id] := by
  refine ⟨registered, typed, database_interprets .sqlite _, known, occurs_alone occurs, ?_⟩
  intro closure
  obtain ⟨doomed, removed⟩ := closure_alone registered free known id alone closure
  exact misses doomed removed

def authorRef : ModelRef := ⟨"Author"⟩

def author : EntityModel where
  own :=
    { path := "Author"
      table := "author"
      primaryKey := "id"
      columns := [Column.generatedKey "id"] }

def authors : Schema := ⟨fun _ => author⟩

def confusedBook : EntityModel where
  own :=
    { path := "Book"
      table := "book"
      primaryKey := "id"
      columns := [Column.generatedKey "id", .many "author_id" authorRef "book_author",
        .relation "author_id" "author" authorRef .cascade] }

def obscureBook : EntityModel where
  own :=
    { path := "Book"
      table := "book"
      primaryKey := "id"
      columns := [Column.generatedKey "id", .relation "author_id" "authors" authorRef .noAction,
        .many "authors" authorRef "book_author"] }

def editor : EntityModel where
  own :=
    { path := "Editor"
      table := "editor"
      primaryKey := "author_id"
      columns := [Column.relation "author_id" "author" authorRef .setNull] }
  above := [author.own]

def libraryRows : Tables
  | "author" => [cells [("id", .int 1)]]
  | "book" => [cells [("id", .int 7), ("author_id", .int 1)]]
  | "book_author" => [cells [("book_id", .int 7), ("author_id", .int 1)]]
  | "editor" => [cells [("author_id", .int 1)]]
  | _ => []

def person : EntityModel where
  own :=
    { path := "Person"
      table := "person"
      primaryKey := "id"
      columns := [Column.generatedKey "id"] }

def employee : EntityModel where
  own :=
    { path := "Employee"
      table := "employee"
      primaryKey := "person_id"
      columns := [Column.inheritedKey "person_id", .many "skills" ⟨"Skill"⟩ "employee_skill"] }
  above := [person.own]

def customer : EntityModel where
  own :=
    { path := "Customer"
      table := "customer"
      primaryKey := "person_id"
      columns := [Column.inheritedKey "person_id"] }
  above := [person.own]

def skill : EntityModel where
  own :=
    { path := "Skill"
      table := "skill"
      primaryKey := "id"
      columns := [Column.generatedKey "id"] }

def skills : Schema := ⟨fun _ => skill⟩

def strayRows : Tables
  | "person" => [cells [("id", .int 1)]]
  | "customer" => [cells [("person_id", .int 1)]]
  | "skill" => [cells [("id", .int 3)]]
  | "employee_skill" => [cells [("employee_id", .int 1), ("skill_id", .int 3)]]
  | _ => []

def scribe : EntityModel where
  own :=
    { path := "Scribe"
      table := "scr\x01ibe"
      primaryKey := "id"
      columns := [Column.generatedKey "id"] }

def scribes : Schema := ⟨fun _ => scribe⟩

def scribeRows : Tables
  | "scr\x01ibe" => [cells [("id", .int 1)]]
  | _ => []

set_option maxRecDepth 4000

private theorem confusedBook_fallsShort :
    FallsShort authors [author, confusedBook] libraryRows author [1] := by
  refine fallsShort_alone (by decide) (by decide) (by decide) (by decide)
    (markFree_of_named (by decide) (by decide)) (by decide) ?_
  intro doomed removed
  have goes : Doomed authors [author, confusedBook] libraryRows author [1] ("book", 7) := by
    refine .cascades confusedBook (.relation "author_id" "author" authorRef .cascade) authorRef
      ⟨by decide, by decide, _, rfl⟩ (cells [("id", .int 7), ("author_id", .int 1)])
      List.mem_cons_self 7 1 rfl rfl (.given 1 List.mem_cons_self)
  have handled := (doomed _).2 goes
  revert handled
  decide

/-- The link stays behind, for its table is not found. -/
theorem obscureBook_fallsShort :
    FallsShort authors [author, obscureBook] libraryRows author [1] := by
  refine fallsShort_alone (by decide) (by decide) (by decide) (by decide)
    (markFree_of_named (by decide) (by decide)) (by decide) ?_
  intro doomed removed
  have link : Links authors [author, obscureBook]
      (.between "book_author" "authors" obscureBook author) := links_iff.2 (by decide)
  have noLinks : linkDeletions authors [author, obscureBook] author [1] = [] := by decide
  have noneBelow : descendants [author, obscureBook] author = [] := by decide
  have commands : commandsFor authors [author, obscureBook] author [1] [] author.chain =
      [.delete "author" "id" [1]] := by
    rw [commandsFor, noLinks, deletionsBelow, noneBelow, List.mergeSort_nil]
    rfl
  have left := congrArg List.length (removed.links _ link)
  rw [commands] at left
  revert left
  decide

private theorem editor_fallsShort : FallsShort authors [author, editor] libraryRows author [1] := by
  refine fallsShort_alone (by decide) (by decide) (by decide) (by decide)
    (markFree_of_named (by decide) (by decide)) (by decide) ?_
  intro doomed removed
  have below : descendants [author, editor] author = [editor] := by decide
  have commands : commandsFor authors [author, editor] author [1] [] author.chain =
      [.setNull "editor" "author_id" [1], .delete "editor" "author_id" [1],
        .delete "author" "id" [1]] := by
    rw [commandsFor, deletionsBelow, below, List.mergeSort_singleton]
    rfl
  have left := congrArg List.length (removed.levels editor (by decide))
  rw [commands] at left
  revert left
  decide

/-- The stray link stays behind, for customers have no skills. -/
theorem strayRows_fallShort :
    FallsShort skills [person, employee, customer, skill] strayRows customer [1] := by
  refine fallsShort_alone (by decide) (by decide) (by decide) (by decide)
    (markFree_of_named (by decide) (by decide)) (by decide) ?_
  intro doomed removed
  have link : Links skills [person, employee, customer, skill]
      (.between "employee_skill" "skills" employee skill) := links_iff.2 (by decide)
  have noneBelow : descendants [person, employee, customer, skill] customer = [] := by decide
  have commands :
      commandsFor skills [person, employee, customer, skill] customer [1] [] customer.chain =
        [.delete "customer" "person_id" [1], .delete "person" "id" [1]] := by
    rw [commandsFor, deletionsBelow, noneBelow, List.mergeSort_nil]
    rfl
  have left := congrArg List.length (removed.links _ link)
  rw [commands] at left
  revert left
  decide

/-- The removal fails, for the mark swallows the placeholder of the id. -/
theorem scribe_fallsShort : FallsShort scribes [scribe] scribeRows scribe [1] := by
  have registered : Registered scribes [scribe] := by decide
  refine ⟨registered, by decide, database_interprets .sqlite _, by decide,
    occurs_alone (by decide), ?_⟩
  intro closure
  obtain ⟨n, gone, after, runs, -⟩ := closure { outside := scribeRows } rfl
  obtain ⟨depth, bound⟩ : ∃ depth, depthBound [scribe] = depth + 1 := ⟨_, rfl⟩
  have noneBelow : deleteBelow .sqlite [scribe] scribe [1] = [] := by
    have noLevels : descendants [scribe] scribe = [] := by decide
    rw [deleteBelow, noLevels, List.mergeSort_nil]
    rfl
  have begins : (remove (onTables scribes) 0 [scribe] (depth + 1) scribe [1] [] :
      Attempt Tables Unit _).run.run { outside := scribeRows } =
        (do
          Storage.executeAll (onTables scribes) 0 (deleteBelow .sqlite [scribe] scribe [1])
          let deleted ← deleteLevels (onTables scribes) 0 scribe [1]
          return (deleted, [(scribe.table, 1)]) : Attempt Tables Unit _).run.run
            { outside := scribeRows } := rfl
  obtain ⟨e, left, fails⟩ : ∃ e left,
      (deleteLevels (onTables scribes) 0 scribe [1] : Attempt Tables Unit _).run.run
        { outside := scribeRows } = (.error e, left) := ⟨_, _, rfl⟩
  rw [noneBelow, runs (depth + 1) (Nat.le_of_eq bound)] at begins
  have fell : (do
      let deleted ← deleteLevels (onTables scribes) 0 scribe [1]
      return (deleted, [(scribe.table, 1)]) : Attempt Tables Unit (Nat × List RowKey)).run.run
        { outside := scribeRows } = (.error e, left) := Attempt.run_bind_error fails
  have ended := begins.trans fell
  cases ended

/-- Each of these models and contents stands between a removal and the closure of the cascades. -/
theorem removal_falls_short :
    FallsShort authors [author, confusedBook] libraryRows author [1]
      ∧ FallsShort authors [author, obscureBook] libraryRows author [1]
      ∧ FallsShort authors [author, editor] libraryRows author [1]
      ∧ FallsShort skills [person, employee, customer, skill] strayRows customer [1]
      ∧ FallsShort scribes [scribe] scribeRows scribe [1] :=
  ⟨confusedBook_fallsShort, obscureBook_fallsShort, editor_fallsShort, strayRows_fallShort,
    scribe_fallsShort⟩

end Removal

end EntityStore
