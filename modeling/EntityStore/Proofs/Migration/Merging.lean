import EntityStore.Migration.Provider
import EntityStore.Proofs.Transaction.Participants
import Mathlib.Data.List.Induction
import Mathlib.Data.List.Nodup
import Mathlib.Logic.Function.Basic

/-!
Merged declarations of properties. A table is seen as what is stored behind each of its column
names, and a declaration as the change of such a table that its ALTER statement makes. A plan merges
the declarations about one name; the statements that it leads to make the same table as the
declarations one by one, as long as no name is declared twice except to be added and then removed.
-/

namespace EntityStore.Migration

open Sql (Dialect Template plainTemplate)

variable {σ ε δ : Type}

abbrev Columns (δ : Type) := String → Option δ

namespace Columns

variable {columns after : Columns δ} {name target : String} {data : δ}

def without (columns : Columns δ) (name : String) : Columns δ :=
  Function.update columns name none

def add (columns : Columns δ) (name : String) (data : δ) : Option (Columns δ) :=
  if columns name = none then some (Function.update columns name (some data)) else none

def take (columns : Columns δ) (name : String) : Option (δ × Columns δ) :=
  (columns name).map fun data => (data, columns.without name)

theorem add_eq_some :
    columns.add name data = some after ↔
      columns name = none ∧ Function.update columns name (some data) = after := by
  simp [add]

theorem take_eq_some :
    columns.take name = some (data, after) ↔
      columns name = some data ∧ columns.without name = after := by
  cases found : columns name <;> simp [take, found]

theorem without_ne (apart : target ≠ name) : columns.without name target = columns target :=
  Function.update_of_ne apart _ _

private theorem without_of_absent (absent : columns name = none) : columns.without name = columns :=
  Function.update_eq_self_iff.2 absent.symm

theorem add_absent (apart : target ≠ name) (added : columns.add target data = some after)
    (absent : columns name = none) : after name = none := by
  obtain ⟨-, rfl⟩ := add_eq_some.1 added
  rwa [Function.update_of_ne apart.symm]

theorem without_absent (absent : columns name = none) : columns.without target name = none := by
  by_cases same : name = target
  · rw [same, without, Function.update_self]
  · rwa [without, Function.update_of_ne same]

private theorem add_without (apart : target ≠ name) (added : columns.add target data = some after) :
    (columns.without name).add target data = some (after.without name) := by
  obtain ⟨absent, rfl⟩ := add_eq_some.1 added
  refine add_eq_some.2 ⟨?_, Function.update_comm apart.symm _ _ _⟩
  rwa [without_ne apart]

private theorem take_without (apart : target ≠ name)
    (taken : columns.take target = some (data, after)) :
    (columns.without name).take target = some (data, after.without name) := by
  obtain ⟨found, rfl⟩ := take_eq_some.1 taken
  refine take_eq_some.2 ⟨?_, Function.update_comm apart.symm _ _ _⟩
  rwa [without_ne apart]

end Columns

def keyOptions : PropertyOptions :=
  { primary := true, autoIncrement := true }

namespace PropertyDeclaration

variable {fresh : SqlType → PropertyOptions → δ} {columns after : Columns δ} {name : String}
variable {d : PropertyDeclaration} {ds : List PropertyDeclaration}

/-- What a declaration does to a table, or nothing where it cannot be carried out. The data of a new
column depend on its type and options only. -/
def step (fresh : SqlType → PropertyOptions → δ) (columns : Columns δ) :
    PropertyDeclaration → Option (Columns δ)
  | add name type options => columns.add name (fresh type options)
  | addPrimary name => columns.add name (fresh .bigInt keyOptions)
  | rename old new =>
    if columns new = none then (columns.take old).bind fun taken => taken.2.add new taken.1
    else none
  | remove name => (columns.take name).map Prod.snd

theorem step_rename {old new : String} :
    (rename old new).step fresh columns = some after ↔
      columns new = none ∧
        ∃ data rest, columns.take old = some (data, rest) ∧ rest.add new data = some after := by
  simp [step, Option.bind_eq_some_iff]

theorem step_remove :
    (remove name).step fresh columns = some after ↔ ∃ data, columns.take name = some (data, after) := by
  simp [step]

private theorem step_absent (apart : d.target ≠ name) (done : d.step fresh columns = some after)
    (absent : columns name = none) : after name = none := by
  cases d with
  | add target type options => exact Columns.add_absent apart done absent
  | addPrimary target => exact Columns.add_absent apart done absent
  | rename old new =>
      obtain ⟨-, data, rest, taken, put⟩ := step_rename.1 done
      obtain ⟨-, rfl⟩ := Columns.take_eq_some.1 taken
      exact Columns.add_absent apart put (Columns.without_absent absent)
  | remove target =>
      obtain ⟨data, taken⟩ := step_remove.1 done
      obtain ⟨-, rfl⟩ := Columns.take_eq_some.1 taken
      exact Columns.without_absent absent

/-- Where a column outlives a declaration about another name, the declaration does not use it. -/
theorem step_without (apart : d.target ≠ name) (done : d.step fresh columns = some after)
    (there : after name ≠ none) :
    d.step fresh (columns.without name) = some (after.without name) := by
  cases d with
  | add target type options => exact Columns.add_without apart done
  | addPrimary target => exact Columns.add_without apart done
  | rename old new =>
      obtain ⟨absent, data, rest, taken, put⟩ := step_rename.1 done
      -- What is renamed is gone afterwards, as its name is not the new one.
      have kept : old ≠ name := by
        rintro rfl
        obtain ⟨-, rfl⟩ := Columns.take_eq_some.1 taken
        exact there (Columns.add_absent apart put (Function.update_self ..))
      have free : columns.without name new = none := Columns.without_absent absent
      exact step_rename.2
        ⟨free, data, _, Columns.take_without kept taken, Columns.add_without apart put⟩
  | remove target =>
      obtain ⟨data, taken⟩ := step_remove.1 done
      exact step_remove.2 ⟨data, Columns.take_without apart taken⟩

def run (fresh : SqlType → PropertyOptions → δ) (ds : List PropertyDeclaration)
    (columns : Columns δ) : Option (Columns δ) :=
  ds.foldlM (step fresh) columns

@[simp]
theorem run_nil : run fresh [] columns = some columns :=
  rfl

private theorem run_cons :
    run fresh (d :: ds) columns = (d.step fresh columns).bind (run fresh ds) :=
  rfl

private theorem run_single : run fresh [d] columns = d.step fresh columns := by
  simp [run]

theorem run_append (first second : List PropertyDeclaration) :
    run fresh (first ++ second) columns = (run fresh first columns).bind (run fresh second) :=
  List.foldlM_append

private theorem run_absent (apart : ∀ d ∈ ds, d.target ≠ name)
    (done : run fresh ds columns = some after)
    (absent : columns name = none) : after name = none := by
  induction ds generalizing columns with
  | nil =>
      cases done
      exact absent
  | cons d rest ih =>
      obtain ⟨mid, first, later⟩ := Option.bind_eq_some_iff.1 done
      exact ih (fun e inside => apart e (List.mem_cons_of_mem d inside)) later
        (step_absent (apart d List.mem_cons_self) first absent)

private theorem run_without (apart : ∀ d ∈ ds, d.target ≠ name)
    (done : run fresh ds columns = some after)
    (there : after name ≠ none) :
    run fresh ds (columns.without name) = some (after.without name) := by
  induction ds generalizing columns with
  | nil =>
      cases done
      rfl
  | cons d rest ih =>
      obtain ⟨mid, first, later⟩ := Option.bind_eq_some_iff.1 done
      have apartLater := fun e inside => apart e (List.mem_cons_of_mem d inside)
      have stays : mid name ≠ none := fun absent => there (run_absent apartLater later absent)
      rw [run_cons, step_without (apart d List.mem_cons_self) first stays]
      exact ih apartLater later

/-- An addition is of no use to declarations about other names whose table still has the column: they
can do without it, and leave the table without it. -/
theorem run_without_added {earlier later : List PropertyDeclaration} {type : SqlType}
    {options : PropertyOptions} (apart : ∀ d ∈ later, d.target ≠ name)
    (done : run fresh (earlier ++ add name type options :: later) columns = some after)
    (there : after name ≠ none) :
    run fresh (earlier ++ later) columns = some (after.without name) := by
  rw [run_append] at done ⊢
  obtain ⟨mid, first, rest⟩ := Option.bind_eq_some_iff.1 done
  obtain ⟨next, added, rest⟩ := Option.bind_eq_some_iff.1 rest
  obtain ⟨absent, rfl⟩ := Columns.add_eq_some.1 added
  have same : Columns.without (Function.update mid name (some (fresh type options))) name = mid := by
    rw [Columns.without, Function.update_idem, ← Columns.without, Columns.without_of_absent absent]
  rw [first, Option.bind_some, ← same]
  exact run_without apart rest there

end PropertyDeclaration

namespace PropertyChange

variable {p : PropertyChange} {d : PropertyDeclaration}

/-- The declaration that asks by itself for what is to happen to a property. -/
def pending? (p : PropertyChange) : Option PropertyDeclaration :=
  match p.action? with
  | none => none
  | some .create => p.type?.map fun type => .add p.name type p.options
  | some .update => p.renamedFrom?.map fun old => .rename old p.name
  | some .delete => some (.remove p.name)

structure Formed (p : PropertyChange) : Prop where
  typed : p.action? = some .create → p.type?.isSome
  named : p.action? = some .update → p.renamedFrom?.isSome

@[simp]
theorem apply_name (p : PropertyChange) (d : PropertyDeclaration) : (d.apply p).name = p.name := by
  cases d <;> rfl

private theorem merge_eq_some {current? : Option Action} {next action : Action}
    (merged : Action.merge current? next = some action) :
    current? = some action ∨ action = next := by
  cases current? with
  | none => exact Or.inr (Option.some.inj merged).symm
  | some current =>
      cases current <;> cases next <;> simp_all [Action.merge]

private theorem Formed.apply (formed : p.Formed) (d : PropertyDeclaration) : (d.apply p).Formed := by
  cases d with
  | add target type options =>
      constructor
      · exact fun _ => rfl
      · exact fun updated => formed.named ((merge_eq_some updated).resolve_right (by decide))
  | addPrimary target =>
      constructor
      · exact fun _ => rfl
      · exact fun updated => formed.named ((merge_eq_some updated).resolve_right (by decide))
  | rename old new =>
      constructor
      · exact fun created => formed.typed ((merge_eq_some created).resolve_right (by decide))
      · exact fun _ => rfl
  | remove target =>
      constructor
      · exact fun created => formed.typed ((merge_eq_some created).resolve_right (by decide))
      · exact fun updated => formed.named ((merge_eq_some updated).resolve_right (by decide))

private theorem formed_new (name : String) : Formed { name } := by
  constructor <;> intro absurd <;> cases absurd

private theorem pending_single (d : PropertyDeclaration) :
    ∃ e, (d.apply { name := d.target }).pending? = some e ∧ e.target = d.target ∧
      ∀ {δ : Type} (fresh : SqlType → PropertyOptions → δ) columns,
        e.step fresh columns = d.step fresh columns := by
  cases d with
  | add target type options => exact ⟨.add target type options, rfl, rfl, fun _ _ => rfl⟩
  | addPrimary target => exact ⟨.add target .bigInt keyOptions, rfl, rfl, fun _ _ => rfl⟩
  | rename old new => exact ⟨.rename old new, rfl, rfl, fun _ _ => rfl⟩
  | remove target => exact ⟨.remove target, rfl, rfl, fun _ _ => rfl⟩

private theorem pending_target {e : PropertyDeclaration} (asked : p.pending? = some e) :
    e.target = p.name := by
  unfold pending? at asked
  split at asked
  · cases asked
  · obtain ⟨type, -, rfl⟩ := Option.map_eq_some_iff.1 asked
    rfl
  · obtain ⟨old, -, rfl⟩ := Option.map_eq_some_iff.1 asked
    rfl
  · cases asked
    rfl

end PropertyChange

namespace ModelChange

variable {name : String} {change : PropertyChange → PropertyChange} {ps : List PropertyChange}

def alterations (m : ModelChange) : List PropertyDeclaration :=
  m.properties.filterMap PropertyChange.pending?

private theorem changeProperty_new (absent : name ∉ ps.map PropertyChange.name) :
    changeProperty name change ps = ps ++ [change { name }] := by
  induction ps with
  | nil => rfl
  | cons p rest ih =>
      simp only [List.map_cons, List.mem_cons, not_or] at absent
      rw [changeProperty, if_neg (Ne.symm absent.1), ih absent.2]
      rfl

private theorem changeProperty_known (known : name ∈ ps.map PropertyChange.name) :
    ∃ before p after, ps = before ++ p :: after ∧ p.name = name ∧
      changeProperty name change ps = before ++ change p :: after := by
  induction ps with
  | nil => cases known
  | cons p rest ih =>
      by_cases same : p.name = name
      · exact ⟨[], p, rest, rfl, same, if_pos same⟩
      · have later : name ∈ rest.map PropertyChange.name := by
          simpa [Ne.symm same] using known
        obtain ⟨before, q, after, rfl, named, changed⟩ := ih later
        refine ⟨p :: before, q, after, rfl, named, ?_⟩
        rw [changeProperty, if_neg same, changed]
        rfl

end ModelChange

namespace PropertyDeclaration

variable {ds : List PropertyDeclaration} {d : PropertyDeclaration} {p : PropertyChange}

def adds : PropertyDeclaration → Bool
  | add .. | addPrimary _ => true
  | rename .. | remove _ => false

def removes : PropertyDeclaration → Bool
  | remove _ => true
  | add .. | addPrimary _ | rename .. => false

/-- No name is declared twice, unless it is added and then removed. -/
def DeclaredOnce (ds : List PropertyDeclaration) : Prop :=
  ds.Pairwise fun earlier later =>
    earlier.target = later.target → earlier.adds ∧ later.removes

def merged (ds : List PropertyDeclaration) : List PropertyChange :=
  ds.foldl (fun ps d => ModelChange.changeProperty d.target d.apply ps) []

theorem merged_snoc (ds : List PropertyDeclaration) (d : PropertyDeclaration) :
    merged (ds ++ [d]) = ModelChange.changeProperty d.target d.apply (merged ds) := by
  simp [merged]

/-- A declaration of a new name is appended, and one of a known name changes its property, whose
place and name stay. -/
theorem merged_cases (ds : List PropertyDeclaration) (d : PropertyDeclaration) :
    (d.target ∉ (merged ds).map PropertyChange.name ∧
        merged (ds ++ [d]) = merged ds ++ [d.apply { name := d.target }]) ∨
      ∃ before p after, merged ds = before ++ p :: after ∧ p.name = d.target ∧
        merged (ds ++ [d]) = before ++ d.apply p :: after := by
  rw [merged_snoc]
  by_cases known : d.target ∈ (merged ds).map PropertyChange.name
  · exact Or.inr (ModelChange.changeProperty_known known)
  · exact Or.inl ⟨known, ModelChange.changeProperty_new known⟩

private theorem merged_names_nodup (ds : List PropertyDeclaration) :
    ((merged ds).map PropertyChange.name).Nodup := by
  induction ds using List.reverseRecOn with
  | nil => exact List.nodup_nil
  | append_singleton ds d ih =>
      rcases merged_cases ds d with ⟨new, same⟩ | ⟨before, p, after, was, -, same⟩
      · rw [same, List.map_append, List.map_singleton, PropertyChange.apply_name,
          ← List.concat_eq_append]
        exact ih.concat new
      · rw [was] at ih
        simpa [same] using ih

theorem mem_merged_snoc (inside : p ∈ merged (ds ++ [d])) :
    p ∈ merged ds ∨ p = d.apply { name := d.target } ∨
      ∃ q ∈ merged ds, q.name = d.target ∧ p = d.apply q := by
  rcases merged_cases ds d with ⟨-, same⟩ | ⟨before, q, after, was, named, same⟩
  · rw [same, List.mem_append, List.mem_singleton] at inside
    exact inside.imp_right Or.inl
  · rw [same, List.mem_append, List.mem_cons] at inside
    rw [was]
    rcases inside with old | rfl | old
    · exact Or.inl (List.mem_append_left _ old)
    · exact Or.inr (Or.inr ⟨q, by simp, named, rfl⟩)
    · exact Or.inl (by simp [old])

private theorem merged_formed (ds : List PropertyDeclaration) : ∀ p ∈ merged ds, p.Formed := by
  induction ds using List.reverseRecOn with
  | nil => exact fun p absurd => nomatch absurd
  | append_singleton ds d ih =>
      intro p inside
      rcases mem_merged_snoc inside with old | rfl | ⟨q, old, -, rfl⟩
      · exact ih p old
      · exact (PropertyChange.formed_new d.target).apply d
      · exact (ih q old).apply d

theorem added_then_removed {e : PropertyDeclaration} (adds : e.adds) (removes : d.removes)
    (name : String) : (d.apply (e.apply { name })).action? = none := by
  cases e <;> cases adds <;> cases d <;> cases removes <;> rfl

def Originates (ds : List PropertyDeclaration) (p : PropertyChange) : Prop :=
  (∃ e ∈ ds, e.target = p.name ∧ p = e.apply { name := e.target }) ∨
    p.action? = none ∧ ∃ e ∈ ds, e.target = p.name ∧ e.removes

private theorem Originates.snoc (origin : Originates ds p) : Originates (ds ++ [d]) p := by
  rcases origin with ⟨e, first, made⟩ | ⟨gone, e, first, same⟩
  · exact Or.inl ⟨e, List.mem_append_left _ first, made⟩
  · exact Or.inr ⟨gone, e, List.mem_append_left _ first, same⟩

theorem Originates.repeated (origin : Originates ds p) (once : DeclaredOnce (ds ++ [d]))
    (named : p.name = d.target) :
    d.removes ∧ ∃ e : PropertyDeclaration, e.adds ∧ p = e.apply { name := e.target } := by
  have between := (List.pairwise_append.1 once).2.2
  rcases origin with ⟨e, first, same, made⟩ | ⟨-, e, first, same, removes⟩
  · obtain ⟨adds, removes⟩ := between e first d (by simp) (same.trans named)
    exact ⟨removes, e, adds, made⟩
  · obtain ⟨adds, -⟩ := between e first d (by simp) (same.trans named)
    cases e <;> cases removes
    cases adds

private theorem merged_origin (once : DeclaredOnce ds) (inside : p ∈ merged ds) : Originates ds p := by
  induction ds using List.reverseRecOn generalizing p with
  | nil => cases inside
  | append_singleton ds d ih =>
      have earlier {q} (old : q ∈ merged ds) : Originates ds q :=
        ih (List.pairwise_append.1 once).1 old
      rcases mem_merged_snoc inside with old | rfl | ⟨q, old, named, rfl⟩
      · exact (earlier old).snoc
      · exact Or.inl ⟨d, by simp, by simp, rfl⟩
      · obtain ⟨removes, e, adds, rfl⟩ := (earlier old).repeated once named
        exact Or.inr ⟨added_then_removed adds removes _, d, by simp, by simpa using named.symm, removes⟩

private theorem pending_added {e : PropertyDeclaration} (adds : e.adds) :
    ∃ type options, (e.apply { name := e.target }).pending? = some (.add e.target type options) := by
  cases e with
  | add name type options => exact ⟨type, options, rfl⟩
  | addPrimary name => exact ⟨.bigInt, keyOptions, rfl⟩
  | rename old new => cases adds
  | remove name => cases adds

/-- Where a property is added and removed in the end, nothing is to be done for it. -/
theorem run_cancelled {fresh : SqlType → PropertyOptions → δ} {columns mid after : Columns δ}
    {before later : List PropertyChange} {type : SqlType} {options : PropertyOptions}
    (apart : ∀ q ∈ later, q.name ≠ p.name)
    (asked : p.pending? = some (.add p.name type options))
    (done : run fresh ((before ++ p :: later).filterMap PropertyChange.pending?) columns = some mid)
    (removed : (remove p.name).step fresh mid = some after) :
    run fresh ((before ++ later).filterMap PropertyChange.pending?) columns = some after := by
  obtain ⟨data, taken⟩ := step_remove.1 removed
  obtain ⟨found, rfl⟩ := Columns.take_eq_some.1 taken
  rw [List.filterMap_append, List.filterMap_cons_some asked] at done
  rw [List.filterMap_append]
  refine run_without_added ?_ done (by simp [found])
  intro e inside
  obtain ⟨q, present, asks⟩ := List.mem_filterMap.1 inside
  rw [PropertyChange.pending_target asks]
  exact apart q present

/-- The declarations that stand for the properties after merging do what the merged ones do. -/
theorem run_merged {fresh : SqlType → PropertyOptions → δ} {columns after : Columns δ}
    (once : DeclaredOnce ds) (done : run fresh ds columns = some after) :
    run fresh ((merged ds).filterMap PropertyChange.pending?) columns = some after := by
  -- By the last declaration. A new name is one step more at the end; a known one takes back the
  -- step that added it, however many steps came between.
  induction ds using List.reverseRecOn generalizing after with
  | nil => exact done
  | append_singleton ds d ih =>
      rw [run_append] at done
      obtain ⟨mid, first, last⟩ := Option.bind_eq_some_iff.1 done
      rw [run_single] at last
      have onceBefore := (List.pairwise_append.1 once).1
      have merging := ih onceBefore first
      rcases merged_cases ds d with ⟨-, same⟩ | ⟨before, p, later, was, named, same⟩
      · obtain ⟨e, asked, -, alike⟩ := PropertyChange.pending_single d
        rw [same, List.filterMap_append, run_append, merging, Option.bind_some,
          List.filterMap_cons_some asked, List.filterMap_nil, run_single, alike, last]
      · obtain ⟨removes, e, adds, rfl⟩ :=
          (merged_origin onceBefore (by simp [was])).repeated once named
        obtain ⟨type, options, asked⟩ := pending_added adds
        have cancelled : (d.apply (e.apply { name := e.target })).pending? = none := by
          rw [PropertyChange.pending?, added_then_removed adds removes]
        have nodup := merged_names_nodup ds
        rw [was, List.map_append, List.map_cons, List.nodup_append, List.nodup_cons] at nodup
        have apart : ∀ q ∈ later, q.name ≠ (e.apply { name := e.target }).name := by
          intro q inside same
          exact nodup.2.1.1 (same ▸ List.mem_map_of_mem inside)
        rw [was] at merging
        rw [same, List.filterMap_append, List.filterMap_cons_none cancelled,
          ← List.filterMap_append]
        refine run_cancelled apart (by simpa using asked) merging ?_
        rw [named]
        cases d with
        | remove name => exact last
        | add name type options => cases removes
        | addPrimary name => cases removes
        | rename old new => cases removes

end PropertyDeclaration

namespace PropertyDeclaration

def definition (d : Dialect) (name : String) (type : SqlType) (options : PropertyOptions) : String :=
  (PropertyChange.definition? d { name, type? := some type, options }).getD ""

def alter (d : Dialect) (table : String) : PropertyDeclaration → Template
  | add name type options => plainTemplate d (d.addColumn table (definition d name type options))
  | addPrimary name => plainTemplate d (d.addColumn table (definition d name .bigInt keyOptions))
  | rename old new => plainTemplate d (d.renameColumn table old new)
  | remove name => plainTemplate d (d.dropColumn table name)

end PropertyDeclaration

namespace PropertyChange

variable {p : PropertyChange}

private theorem definition?_of_type (d : Dialect) {type : SqlType} (typed : p.type? = some type) :
    p.definition? d = some (PropertyDeclaration.definition d p.name type p.options) := by
  have same : p.definition? d =
      PropertyChange.definition? d { name := p.name, type? := some type, options := p.options } := by
    simp only [definition?, column?, typed]
  rw [same, PropertyDeclaration.definition]
  cases given : p.options.default? <;>
    simp [definition?, column?, Sql.columnDefinition?, Column.sqlType?, given]

/-- What is to happen to a property is carried out by the statement of the declaration for it. -/
theorem alteration_eq (d : Dialect) (table : String) (formed : p.Formed) :
    p.alteration d table = .ok (p.pending?.toList.map (PropertyDeclaration.alter d table)) := by
  unfold alteration pending?
  cases action : p.action? with
  | none => rfl
  | some action' =>
      cases action' with
      | create =>
          obtain ⟨type, typed⟩ := Option.isSome_iff_exists.1 (formed.typed action)
          simp only [definition?_of_type d typed, typed]
          rfl
      | update =>
          obtain ⟨old, named⟩ := Option.isSome_iff_exists.1 (formed.named action)
          simp only [named]
          rfl
      | delete => rfl

end PropertyChange

namespace StorageProvider

variable (env : Setting σ) (i : StorageId)

theorem executeAll_append (first second : List Template) :
    (Storage.executeAll env i (first ++ second) : Attempt σ ε Unit) =
      (do Storage.executeAll env i first; Storage.executeAll env i second) := by
  simp [Storage.executeAll, List.forM_append]

/-- The properties are altered by the statements of the declarations that stand for them. -/
theorem alterations_executed (d : Dialect) (table : String) (ps : List PropertyChange)
    (formed : ∀ p ∈ ps, p.Formed) :
    ((ps.filter PropertyChange.isPending).forM (fun p => do
        Storage.executeAll env i (← Attempt.ofExcept (p.alteration d table)) : _ → Attempt σ ε Unit)) =
      Storage.executeAll env i
        ((ps.filterMap PropertyChange.pending?).map (PropertyDeclaration.alter d table)) := by
  induction ps with
  | nil => rfl
  | cons p rest ih =>
      have later := ih fun q inside => formed q (List.mem_cons_of_mem p inside)
      by_cases pending : p.isPending
      · have split : (p :: rest).filterMap PropertyChange.pending? =
            p.pending?.toList ++ rest.filterMap PropertyChange.pending? := by
          cases asked : p.pending? <;> simp [asked]
        rw [List.filter_cons_of_pos pending, List.forM, later, split, List.map_append,
          executeAll_append, PropertyChange.alteration_eq d table (formed p List.mem_cons_self)]
        rfl
      · have asked : p.pending? = none := by
          have still : p.action? = none := by simpa [PropertyChange.isPending] using pending
          rw [PropertyChange.pending?, still]
        rw [List.filter_cons_of_neg pending, List.filterMap_cons_none asked, later]

private theorem applyProperties_eq (m : ModelChange) (formed : ∀ p ∈ m.properties, p.Formed) :
    (applyProperties env i m : Attempt σ ε Unit) =
      Storage.executeAll env i
        (m.alterations.map (PropertyDeclaration.alter (Storage.dialect env i) m.table) ++
          m.propertyIndexes (Storage.dialect env i)) := by
  rw [executeAll_append, ModelChange.alterations, ← alterations_executed env i _ _ _ formed]
  rfl

end StorageProvider

namespace Plan

variable {ds : List Declaration} {d : Declaration} {m : ModelChange}

def declared (model : EntityModel) (ds : List Declaration) : List PropertyDeclaration :=
  (ds.filter fun d => d.model.path = model.path).flatMap Declaration.properties

theorem declared_snoc_same {model : EntityModel} (same : d.model.path = model.path) :
    declared model (ds ++ [d]) = declared model ds ++ d.properties := by
  simp [declared, same]

private theorem declared_snoc_other {model : EntityModel} (other : d.model.path ≠ model.path) :
    declared model (ds ++ [d]) = declared model ds := by
  simp [declared, other]

theorem apply_model (d : Declaration) (m : ModelChange) : (d.apply m).model = m.model := by
  have kept (ps : List PropertyDeclaration) (m : ModelChange) :
      (ps.foldl ModelChange.declareProperty m).model = m.model := by
    induction ps generalizing m with
    | nil => rfl
    | cons p rest ih => exact ih _
  rw [Declaration.apply, kept]
  cases d.request <;> rfl

theorem apply_properties (d : Declaration) {ps : List PropertyDeclaration}
    (known : m.properties = PropertyDeclaration.merged ps) :
    (d.apply m).properties = PropertyDeclaration.merged (ps ++ d.properties) := by
  have requested : (Declaration.applyRequest m d.request).properties = m.properties := by
    cases d.request <;> rfl
  rw [← requested] at known
  rw [Declaration.apply]
  generalize Declaration.applyRequest m d.request = m' at known
  induction d.properties using List.reverseRecOn with
  | nil => simpa using known
  | append_singleton qs q ih =>
      rw [List.foldl_append, ← List.append_assoc, PropertyDeclaration.merged_snoc, ← ih]
      rfl

/-- A model that is not known yet is appended, and a known one changes in its place. -/
theorem changeModel_cases (model : EntityModel) (change : ModelChange → ModelChange)
    (ms : List ModelChange) :
    (model.path ∉ ms.map ModelChange.path ∧
        changeModel model change ms = ms ++ [change { model }]) ∨
      ∃ before m after, ms = before ++ m :: after ∧ m.path = model.path ∧
        changeModel model change ms = before ++ change m :: after := by
  induction ms with
  | nil => exact Or.inl ⟨List.not_mem_nil, rfl⟩
  | cons first rest ih =>
      by_cases same : first.model.same model
      · exact Or.inr ⟨[], first, rest, rfl, eq_of_beq same, if_pos same⟩
      · have other : first.path ≠ model.path := by
          simpa [EntityModel.same, ModelChange.path] using same
        rw [changeModel, if_neg same]
        rcases ih with ⟨new, changed⟩ | ⟨before, m, after, rfl, known, changed⟩
        · refine Or.inl ⟨?_, by rw [changed, List.cons_append]⟩
          simpa using ⟨other.symm, by simpa using new⟩
        · exact Or.inr ⟨first :: before, m, after, rfl, known, by rw [changed, List.cons_append]⟩

structure Gathers (ds : List Declaration) (ms : List ModelChange) : Prop where
  apart : (ms.map ModelChange.path).Nodup
  complete : ∀ d ∈ ds, d.model.path ∈ ms.map ModelChange.path
  merged : ∀ m ∈ ms, m.properties = PropertyDeclaration.merged (declared m.model ds)

theorem path_apply (d : Declaration) (m : ModelChange) : (d.apply m).path = m.path := by
  rw [ModelChange.path, apply_model, ModelChange.path]

namespace Gathers

variable {ds : List Declaration} {ms before after : List ModelChange} {m : ModelChange}
  {d : Declaration}

theorem others (gathers : Gathers ds ms) (inside : m ∈ ms) (other : m.path ≠ d.model.path) :
    m.properties = PropertyDeclaration.merged (declared m.model (ds ++ [d])) := by
  rw [declared_snoc_other other.symm, gathers.merged m inside]

/-- The first declaration about a model makes it known. -/
theorem added (gathers : Gathers ds ms) (new : d.model.path ∉ ms.map ModelChange.path) :
    Gathers (ds ++ [d]) (ms ++ [d.apply { model := d.model }]) := by
  have fresh : declared d.model ds = [] := by
    have none : ds.filter (fun e => e.model.path = d.model.path) = [] := by
      rw [List.filter_eq_nil_iff]
      intro e inside same
      exact new (of_decide_eq_true same ▸ gathers.complete e inside)
    rw [declared, none, List.flatMap_nil]
  constructor
  · rw [List.map_append, List.map_singleton, path_apply, ← List.concat_eq_append]
    exact gathers.apart.concat new
  · intro e inside
    rcases List.mem_append.1 inside with old | last
    · exact by simp [gathers.complete e old]
    · rw [List.mem_singleton.1 last]
      simp [ModelChange.path, apply_model]
  · intro m' inside
    rcases List.mem_append.1 inside with old | last
    · exact gathers.others old fun same => new (same ▸ List.mem_map_of_mem old)
    · rw [List.mem_singleton.1 last, apply_model, declared_snoc_same rfl, fresh]
      exact apply_properties d rfl

/-- Any later one changes it in its place. -/
theorem changed (gathers : Gathers ds (before ++ m :: after)) (known : m.path = d.model.path) :
    Gathers (ds ++ [d]) (before ++ d.apply m :: after) := by
  have paths : (before ++ d.apply m :: after).map ModelChange.path =
      (before ++ m :: after).map ModelChange.path := by simp [path_apply]
  have apart := gathers.apart
  rw [List.map_append, List.map_cons, List.nodup_append, List.nodup_cons, known] at apart
  obtain ⟨-, ⟨notAfter, -⟩, notBefore⟩ := apart
  constructor
  · rw [paths]
    exact gathers.apart
  · intro e inside
    rw [paths]
    rcases List.mem_append.1 inside with old | last
    · exact gathers.complete e old
    · rw [List.mem_singleton.1 last, ← known]
      simp
  · intro m' inside
    rw [List.mem_append, List.mem_cons] at inside
    rcases inside with old | rfl | old
    · refine gathers.others (by simp [old]) fun same => ?_
      exact notBefore _ (List.mem_map_of_mem old) _ List.mem_cons_self same
    · rw [apply_model, declared_snoc_same known.symm]
      exact apply_properties d (gathers.merged m (by simp))
    · exact gathers.others (by simp [old]) fun same => notAfter (same ▸ List.mem_map_of_mem old)

private theorem snoc (gathers : Gathers ds ms) (d : Declaration) :
    Gathers (ds ++ [d]) (changeModel d.model d.apply ms) := by
  rcases changeModel_cases d.model d.apply ms with
    ⟨new, made⟩ | ⟨before, m, after, rfl, known, made⟩
  · rw [made]
    exact gathers.added new
  · rw [made]
    exact gathers.changed known

end Gathers

theorem gathers_ofDeclarations (ds : List Declaration) : Gathers ds (ofDeclarations ds).models := by
  induction ds using List.reverseRecOn with
  | nil => exact ⟨List.nodup_nil, by simp, by simp [ofDeclarations]⟩
  | append_singleton ds d ih =>
      have same : (ofDeclarations (ds ++ [d])).models =
          changeModel d.model d.apply (ofDeclarations ds).models := by
        simp [ofDeclarations, declare]
      rw [same]
      exact ih.snoc d

end Plan

namespace PropertyDeclaration

/-- The properties of a model of a plan are altered by one statement for each declaration that
stands for one of them, and these make the table that the declarations of the unit make one by one,
wherever those can be carried out. -/
theorem merged_alterations_agree (env : Setting σ) (i : StorageId) (ds : List Declaration)
    (m : ModelChange) (planned : m ∈ (Plan.ofDeclarations ds).models)
    (once : DeclaredOnce (Plan.declared m.model ds)) :
    (StorageProvider.applyProperties env i m : Attempt σ ε Unit) =
        Storage.executeAll env i
          (m.alterations.map (alter (Storage.dialect env i) m.table) ++
            m.propertyIndexes (Storage.dialect env i)) ∧
      ∀ {δ : Type} (fresh : SqlType → PropertyOptions → δ) (columns after : Columns δ),
        run fresh (Plan.declared m.model ds) columns = some after →
          run fresh m.alterations columns = some after := by
  have known := (Plan.gathers_ofDeclarations ds).merged m planned
  constructor
  · apply StorageProvider.applyProperties_eq
    rw [known]
    exact merged_formed _
  · intro δ fresh columns after done
    rw [ModelChange.alterations, known]
    exact run_merged once done

def person : EntityModel where
  own :=
    { path := "Person"
      table := "person"
      primaryKey := "id"
      columns := [Column.generatedKey "id", Column.text "nick" .maxVarChar] }

def passing : List Declaration :=
  [⟨person, .select, [.add "age" .int {}, .rename "nick" "alias"]⟩,
    ⟨person, .select, [.remove "age", .add "mail" .text { nullable := true }]⟩]

def numbered : Columns Nat
  | "id" => some 0
  | "nick" => some 1
  | _ => none

theorem passing_alterations_agree :
    ∃ m ∈ (Plan.ofDeclarations passing).models, DeclaredOnce (Plan.declared m.model passing) ∧
      ∃ after, run (fun _ _ => 2) (Plan.declared m.model passing) numbered = some after ∧
        run (fun _ _ => 2) m.alterations numbered = some after := by
  have once : DeclaredOnce (Plan.declared person passing) := by
    unfold DeclaredOnce
    decide
  refine ⟨_, List.mem_cons_self, once, _, rfl, ?_⟩
  exact (merged_alterations_agree (ε := Unit) Party.scripted 0 passing _ List.mem_cons_self once).2
    _ _ _ rfl

/-- Where a column is renamed and then removed, its new name is removed, which no column has. -/
theorem renamed_then_removed_differs :
    ¬∀ (ds : List Declaration), ∀ m ∈ (Plan.ofDeclarations ds).models,
      ((Plan.declared m.model ds).Pairwise fun earlier later =>
          earlier.target = later.target → ¬earlier.removes) →
        ∀ (columns after : Columns Nat),
          run (fun _ _ => 2) (Plan.declared m.model ds) columns = some after →
            run (fun _ _ => 2) m.alterations columns = some after := by
  intro agree
  have absurd := agree [⟨person, .select, [.rename "nick" "alias", .remove "alias"]⟩] _
    List.mem_cons_self (by decide) numbered _ rfl
  cases absurd

end PropertyDeclaration

end EntityStore.Migration
