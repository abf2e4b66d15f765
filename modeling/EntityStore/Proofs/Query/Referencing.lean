import EntityStore.Entity.Record
import EntityStore.Manager.Basic
import EntityStore.Proofs.Filter.Instance
import EntityStore.Proofs.Query.Agreement
import EntityStore.Proofs.Query.Entities
import EntityStore.Proofs.Query.Written
import EntityStore.Proofs.Removal.Registered

/-!
Entities that point to others. The relation by which the rows of one model point to those of
another is looked for among the relations alone, from the nearest level on. It is then asked for by its
stored name, and a name means the nearest column that is stored or walked under it, be it a relation or
not. So the entities that come are those that point to the given rows just as long as the name means the
relation that was found.
-/

namespace EntityStore

open JoinGraph Sql

namespace EntityModel

variable {schema : Schema} {m target level : EntityModel} {c : Column} {name : String}

def allColumns (m : EntityModel) : List (EntityModel × Column) :=
  m.chain.flatMap fun level => level.columns.map fun c => (level, c)

def nearest? (m : EntityModel) (name : String) : Option (EntityModel × Column) :=
  m.allColumns.find? (·.2.name == name)

/-- The column is a relation to one row of the target or of a level above it, and no nearer column is
stored under its name. -/
structure PointsTo (schema : Schema) (m target : EntityModel) (member : EntityModel × Column) :
    Prop where
  nearest : m.nearest? member.2.name = some member
  single : member.2.isPhysical = true
  leads : relatesTo schema target member.2 = true

private theorem mem_allColumns {member : EntityModel × Column} :
    member ∈ m.allColumns ↔ member.1 ∈ m.chain ∧ member.2 ∈ member.1.columns := by
  constructor
  · intro inside
    obtain ⟨level, member, inside⟩ := List.mem_flatMap.1 inside
    obtain ⟨c, declared, rfl⟩ := List.mem_map.1 inside
    exact ⟨member, declared⟩
  · intro ⟨inside, declared⟩
    exact List.mem_flatMap.2 ⟨member.1, inside, List.mem_map.2 ⟨member.2, declared, rfl⟩⟩

private theorem findColumn_eq_find (m : EntityModel) (name : String) :
    m.findColumn? name = m.allColumns.find? (·.2.answersTo name) := by
  rw [allColumns, List.find?_flatMap, findColumn?]
  congr 1
  funext level
  rw [List.find?_map]
  rfl

private theorem relatedMembers_eq (schema : Schema) (m target : EntityModel) :
    m.relatedMembers schema target =
      (m.allColumns.filter fun member => relatesTo schema target member.2).foldl addMember [] := by
  rw [relatedMembers, allColumns, List.filter_flatMap]
  congr 2
  funext level
  rw [List.filter_map]
  rfl

theorem first_of_first {α : Type} {l : List α} {p q : α → Bool} {a : α}
    (fewer : ∀ b, q b = true → p b = true) (found : l.find? p = some a) (holds : q a = true) :
    l.find? q = some a := by
  obtain ⟨-, before, after, parts, none⟩ := List.find?_eq_some_iff_append.1 found
  refine List.find?_eq_some_iff_append.2 ⟨holds, before, after, parts, fun b earlier => ?_⟩
  have other := none b earlier
  cases test : q b with
  | false => rfl
  | true =>
      rw [fewer b test] at other
      cases other

private theorem nearest_of_found (found : m.findColumn? c.name = some (level, c)) :
    m.nearest? c.name = some (level, c) := by
  rw [findColumn_eq_find] at found
  refine first_of_first (fun b same => ?_) found (beq_self_eq_true c.name)
  rw [Column.answersTo, same]
  rfl

/-! ### Members that are found -/

/-- The first member of a name is added. -/
theorem mem_foldl_of_first {member : EntityModel × Column} {l found : List (EntityModel × Column)}
    (free : ∀ other ∈ found, other.2.name ≠ member.2.name)
    (first : l.find? (·.2.name == member.2.name) = some member) :
    member ∈ l.foldl addMember found := by
  -- By the list: until the member comes, nothing of its name is added.
  induction l generalizing found with
  | nil => cases first
  | cons next rest ih =>
      rw [List.find?_cons] at first
      rw [List.foldl_cons]
      cases same : next.2.name == member.2.name with
      | true =>
          rw [same] at first
          cases first
          refine foldl_add_keeps addMember_adds _ rest _ ?_
          have new : ¬(found.any (·.2.name == member.2.name)) = true := by
            rw [List.any_eq_true]
            rintro ⟨other, known, equal⟩
            exact free other known (eq_of_beq equal)
          rw [addMember, if_neg new]
          exact List.mem_append_right _ (List.mem_singleton_self member)
      | false =>
          rw [same] at first
          refine ih (fun other known => ?_) first
          unfold addMember at known
          split at known
          · exact free other known
          · rcases List.mem_append.1 known with old | last
            · exact free other old
            · rw [List.mem_singleton.1 last]
              exact ne_of_beq_false same

private theorem PointsTo.mem_relatedMembers {member : EntityModel × Column}
    (points : PointsTo schema m target member) : member ∈ m.relatedMembers schema target := by
  rw [relatedMembers_eq]
  refine mem_foldl_of_first (fun _ known => nomatch known) ?_
  rw [List.find?_filter]
  refine first_of_first (fun b both => ?_) points.nearest ?_
  · exact (of_decide_eq_true both).2
  · exact decide_eq_true ⟨points.leads, beq_self_eq_true _⟩

private theorem single_of_reverseRelation (finds : m.reverseRelation schema target = .ok c) :
    ∃ level, (m.relatedMembers schema target).filter (·.2.isPhysical) = [(level, c)] := by
  unfold reverseRelation at finds
  split at finds
  · next single only =>
      cases finds
      rw [List.filter_map, List.map_eq_singleton_iff] at only
      obtain ⟨⟨level, c⟩, only, rfl⟩ := only
      exact ⟨level, only⟩
  · cases finds
  · cases finds

theorem PointsTo.eq_single {member : EntityModel × Column}
    (only : (m.relatedMembers schema target).filter (·.2.isPhysical) = [(level, c)])
    (points : PointsTo schema m target member) : member = (level, c) := by
  have inside : member ∈ (m.relatedMembers schema target).filter (·.2.isPhysical) :=
    List.mem_filter.2 ⟨points.mem_relatedMembers, points.single⟩
  rw [only] at inside
  exact List.mem_singleton.1 inside

end EntityModel

/-! ### The column that is asked for -/

section

variable {schema : Schema} {m level : EntityModel} {c : Column} {name : String} {ids : List Int64}

def oneOf (m level : EntityModel) (c : Column) (ids : List Int64) : WhereGroup :=
  .leaf
    { column := ⟨Sql.levelAlias (ofModel m) level, c.name⟩, op := .isIn,
      operand := .literal (toValue ids), absent? := none, casefold := false }

private theorem takes_ids (ids : List Int64) : CompareOp.isIn.takes (toValue ids) = true := by
  have scalars : (ids.map (toValue (α := Int64))).any (fun v => v.isNull || v.isList) = false := by
    rw [List.any_eq_false]
    rintro _ inside
    obtain ⟨id, -, rfl⟩ := List.mem_map.1 inside
    exact Bool.false_ne_true
  show (CompareOp.isIn.isMembership &&
    !(ids.map (toValue (α := Int64))).any fun v => v.isNull || v.isList) = true
  rw [scalars]
  rfl

private theorem absent_of_membership (column : Column) (type : SqlType) (value : Value) :
    Resolve.absentValue? column type ⟨name, .isIn, .literal value, false⟩ = none := by
  have unordered : (column.nullable && !false &&
      (CompareOp.isIn.isOrdering || CompareOp.isIn == .eq || CompareOp.isIn == .ne)) = false := by
    rw [show (CompareOp.isIn.isOrdering || CompareOp.isIn == .eq || CompareOp.isIn == .ne) = false
      from rfl, Bool.and_false]
  show (if _ then _ else none) = none
  rw [unordered]
  rfl

private theorem Column.exists_sqlType (c : Column) (physical : c.isPhysical = true) :
    ∃ type, c.sqlType? = some type := by
  cases kind : c.kind with
  | scalar type size => exact ⟨type, by rw [Column.sqlType?, kind]⟩
  | relation field target onDelete => exact ⟨.bigInt, by rw [Column.sqlType?, kind]⟩
  | many target table =>
      rw [Column.isPhysical, kind] at physical
      cases physical

private theorem walked (plain : '.' ∉ name.toList)
    (paths : ∀ level ∈ m.chain, level.path = m.root.path → level = m.root)
    (finds : m.findColumn? name = some (level, c)) (physical : c.isPhysical = true) :
    (Resolve.column schema m name).answer (ofModel m) =
      (.ok (⟨levelAlias (ofModel m) level, c.name⟩, c), ofModel m) := by
  rw [column_answer plain paths finds (Extends.refl (ofModel m)), if_pos physical]

private theorem answer_isIn (plain : '.' ∉ name.toList)
    (paths : ∀ level ∈ m.chain, level.path = m.root.path → level = m.root)
    (finds : m.findColumn? name = some (level, c)) (physical : c.isPhysical = true)
    (given : ids ≠ []) :
    (Resolve.filter schema m (FieldPath.isIn ⟨name⟩ ids)).answer (ofModel m) =
      (.ok (oneOf m level c ids), ofModel m) := by
  obtain ⟨type, typed⟩ := c.exists_sqlType physical
  let asked : Comparison := ⟨name, .isIn, .literal (toValue ids), false⟩
  have operand : asked.operand = .literal (toValue ids) := rfl
  have reached : (Resolve.column schema m name).answer (ofModel m) =
      (.ok (⟨levelAlias (ofModel m) level, c.name⟩, c), ofModel m) :=
    walked plain paths finds physical
  have gives := Resolve.comparison_value operand rfl reached typed
    (fun absurd => nomatch absurd) rfl (absent_of_membership c type (toValue ids))
  have resolved := gives.fitting (takes_ids ids)
  cases ids with
  | nil => exact absurd rfl given
  | cons id rest => exact resolved

theorem translation_of_found (plain : '.' ∉ name.toList)
    (paths : ∀ level ∈ m.chain, level.path = m.root.path → level = m.root)
    (finds : m.findColumn? name = some (level, c)) (physical : c.isPhysical = true)
    (given : ids ≠ []) :
    Translation.of schema m (FieldPath.isIn ⟨name⟩ ids) = .ok ⟨oneOf m level c ids, ofModel m⟩ := by
  have ran : Resolve.runOn m (Resolve.filter schema m (FieldPath.isIn ⟨name⟩ ids)) =
      (.ok (oneOf m level c ids), ofModel m) := answer_isIn plain paths finds physical given
  rw [Translation.of, ran]

/-- If the column of a level is asked for under a name, the name means a column of that name at a level
of the same alias. -/
theorem found_of_translation {joins : JoinGraph} (plain : '.' ∉ name.toList)
    (paths : ∀ level ∈ m.chain, level.path = m.root.path → level = m.root)
    (translated : Translation.of schema m (FieldPath.isIn ⟨name⟩ ids) =
      .ok ⟨oneOf m level c ids, joins⟩) :
    ∃ other found, m.findColumn? name = some (other, found) ∧ found.isPhysical = true ∧
      Sql.levelAlias (ofModel m) other = Sql.levelAlias (ofModel m) level ∧ found.name = c.name := by
  have resolved : (Resolve.comparison schema m
      ⟨name, .isIn, .literal (toValue ids), false⟩).answer (ofModel m) =
      (.ok (oneOf m level c ids), joins) := Translation.answer translated
  obtain ⟨ref, column, type, reached, -, constant | ⟨-, -, same⟩⟩ :=
    Resolve.comparison_cases resolved
  · have none := Resolve.constantComparison_leaves constant
    cases none
  · cases finds : m.findColumn? name with
    | none =>
        rw [Resolve.column, Resolve.segments_plain plain, Resolve.walk, finds] at reached
        cases reached
    | some pair =>
        obtain ⟨other, found⟩ := pair
        rw [column_answer plain paths finds (Extends.refl (ofModel m))] at reached
        split at reached
        · next physical =>
            cases reached
            have refs := congrArg WhereLeaf.column (WhereGroup.leaf.inj same)
            obtain ⟨placed, named⟩ := ColumnRef.mk.inj refs
            exact ⟨other, column, rfl, physical, placed.symm, named.symm⟩
        · cases reached

end

/-! ### The entities that come -/

private theorem Truth.any_eq_yes {ts : List Truth} : Truth.any ts = .yes ↔ Truth.yes ∈ ts := by
  induction ts with
  | nil => simp [Truth.any]
  | cons t rest ih =>
      have step : Truth.any (t :: rest) = .yes ↔ t = .yes ∨ Truth.any rest = .yes := by
        show Truth.or t (Truth.any rest) = .yes ↔ _
        cases t <;> cases Truth.any rest <;> simp [Truth.or]
      rw [step, ih, List.mem_cons, eq_comm]

namespace Semantics

variable {sem : Semantics} {tables : Tables} {m level : EntityModel} {c : Column} {ids : List Int64}

/-- The condition keeps an entity if the column of its level is equal to one of the ids. -/
theorem keeps_oneOf (equates : sem.holds .eq false = sem.same) (member : level ∈ m.chain)
    {comb : Combination} {e : EntityModel → Cells} (shows : Shows m comb e) :
    sem.keeps (some (oneOf m level c ids)) comb = true ↔
      ∃ id ∈ ids, sem.meets (e level c.name) (.int id) = true := by
  have value : comb.value ⟨Sql.levelAlias (ofModel m) level, c.name⟩ = e level c.name :=
    Combination.value_of_row (shows level member) c.name
  have compared (id : Int64) :
      (sem.interpretation comb).compare .eq false (e level c.name) (.int id) = .yes ↔
        sem.meets (e level c.name) (.int id) = true := by
    unfold Interpretation.compare meets
    show (if _ then _ else Truth.ofBool (sem.holds .eq false _ _)) = _ ↔ _
    rw [equates]
    cases (e level c.name).isNull <;> cases sem.same (e level c.name) (.int id) <;>
      simp [Truth.ofBool, Value.isNull]
  show ((Truth.any ((ids.map toValue).map
    ((sem.interpretation comb).compare .eq false
      (comb.value ⟨Sql.levelAlias (ofModel m) level, c.name⟩)))) == .yes) = true ↔ _
  rw [beq_iff_eq, Truth.any_eq_yes, value, List.map_map, List.mem_map]
  constructor
  · rintro ⟨id, given, yes⟩
    exact ⟨id, given, (compared id).1 yes⟩
  · rintro ⟨id, given, meets⟩
    exact ⟨id, given, (compared id).2 meets⟩

private theorem Selects.pointing (separate : m.Separate) (equates : sem.holds .eq false = sem.same)
    (member : level ∈ m.chain) {rows : List Row}
    (selects : sem.Selects tables (ofModel m) (some (oneOf m level c ids))
      (entityColumns m (ofModel m)) rows) (row : Row) :
    row ∈ rows ↔ ∃ e, sem.Stands tables m e ∧
      (∃ id ∈ ids, sem.meets (e level c.name) (.int id) = true) ∧ row = m.wholeRow e := by
  have tests (comb : Combination) (e : EntityModel → Cells) (shows : Shows m comb e) :
      sem.keeps (some (oneOf m level c ids)) comb = true ↔
        ∃ id ∈ ids, sem.meets (e level c.name) (.int id) = true :=
    keeps_oneOf equates member shows
  exact Selects.entities separate _ tests selects row

end Semantics

section

variable {σ ε : Type}

/-- The entities that come from looking for those which point to the target are those which do. There
is one relation to the target; a request for some ids asks for the column of that relation in the table
of its own level; and on a database where what is equal is equal in conditions, too, it reads those
entities whose value there is one of the ids. -/
structure FollowsRelation (env : Setting σ) (mgr : Manager ε) (target level : EntityModel)
    (c : Column) : Prop where
  only : ∀ member, mgr.type.model.PointsTo env.schema target member ↔ member = (level, c)
  restricts : ∀ ids ≠ [], Translation.of env.schema mgr.type.model (FieldPath.isIn ⟨c.name⟩ ids) =
    .ok ⟨oneOf mgr.type.model level c ids, ofModel mgr.type.model⟩
  sends : ∀ ids ≠ [], mgr.referencing env target ids =
    (Query.load env mgr.storage mgr.type
      (Sql.select (Storage.dialect env mgr.storage) mgr.type.model
        { joins := ofModel mgr.type.model, filter? := some (oneOf mgr.type.model level c ids) })
      []).outcome
  selects : ∀ (ids : List Int64) (sem : Semantics) (tables : Tables) (rows : List Row),
    sem.holds .eq false = sem.same →
    sem.Selects tables (ofModel mgr.type.model) (some (oneOf mgr.type.model level c ids))
      (entityColumns mgr.type.model (ofModel mgr.type.model)) rows →
    ∀ row, row ∈ rows ↔ ∃ e, sem.Stands tables mgr.type.model e ∧
      (∃ id ∈ ids, sem.meets (e level c.name) (.int id) = true) ∧ row = mgr.type.model.wholeRow e

variable {env : Setting σ} {mgr : Manager ε} {target level : EntityModel} {c : Column}

private theorem referencing_sends (finds : mgr.type.model.reverseRelation env.schema target = .ok c)
    {ids : List Int64} {translation : Translation}
    (translated : Translation.of env.schema mgr.type.model (FieldPath.isIn ⟨c.name⟩ ids) =
      .ok translation) :
    mgr.referencing env target ids =
      (Query.load env mgr.storage mgr.type
        (Sql.select (Storage.dialect env mgr.storage) mgr.type.model
          { joins := translation.joins, filter? := some translation.filter }) []).outcome := by
  have compiled : (mgr.query.filter (FieldPath.isIn ⟨c.name⟩ ids)).compile env =
      .ok (Sql.select (Storage.dialect env mgr.storage) mgr.type.model
        { joins := translation.joins, filter? := some translation.filter }) :=
    query_compiles translated rfl
  rw [Manager.referencing, finds]
  exact Query.run_of_compile compiled

private theorem FollowsRelation.of_found (separate : mgr.type.model.Separate)
    (plain : '.' ∉ c.name.toList)
    (finds : mgr.type.model.reverseRelation env.schema target = .ok c)
    (single : (mgr.type.model.relatedMembers env.schema target).filter (·.2.isPhysical) =
      [(level, c)])
    (found : mgr.type.model.findColumn? c.name = some (level, c)) :
    FollowsRelation env mgr target level c := by
  obtain ⟨inside, physical⟩ := List.mem_filter.1 (single ▸ List.mem_singleton_self (level, c))
  obtain ⟨member, -, leads⟩ := of_mem_relatedMembers inside
  have restricts (ids : List Int64) (given : ids ≠ []) :
      Translation.of env.schema mgr.type.model (FieldPath.isIn ⟨c.name⟩ ids) =
        .ok ⟨oneOf mgr.type.model level c ids, ofModel mgr.type.model⟩ :=
    translation_of_found plain separate.paths found physical given
  constructor
  case only =>
    intro other
    constructor
    · exact EntityModel.PointsTo.eq_single single
    · rintro rfl
      exact ⟨EntityModel.nearest_of_found found, physical, leads⟩
  case restricts => exact restricts
  case sends =>
    intro ids given
    have sent := referencing_sends finds (restricts ids given)
    exact sent
  case selects =>
    intro ids sem tables rows equates selects row
    exact selects.pointing separate equates member row

theorem FollowsRelation.found (follows : FollowsRelation env mgr target level c)
    (separate : mgr.type.model.Separate) (plain : '.' ∉ c.name.toList) :
    mgr.type.model.findColumn? c.name = some (level, c) := by
  -- The request for a single id tells which column the name means, by its level's alias and its name.
  have points := (follows.only (level, c)).2 rfl
  obtain ⟨member, declared⟩ := EntityModel.mem_allColumns.1 (List.mem_of_find?_eq_some points.nearest)
  obtain ⟨other, column, finds, physical, placed, named⟩ :=
    found_of_translation plain separate.paths (follows.restricts [0] (List.cons_ne_nil _ _))
  obtain ⟨present, known, -⟩ := EntityModel.findColumn_cases finds
  obtain rfl := levelAlias_injective separate present member placed
  have same : column = c := List.inj_on_of_nodup_map (separate.columns other member)
    (List.mem_filter.2 ⟨known, physical⟩) (List.mem_filter.2 ⟨declared, points.single⟩) named
  rw [finds, same]

/-- **Looking for what points to a target follows the relation that it finds just if the name of that
relation means it.** If there is a relation to be found, it is the only relation to one row of the
target that is found; no other column is a relation to the target that no nearer column hides; and the
entities that come are those that point to the target exactly if looking up the stored name, for which
columns that are no relations to the target and the names of fields count as well, leads back to the
relation. -/
theorem reverse_lookup_follows_iff (separate : mgr.type.model.Separate)
    (plain : '.' ∉ c.name.toList)
    (finds : mgr.type.model.reverseRelation env.schema target = .ok c) :
    ∃ level,
      (mgr.type.model.relatedMembers env.schema target).filter (·.2.isPhysical) = [(level, c)] ∧
      (∀ member, mgr.type.model.PointsTo env.schema target member → member = (level, c)) ∧
      (FollowsRelation env mgr target level c ↔
        mgr.type.model.findColumn? c.name = some (level, c)) := by
  obtain ⟨level, single⟩ := EntityModel.single_of_reverseRelation finds
  exact ⟨level, single, fun member => EntityModel.PointsTo.eq_single single,
    fun follows => follows.found separate plain, FollowsRelation.of_found separate plain finds single⟩

end

namespace Archive

def person : EntityModel where
  own :=
    { path := "Person", table := "person", primaryKey := "id", columns := [Column.generatedKey "id"] }

def tag : EntityModel where
  own := { path := "Tag", table := "tag", primaryKey := "id", columns := [Column.generatedKey "id"] }

def ownerId : Column := .relation "owner_id" "owner" ⟨"Person"⟩ .noAction

def doc : EntityModel where
  own :=
    { path := "Doc"
      table := "doc"
      primaryKey := "id"
      columns := [Column.generatedKey "id", ownerId] }

def report (column : Column) : EntityModel where
  own :=
    { path := "Report"
      table := "report"
      primaryKey := "id"
      columns := [Column.inheritedKey "id", column] }
  above := [doc.own]

def title : Column := .text "title" .maxVarChar

def ownerTag : Column := .relation "owner_ref" "owner_id" ⟨"Tag"⟩ .noAction

def ownerNumber : Column := .scalar "owner_id" .bigInt

def models : Schema := ⟨fun ref => if ref.name = "Tag" then tag else person⟩

def reports (column : Column) : Manager Record :=
  ⟨0, Record.entityType ⟨0⟩ (report column), 0⟩

def archive : Setting Tables :=
  { office with schema := models }

/-- Reports with a title are found by their owners. -/
theorem titled_reports_found :
    (report title).Separate ∧ '.' ∉ ownerId.name.toList ∧
      (report title).reverseRelation models person = .ok ownerId ∧
      FollowsRelation archive (reports title) person doc ownerId := by
  have separate : (reports title).type.model.Separate := by decide
  have plain : '.' ∉ ownerId.name.toList := by decide
  have finds : (reports title).type.model.reverseRelation archive.schema person = .ok ownerId := rfl
  obtain ⟨level, single, -, follows⟩ := reverse_lookup_follows_iff separate plain finds
  have here : doc = level := (Prod.mk.inj (List.cons.inj single).1).1
  subst here
  exact ⟨separate, plain, finds, follows.2 rfl⟩

/-- The reports of the owners are not found where the field of a nearer relation to a tag is called like
the column of the owner: the tag is asked for. And they are not found where the owner's column is
hidden by a nearer one, as that one is asked for. -/
theorem owners_mistaken :
    ((report ownerTag).reverseRelation models person = .ok ownerId ∧
      Translation.of models (report ownerTag) (FieldPath.isIn ⟨ownerId.name⟩ [(1 : Int64)]) =
        .ok ⟨oneOf (report ownerTag) (report ownerTag) ownerTag [1], ofModel (report ownerTag)⟩ ∧
      ∀ level, ¬FollowsRelation archive (reports ownerTag) person level ownerId) ∧
    (report ownerNumber).reverseRelation models person = .ok ownerId ∧
      Translation.of models (report ownerNumber) (FieldPath.isIn ⟨ownerId.name⟩ [(1 : Int64)]) =
        .ok ⟨oneOf (report ownerNumber) (report ownerNumber) ownerNumber [1],
          ofModel (report ownerNumber)⟩ ∧
      ∀ level, ¬FollowsRelation archive (reports ownerNumber) person level ownerId := by
  have plain : '.' ∉ ownerId.name.toList := by decide
  have mistaken (column : Column) (separate : (report column).Separate)
      (finds : (report column).findColumn? ownerId.name = some (report column, column))
      (physical : column.isPhysical = true) (other : column ≠ ownerId) :
      Translation.of models (report column) (FieldPath.isIn ⟨ownerId.name⟩ [(1 : Int64)]) =
          .ok ⟨oneOf (report column) (report column) column [1], ofModel (report column)⟩ ∧
        ∀ level, ¬FollowsRelation archive (reports column) person level ownerId := by
    refine ⟨translation_of_found plain separate.paths finds physical (List.cons_ne_nil _ _), ?_⟩
    intro level follows
    have found := follows.found separate plain
    cases other (Prod.mk.inj (Option.some.inj (finds.symm.trans found))).2
  exact ⟨⟨rfl, mistaken ownerTag (by decide) rfl rfl (by decide)⟩,
    rfl, mistaken ownerNumber (by decide) rfl rfl (by decide)⟩

end Archive

end EntityStore
