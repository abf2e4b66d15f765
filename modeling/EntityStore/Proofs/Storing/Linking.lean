import EntityStore.Entity.Record
import EntityStore.Proofs.Removal.Interpretation
import EntityStore.Proofs.Storing.LinkSets
import EntityStore.Proofs.Storing.Reader
import Mathlib.Data.List.Dedup

/-!
Links that are written are the links that are read. On a database that keeps link tables as sets of
pairs, loading gives every entity the targets that stand for its id after any sequence of writes, in
ascending order and each once.
-/

namespace EntityStore

variable {σ ε : Type}

namespace Links

def rowFor (link : LinkTable) (p : Int64 × Int64) : Row :=
  ⟨[(link.ownerColumn, .int p.1), (link.targetColumn, .int p.2)]⟩

def opening (d : Sql.Dialect) (link : LinkTable) : String :=
  "SELECT " ++ Sql.quotedList d [link.ownerColumn, link.targetColumn] ++ " FROM "
    ++ d.quote link.table
    ++ " WHERE " ++ d.quote link.ownerColumn ++ " IN ("

/-- The changes that writing links makes of the tables of a model. -/
def Known (schema : Schema) (m : EntityModel) (c : Change) : Prop :=
  ∃ link ∈ tablesOf schema m none,
    (∃ owner ts, ts ≠ [] ∧ c = insertion link owner ts)
      ∨ ∃ ids, c = .delete link.table link.ownerColumn ids

/-- The provider keeps the link tables of a model as sets of pairs: it makes the changes that
statements tell, and answers a look-up with each pair of its owners once, in any order. -/
structure Keeps (p : Provider σ) (view : σ → LinkSets) (schema : Schema) (m : EntityModel) :
    Prop where
  performs : Performs p view LinkSets.changed (Known schema m)
  answers : ∀ link ∈ tablesOf schema m none, ∀ (ids : List Int64) (q : Sql.Statement) (w : σ),
    Sql.EndsInIds (opening p.dialect link) ids q →
      ∃ (pairs : List (Int64 × Int64)) (after : σ),
        p.query q w = (.ok (pairs.map (rowFor link)), after) ∧ view after = view w
        ∧ pairs.Nodup ∧ ∀ pair, pair ∈ pairs ↔ pair ∈ view w link.table ∧ pair.1 ∈ ids

/-- Entities keep their id and the links of other relations when links are set. -/
structure Lawful (type : EntityType ε) : Prop where
  id : ∀ e field ids, type.id (type.setLinks e field ids) = type.id e
  links : ∀ e field ids other,
    type.links (type.setLinks e field ids) other = if other = field then ids else type.links e other

/-! ### Reading rows -/

section

variable {schema : Schema} {m : EntityModel} {link : LinkTable}

private theorem columns_ne (table field : String) (owner target : EntityModel) :
    (LinkTable.between table field owner target).ownerColumn ≠
      (LinkTable.between table field owner target).targetColumn := by
  intro equal
  have texts := congrArg String.toList equal
  dsimp only [LinkTable.between] at texts
  split at texts
  · next same =>
      rw [same, String.toList_append, String.toList_append, List.append_cancel_left_eq] at texts
      revert texts
      decide
  · next other =>
      rw [String.toList_append, String.toList_append] at texts
      exact other (String.toList_injective (List.append_cancel_right texts))

private theorem columns_ne_of_mem {only? : Option (List String)}
    (member : link ∈ tablesOf schema m only?) :
    link.ownerColumn ≠ link.targetColumn := by
  have made := linkTable_of_mem member
  unfold EntityModel.linkTable? at made
  split at made
  · next level column finds =>
      split at made
      · next target table kind =>
          cases made
          exact columns_ne _ _ _ _
      · cases made
  · cases made

theorem mapM_readLink (apart : link.ownerColumn ≠ link.targetColumn)
    (pairs : List (Int64 × Int64)) :
    (pairs.map (rowFor link)).mapM (readLink link) = .ok pairs := by
  induction pairs with
  | nil => rfl
  | cons p rest ih =>
      have read : readLink link (rowFor link p) = .ok p := by
        have owner : (rowFor link p).get Int64 link.ownerColumn = .ok p.1 :=
          get_int (by simp [rowFor, Row.value?])
        have target : (rowFor link p).get Int64 link.targetColumn = .ok p.2 :=
          get_int (by simp [rowFor, Row.value?, List.lookup_cons, beq_eq_false_iff_ne.2 apart.symm])
        rw [readLink, owner]
        show (do let target ← (rowFor link p).get Int64 link.targetColumn; pure (p.1, target)) = _
        rw [target]
        rfl
      rw [List.map_cons, List.mapM_cons, read, ih]
      rfl

theorem lookup_gathered (pairs : List (Int64 × Int64)) (grouped : List (Int64 × List Int64))
    (owner : Int64) :
    ((pairs.foldl addTarget grouped).lookup owner).getD [] =
      (grouped.lookup owner).getD [] ++ (pairs.filter (·.1 = owner)).map (·.2) := by
  induction pairs generalizing grouped with
  | nil => exact (List.append_nil _).symm
  | cons p rest ih =>
      rw [List.foldl_cons, ih, addTarget, Assoc.lookup_put]
      by_cases here : p.1 = owner
      · subst here
        rw [List.filter_cons_of_pos (by simp), if_pos (beq_self_eq_true _), List.map_cons]
        simp
      · rw [List.filter_cons_of_neg (by simpa using here), if_neg (by simpa using Ne.symm here)]

theorem handOut_eq {type : EntityType ε} (field : String) (grouped : List (Int64 × List Int64))
    {items : List ε} (distinct : (items.map type.id).Nodup) :
    handOut type field grouped items = items.map fun item =>
      type.setLinks item field (ascending ((grouped.lookup (type.id item)).getD [])) := by
  induction items generalizing grouped with
  | nil => rfl
  | cons item rest ih =>
      obtain ⟨apart, distinct⟩ := List.nodup_cons.1 distinct
      rw [handOut, List.map_cons, ih _ distinct]
      congr 1
      refine List.map_congr_left fun other inside => ?_
      rw [Assoc.lookup_without _ fun same => apart (List.mem_map.2 ⟨other, inside, same⟩)]

end

/-! ### Loading -/

section

variable {env : Setting σ} {i : StorageId} {view : σ → LinkSets} {type : EntityType ε}
    {S : LinkSets}

def Assigned (type : EntityType ε) (S : LinkSets) (link : LinkTable) (item new : ε) : Prop :=
  ∃ ts : List Int64, ts.Pairwise (· < ·) ∧ (∀ t, t ∈ ts ↔ t ∈ S.of link (type.id item))
    ∧ new = type.setLinks item link.field ts

private theorem achieves_loadTable (keeps : Keeps (env.provider i) view env.schema type.model)
    {link : LinkTable} (member : link ∈ tablesOf env.schema type.model none)
    (unmarked : Unmarked link) {items : List ε} (distinct : (items.map type.id).Nodup) :
    Achieves env i view (loadTable env i type (items.map type.id) items link) S fun news w made =>
      w = S ∧ made = [] ∧ List.Forall₂ (Assigned type S link) items news := by
  obtain ⟨q, bound, ends⟩ := Sql.lookUp_binds (Storage.dialect env i) unmarked.table
    (List.forall_mem_cons.2 ⟨unmarked.owner, List.forall_mem_singleton.2 unmarked.target⟩)
    unmarked.owner (items.map type.id)
  have asked : Achieves env i view (Storage.query env i q : Attempt σ ε _) S fun rows w made =>
      w = S ∧ made = [] ∧ ∃ pairs : List (Int64 × Int64), rows = pairs.map (rowFor link)
        ∧ pairs.Nodup
        ∧ ∀ pair, pair ∈ pairs ↔ pair ∈ S link.table ∧ pair.1 ∈ items.map type.id := by
    refine achieves_query fun w here => ?_
    obtain ⟨pairs, after, answered, same, once, exact⟩ :=
      keeps.answers link member (items.map type.id) q w ends
    exact ⟨_, after, answered, same.trans here, rfl, pairs, rfl, once,
      fun pair => here ▸ exact pair⟩
  unfold loadTable Storage.queryTemplate
  rw [bind_assoc]
  refine Attains.bound bound ?_
  refine Achieves.bind asked ?_
  rintro _ _ _ ⟨rfl, rfl, pairs, rfl, once, exact⟩
  rw [mapM_readLink (columns_ne_of_mem member)]
  refine achieves_pure ⟨rfl, rfl, ?_⟩
  rw [handOut_eq link.field _ distinct, List.forall₂_map_right_iff, List.forall₂_same]
  intro item inside
  refine ⟨_, ascending_strict ?_, fun t => ?_, rfl⟩
  · rw [lookup_gathered]
    -- Pairs of one owner have different targets.
    refine List.Nodup.map_on (fun p member other same equal => ?_) (once.filter _)
    have owners := (of_decide_eq_true (List.mem_filter.1 member).2).trans
      (of_decide_eq_true (List.mem_filter.1 same).2).symm
    exact Prod.ext owners equal
  · rw [(ascending_perm _).mem_iff, lookup_gathered]
    rw [List.lookup_nil, Option.getD_none, List.nil_append, List.mem_map]
    constructor
    · rintro ⟨pair, member, rfl⟩
      obtain ⟨known, owner⟩ := List.mem_filter.1 member
      obtain ⟨o, t⟩ := pair
      obtain rfl : o = type.id item := of_decide_eq_true owner
      exact ((exact _).1 known).1
    · intro stored
      refine ⟨(type.id item, t), List.mem_filter.2 ⟨?_, decide_eq_true rfl⟩, rfl⟩
      exact (exact _).2 ⟨stored, List.mem_map_of_mem inside⟩

/-- The entity with the targets of its id in some relations, and the links of others as they were.
-/
structure Loaded (type : EntityType ε) (S : LinkSets) (done : List LinkTable) (item new : ε) :
    Prop where
  id : type.id new = type.id item
  ordered : ∀ link ∈ done, (type.links new link.field).Pairwise (· < ·)
  exact : ∀ link ∈ done, ∀ t, t ∈ type.links new link.field ↔ t ∈ S.of link (type.id item)
  others : ∀ field, (∀ link ∈ done, link.field ≠ field) →
    type.links new field = type.links item field

private theorem Loaded.next (lawful : Lawful type) {done : List LinkTable} {link : LinkTable}
    {schema : Schema} (known : ∀ l ∈ done ++ [link], l ∈ tablesOf schema type.model none)
    {item new newer : ε} (loaded : Loaded type S done item new)
    (assigned : Assigned type S link new newer) :
    Loaded type S (done ++ [link]) item newer := by
  obtain ⟨ts, ordered, exact, rfl⟩ := assigned
  obtain ⟨before, here⟩ := List.forall_mem_append.1 known
  have here := List.forall_mem_singleton.1 here
  -- A relation of the same name is the same relation.
  have same (l : LinkTable) (member : l ∈ done ++ [link]) (field : l.field = link.field) :
      l = link := by
    have one := linkTable_of_mem (known l member)
    rw [field, linkTable_of_mem here] at one
    exact (Option.some.inj one).symm
  have apart (l : LinkTable) (member : l ∈ done ++ [link]) (other : l.field ≠ link.field) :
      l ∈ done := by
    rcases List.mem_append.1 member with earlier | last
    · exact earlier
    · exact absurd (congrArg LinkTable.field (List.mem_singleton.1 last)) other
  refine ⟨(lawful.id _ _ _).trans loaded.id, fun l member => ?_, fun l member t => ?_,
    fun field free => ?_⟩
  · rw [lawful.links]
    by_cases field : l.field = link.field
    · rw [if_pos field]
      exact ordered
    · rw [if_neg field]
      exact loaded.ordered l (apart l member field)
  · rw [lawful.links]
    by_cases field : l.field = link.field
    · rw [if_pos field, same l member field, exact, loaded.id]
    · rw [if_neg field]
      exact loaded.exact l (apart l member field) t
  · obtain ⟨others, last⟩ := List.forall_mem_append.1 free
    rw [lawful.links, if_neg fun same => last link List.mem_cons_self same.symm]
    exact loaded.others field others

private theorem ids_of_loaded {done : List LinkTable} {items news : List ε}
    (loaded : List.Forall₂ (Loaded type S done) items news) :
    news.map type.id = items.map type.id := by
  induction loaded with
  | nil => rfl
  | cons first _ ih => rw [List.map_cons, List.map_cons, first.id, ih]

private theorem loaded_next (schema : Schema) (lawful : Lawful type) {done : List LinkTable}
    {link : LinkTable}
    (known : ∀ l ∈ done ++ [link], l ∈ tablesOf schema type.model none) {items news newer : List ε}
    (loaded : List.Forall₂ (Loaded type S done) items news)
    (assigned : List.Forall₂ (Assigned type S link) news newer) :
    List.Forall₂ (Loaded type S (done ++ [link])) items newer := by
  induction loaded generalizing newer with
  | nil =>
      cases assigned
      exact .nil
  | cons first _ ih =>
      cases assigned with
      | cons given others => exact .cons (first.next lawful known given) (ih others)

/-- Loading gives each entity the targets that its id has in every relation. -/
theorem achieves_load (keeps : Keeps (env.provider i) view env.schema type.model)
    (lawful : Lawful type)
    (unmarked : ∀ link ∈ tablesOf env.schema type.model none, Unmarked link) {items : List ε}
    (distinct : (items.map type.id).Nodup) :
    Achieves env i view (load env i type items) S fun news w made => w = S ∧ made = []
      ∧ List.Forall₂ (Loaded type S (tablesOf env.schema type.model none)) items news := by
  have onwards : ∀ (rest done : List LinkTable) (news : List ε),
      tablesOf env.schema type.model none = done ++ rest →
      List.Forall₂ (Loaded type S done) items news →
      Achieves env i view (rest.foldlM (loadTable env i type (items.map type.id)) news) S
        fun news w made => w = S ∧ made = []
          ∧ List.Forall₂ (Loaded type S (tablesOf env.schema type.model none)) items news := by
    intro rest
    induction rest with
    | nil =>
        intro done news all loaded
        rw [List.append_nil] at all
        exact achieves_pure ⟨rfl, rfl, all ▸ loaded⟩
    | cons link rest ih =>
        intro done news all loaded
        have ids := ids_of_loaded loaded
        have member : link ∈ tablesOf env.schema type.model none := by
          rw [all]
          exact List.mem_append_right _ List.mem_cons_self
        rw [List.foldlM_cons, ← ids]
        refine Achieves.bind (achieves_loadTable keeps member (unmarked link member)
          (ids ▸ distinct)) ?_
        rintro newer _ _ ⟨rfl, rfl, assigned⟩
        rw [ids]
        refine ih (done ++ [link]) newer (by rw [all, List.append_assoc]; rfl) ?_
        refine loaded_next env.schema lawful (fun l inside => ?_) loaded assigned
        rw [all, List.append_cons]
        exact List.mem_append_left _ inside
  unfold load
  split
  · next none =>
      rw [List.isEmpty_iff.1 none]
      exact achieves_pure ⟨rfl, rfl, .nil⟩
  · refine onwards _ [] items rfl (List.forall₂_same.2 fun item _ => ?_)
    exact ⟨rfl, nofun, nofun, fun _ _ => rfl⟩

end

/-! ### Writing, then loading -/

/-- Relations that are found under their names and have tables of their own, with names that bring
no marks. -/
structure Linkable (schema : Schema) (m : EntityModel) : Prop where
  found : ∀ relation ∈ m.manyColumns, m.findColumn? relation.2.name = some relation
  tables : ((tablesOf schema m none).map (·.table)).Nodup
  unmarked : ∀ link ∈ tablesOf schema m none, Unmarked link

instance (schema : Schema) (m : EntityModel) : Decidable (Linkable schema m) :=
  decidable_of_iff ((∀ relation ∈ m.manyColumns, m.findColumn? relation.2.name = some relation) ∧
      ((tablesOf schema m none).map (·.table)).Nodup ∧ ∀ link ∈ tablesOf schema m none,
        Unmarked link)
    ⟨fun ⟨found, tables, unmarked⟩ => ⟨found, tables, unmarked⟩,
      fun linkable => ⟨linkable.found, linkable.tables, linkable.unmarked⟩⟩

def writeAndLoad (env : Setting σ) (i : StorageId) (type : EntityType ε)
    (writes : List (LinkWrite ε)) (items : List ε) : Attempt σ ε (List ε) := do
  writes.forM fun w => write env i type w.item w.owner w.replace w.only?
  load env i type items

/-- The entity has, in every relation, the targets that stand for its id after some writes, in
ascending order and each once; its id and its other links are as they were. -/
structure Reads (schema : Schema) (type : EntityType ε) (before : LinkSets)
    (writes : List (LinkWrite ε)) (item new : ε) : Prop where
  id : type.id new = type.id item
  links : ∀ relation ∈ type.model.manyColumns, ∃ link,
    type.model.linkTable? schema relation.2.name = some link
      ∧ (type.links new relation.2.name).Pairwise (· < ·)
      ∧ ∀ t, t ∈ type.links new relation.2.name ↔ t ∈ LinkWrite.standing type relation.2.name
          (type.id item) (before.of link (type.id item)) writes
  others : ∀ field, (∀ relation ∈ type.model.manyColumns, relation.2.name ≠ field) →
    type.links new field = type.links item field

private theorem Loaded.reads {schema : Schema} {type : EntityType ε} {before : LinkSets}
    {writes : List (LinkWrite ε)} {item new : ε} (linkable : Linkable schema type.model)
    (loaded :
      Loaded type ((writes.flatMap (LinkWrite.changes schema type)).foldl LinkSets.changed before)
      (tablesOf schema type.model none) item new) :
    Reads schema type before writes item new where
  id := loaded.id
  links relation member := by
    obtain ⟨level, c⟩ := relation
    have finds := linkable.found _ member
    obtain ⟨level', -, own⟩ := List.mem_flatMap.1 member
    obtain ⟨c', many, same⟩ := List.mem_map.1 own
    cases same
    obtain ⟨link, inside, made, field⟩ :=
      exists_linkTable schema finds (List.mem_filter.1 many).2
    refine ⟨link, made, field ▸ loaded.ordered link inside, fun t => ?_⟩
    have exact := loaded.exact link inside t
    rwa [LinkWrite.of_foldl_changed linkable.tables inside, field] at exact
  others field free := by
    refine loaded.others field fun link member => ?_
    obtain ⟨relation, inside, made⟩ := List.mem_filterMap.1 member
    rw [(linkTable_field made).1]
    exact free relation (List.mem_filter.1 inside).1

/-- The links that are written are the links that are read. After any sequence of writes, loading
gives each of the entities the targets that stand for its id: those written since the links of the
relation were last replaced, and what was there before unless they were. Each link is put in once by
its write, and no statement has more parameters than are allowed. -/
theorem links_written_are_read {env : Setting σ} {i : StorageId} {view : σ → LinkSets}
    {type : EntityType ε} (linkable : Linkable env.schema type.model) (lawful : Lawful type)
    (keeps : Keeps (env.provider i) view env.schema type.model) (writes : List (LinkWrite ε))
    {items : List ε} (distinct : (items.map type.id).Nodup) (s : State σ ε) :
    ∃ news after, (writeAndLoad env i type writes items).run.run s = (.ok news, after)
      ∧ List.Forall₂ (Reads env.schema type (view s.outside) writes) items news
      ∧ Sent (Storage.dialect env i) i (writes.flatMap (LinkWrite.changes env.schema type)) s after
      ∧ (∃ events, after.written i = s.written i ++ events
        ∧ ∀ e ∈ events, e.parameters.length ≤ bulkParams)
      ∧ ∀ w ∈ writes, ∀ link ∈ tablesOf env.schema type.model w.only?,
          ∃ ts : List Int64, ts.Pairwise (· < ·) ∧ (∀ t, t ∈ ts ↔ t ∈ type.links w.item link.field)
            ∧ (changes type w.item w.owner w.replace link).flatMap Change.inserted =
              ts.map (pair w.owner) := by
  have each (w : LinkWrite ε) (_ : w ∈ writes) : Makes env i view LinkSets.changed
      (write env i type w.item w.owner w.replace w.only?) (w.changes env.schema type) := by
    refine makes_write keeps.performs type w.item w.owner w.replace w.only?
      (fun link member => ?_) ?_
    · exact linkable.unmarked link (LinkWrite.mem_tablesOf_only.1 member).1
    · intro link member c inside
      refine ⟨link, (LinkWrite.mem_tablesOf_only.1 member).1, ?_⟩
      rcases List.mem_append.1 inside with cleared | inserted
      · cases replace : w.replace with
        | true =>
            rw [replace, if_pos rfl] at cleared
            exact Or.inr ⟨_, List.mem_singleton.1 cleared⟩
        | false =>
            rw [replace] at cleared
            cases cleared
      · obtain ⟨ts, chunk, rfl⟩ := List.mem_map.1 inserted
        exact Or.inl ⟨w.owner, ts, (of_mem_chunksOf chunk).1, rfl⟩
  have all : Achieves env i view (writeAndLoad env i type writes items) (view s.outside)
      fun news _ made => made = writes.flatMap (LinkWrite.changes env.schema type)
        ∧ List.Forall₂ (Reads env.schema type (view s.outside) writes) items news := by
    refine Achieves.bind (makes_forM writes each (view s.outside)) ?_
    rintro _ _ _ ⟨rfl, rfl⟩
    refine (achieves_load keeps lawful linkable.unmarked distinct).imp ?_
    rintro news _ _ ⟨-, rfl, loaded⟩
    exact ⟨List.append_nil _, loaded.imp fun _ _ one => one.reads linkable⟩
  obtain ⟨_, after, made, ran, -, sent, news, rfl, rfl, reads⟩ := all s rfl
  have bounded := sent.parameters (·.length ≤ bulkParams) fun c member => by
    obtain ⟨w, -, member⟩ := List.mem_flatMap.1 member
    obtain ⟨link, -, member⟩ := List.mem_flatMap.1 member
    exact length_of_mem_changes member
  exact ⟨news, after, ran, reads, sent, bounded, fun w _ link _ =>
    ⟨_, targets_strict _, fun t => mem_targets,
      rows_of_changes type w.item w.owner w.replace link⟩⟩

/-! ### A database of one link table -/

def pairOf? : List Value → Option (Int64 × Int64)
  | [.int owner, .int target] => some (owner, target)
  | _ => none

private theorem pairOf_eq_some {row : List Value} {p : Int64 × Int64} :
    pairOf? row = some p ↔ row = pair p.1 p.2 := by
  unfold pairOf?
  split
  · simp [pair, Prod.ext_iff]
  · next other =>
      refine ⟨nofun, fun same => ?_⟩
      exact absurd same (other p.1 p.2)

def keeper (d : Sql.Dialect) (link : LinkTable) : Provider (List (Int64 × Int64)) where
  name := "links"
  dialect := d
  connect w := (.ok (), w)
  execute q w :=
    let unknown := (.error (.execution q.sql "unknown statement"), w)
    match Change.read? d q with
    | some (.insert none table _ rows) =>
      if table = link.table then (.ok rows.length, w ++ rows.filterMap pairOf?) else unknown
    | some (.delete table _ ids) =>
      if table = link.table then (.ok ids.length, w.filter (·.1 ∉ ids)) else unknown
    | _ => unknown
  query q w :=
    if q.sql = opening d link ++ ", ".intercalate (q.params.map (·.placeholder)) ++ ")" then
      let ids := q.values.filterMap Tables.idOf?
      (.ok ((w.dedup.filter (·.1 ∈ ids)).map (rowFor link)), w)
    else (.error (.execution q.sql "unknown statement"), w)
  insert q w := (.error (.execution q.sql "keys are not generated"), w)
  begin w := (.ok (), w)
  commit w := (.ok (), w)
  rollback w := (.ok (), w)

def kept (link : LinkTable) (w : List (Int64 × Int64)) : LinkSets :=
  fun table => if link.table = table then {p | p ∈ w} else ∅

theorem keeper_keeps (d : Sql.Dialect) {link : LinkTable} {schema : Schema} {m : EntityModel}
    (only : ∀ other ∈ tablesOf schema m none, other = link) :
    Keeps (keeper d link) (kept link) schema m where
  performs := by
    rintro c q w ⟨other, member, known⟩ tells
    cases only other member
    rcases known with ⟨owner, ts, filled, rfl⟩ | ⟨ids, rfl⟩
    · have full : (insertion link owner ts).Full :=
        ⟨rfl, List.cons_ne_nil _ _, fun none => filled (List.map_eq_nil_iff.1 none),
          fun row inside => by
          obtain ⟨t, -, rfl⟩ := List.mem_map.1 inside
          rfl⟩
      have read : Change.read? d q =
        some (.insert none link.table [link.ownerColumn, link.targetColumn]
          (ts.map (pair owner))) := Change.read_eq tells full
      refine ⟨(ts.map (pair owner)).length, w ++ (ts.map (pair owner)).filterMap pairOf?, ?_, ?_⟩
      · simp only [keeper, read, if_pos]
      · funext table
        by_cases here : link.table = table
        · have inserted : LinkSets.changed (kept link w) (insertion link owner ts) table =
              kept link w table ∪ {p | pair p.1 p.2 ∈ ts.map (pair owner)} := if_pos here
          ext p
          rw [inserted, Set.mem_union, kept, kept, if_pos here, if_pos here, Set.mem_ofPred_eq,
            Set.mem_ofPred_eq, Set.mem_ofPred_eq, List.mem_append, List.mem_filterMap]
          simp only [pairOf_eq_some, exists_eq_right]
        · have same : LinkSets.changed (kept link w) (insertion link owner ts) table =
              kept link w table := if_neg here
          rw [same, kept, kept, if_neg here, if_neg here]
    · have read : Change.read? d q = some (.delete link.table link.ownerColumn ids) :=
        Change.read_eq tells trivial
      refine ⟨ids.length, w.filter (·.1 ∉ ids), ?_, ?_⟩
      · simp only [keeper, read, if_pos]
      · funext table
        by_cases here : link.table = table
        · have cleared :
              LinkSets.changed (kept link w) (.delete link.table link.ownerColumn ids) table =
              {p ∈ kept link w table | p.1 ∉ ids} := if_pos here
          ext p
          rw [cleared, kept, kept, if_pos here, if_pos here]
          simp
        · have same :
              LinkSets.changed (kept link w) (.delete link.table link.ownerColumn ids) table =
              kept link w table := if_neg here
          rw [same, kept, kept, if_neg here, if_neg here]
  answers := by
    intro other member ids q w ends
    cases only other member
    refine ⟨w.dedup.filter (·.1 ∈ ids), w, ?_, rfl, (List.nodup_dedup w).filter _, fun p => ?_⟩
    · have held : q.values.filterMap Tables.idOf? = ids := by
        rw [ends.values, List.filterMap_map]
        exact List.filterMap_some
      simp only [keeper, ends.sql, held, if_true]
    · rw [kept, if_pos rfl, List.mem_filter, List.mem_dedup, decide_eq_true_iff]
      rfl

def keeping (link : LinkTable) : Setting (List (Int64 × Int64)) where
  schema := Staff.skilled
  provider _ := keeper .sqlite link
  log _ := {}
  now := SqlType.firstDay.atMidnight

def skillful (id : Int64) (skills : List Int64) : Record :=
  { id, links := [("skills", skills)] }

theorem record_lawful (key : TypeKey) (m : EntityModel) : Lawful (Record.entityType key m) where
  id _ _ _ := rfl
  links r field ids other := by
    show ((Assoc.put field ids r.links).lookup other).getD [] = _
    rw [Assoc.lookup_put]
    by_cases same : other = field
    · rw [if_pos same, if_pos (beq_iff_eq.2 same)]
      rfl
    · rw [if_neg same, if_neg fun equal => same (beq_iff_eq.1 equal)]
      rfl

def workerSkill : LinkTable :=
  .between "worker_skill" "skills" Staff.worker Staff.skill

/-- Skills of two workers are written; then those of one are replaced, and at last some other
relation. -/
def history : List (LinkWrite Record) :=
  [⟨skillful 1 [3, 1, 3], 1, false, none⟩, ⟨skillful 2 [2], 2, false, none⟩,
    ⟨skillful 1 [5, 4, 5], 1, true, some ["skills"]⟩, ⟨skillful 1 [9], 1, true, some ["tools"]⟩]

theorem history_read : ∃ news after,
    (writeAndLoad (keeping workerSkill) 0 (Record.entityType ⟨0⟩ Staff.worker) history
        [skillful 2 [], skillful 1 [7]]).run.run { outside := [] } = (.ok news, after)
      ∧ List.Forall₂ (Reads Staff.skilled (Record.entityType ⟨0⟩ Staff.worker) (kept workerSkill [])
        history) [skillful 2 [], skillful 1 [7]] news := by
  have keeps :
      Keeps ((keeping workerSkill).provider 0) (kept workerSkill) Staff.skilled Staff.worker :=
    keeper_keeps .sqlite (by decide)
  have linkable :
      Linkable (keeping workerSkill).schema (Record.entityType ⟨0⟩ Staff.worker).model := by
    decide
  have distinct :
      ([skillful 2 [], skillful 1 [7]].map (Record.entityType ⟨0⟩ Staff.worker).id).Nodup := by
    decide
  obtain ⟨news, after, ran, reads, -⟩ :=
    links_written_are_read linkable (record_lawful _ _) keeps history distinct { outside := [] }
  exact ⟨news, after, ran, reads⟩

/-! ### Links that are not read as they were written last -/

def skillsRead (link : LinkTable) (m : EntityModel) (writes : List (LinkWrite Record))
    (items : List Record) : Option (List (List Int64)) :=
  ((writeAndLoad (keeping link) 0 (Record.entityType ⟨0⟩ m) writes items).run.run
    { outside := [] }).1.toOption.map (·.map fun r => (r.links.lookup "skills").getD [])

/-- The targets that were last written for an owner. -/
def lastWritten (type : EntityType ε) (field : String) (owner : Int64)
    (writes : List (LinkWrite ε)) :
    List Int64 :=
  ((writes.reverse.find? fun w => w.owner = owner ∧ w.Covers field).map fun w =>
    targets (type.links w.item field)).getD []

/-- Relations have names and tables of their own, link tables are kept as sets, and entities have
different ids; yet some entity is not read with the targets that were last written for it. -/
structure Strays (link : LinkTable) (m : EntityModel) (writes : List (LinkWrite Record))
    (items : List Record) : Prop where
  names : (m.manyColumns.map (·.2.name)).Nodup
  tables : ((tablesOf Staff.skilled m none).map (·.table)).Nodup
  keeps : Keeps (keeper .sqlite link) (kept link) Staff.skilled m
  distinct : (items.map (·.id)).Nodup
  differs : ¬∃ news after,
    (writeAndLoad (keeping link) 0 (Record.entityType ⟨0⟩ m) writes items).run.run
      { outside := [] } = (.ok news, after)
    ∧ List.Forall₂ (fun item new => ∀ relation ∈ m.manyColumns,
      (Record.entityType ⟨0⟩ m).links new relation.2.name =
        lastWritten (Record.entityType ⟨0⟩ m) relation.2.name item.id writes) items news

private theorem strays_of_skills {link : LinkTable} {m : EntityModel}
    {writes : List (LinkWrite Record)}
    {items : List Record} (names : (m.manyColumns.map (·.2.name)).Nodup)
    (tables : ((tablesOf Staff.skilled m none).map (·.table)).Nodup)
    (only : ∀ other ∈ tablesOf Staff.skilled m none, other = link)
    (distinct : (items.map (·.id)).Nodup)
    (relation : ∃ relation ∈ m.manyColumns, relation.2.name = "skills")
    (read : skillsRead link m writes items ≠
      some (items.map fun item => lastWritten (Record.entityType ⟨0⟩ m) "skills" item.id writes)) :
    Strays link m writes items := by
  refine ⟨names, tables, keeper_keeps .sqlite only, distinct, ?_⟩
  rintro ⟨news, after, ran, last⟩
  obtain ⟨⟨level, c⟩, member, named⟩ := relation
  have each : news.map (fun r => (r.links.lookup "skills").getD []) =
      items.map fun item => lastWritten (Record.entityType ⟨0⟩ m) "skills" item.id writes := by
    clear ran read
    induction last with
    | nil => rfl
    | cons first _ ih =>
        have here := first _ member
        rw [named] at here
        rw [List.map_cons, List.map_cons, ih (List.nodup_cons.1 distinct).2]
        exact congrArg (· :: _) here
  rw [skillsRead, ran] at read
  exact read (congrArg some each)

def hidden : EntityModel where
  own :=
    { path := "Trainee"
      table := "trainee"
      primaryKey := "person_id"
      columns := [Column.inheritedKey "person_id", .text "skills" .maxVarChar] }
  above := Staff.worker.own :: Staff.worker.above

def marked : EntityModel where
  own :=
    { path := "Worker"
      table := "worker"
      primaryKey := "id"
      columns := [Column.generatedKey "id", .many "skills" ⟨"Skill"⟩ "\x010\x01"] }

/-- Links that are written without being replaced stay when others are, those of a relation that is
hidden are neither written nor read, and marks in a name lead to another table. -/
theorem links_go_astray :
    Strays workerSkill Staff.worker
      [⟨skillful 1 [3], 1, false, none⟩, ⟨skillful 1 [], 1, false, none⟩]
        [skillful 1 []]
      ∧ Strays workerSkill hidden [⟨skillful 1 [3], 1, true, none⟩] [skillful 1 []]
      ∧ Strays (.between "\x010\x01" "skills" marked Staff.skill) marked
        [⟨skillful 1 [3], 1, true, none⟩] [skillful 1 []] :=
  ⟨strays_of_skills (by decide) (by decide) (by decide) (by decide) (by decide) (by decide +kernel),
    strays_of_skills (by decide) (by decide) (by decide) (by decide) (by decide)
      (by decide +kernel),
    strays_of_skills (by decide) (by decide) (by decide) (by decide) (by decide)
      (by decide +kernel)⟩

end Links

end EntityStore
