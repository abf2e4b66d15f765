import EntityStore.Proofs.Storing.Relations
import Mathlib.Data.Set.Basic

/-!
Link tables as sets of pairs. Writing the links of an owner adds its targets to those that it has,
or puts them in their place, and leaves every other owner and every other relation alone.
-/

namespace EntityStore

variable {ε : Type}

abbrev LinkSets := String → Set (Int64 × Int64)

namespace LinkSets

def afterChange (pairs : Set (Int64 × Int64)) : Change → Set (Int64 × Int64)
  | .insert _ _ _ rows => pairs ∪ {p | Links.pair p.1 p.2 ∈ rows}
  | .delete _ _ ids => {p ∈ pairs | p.1 ∉ ids}
  | .update .. => pairs

def changed (S : LinkSets) (c : Change) : LinkSets :=
  fun table => if c.table = table then afterChange (S table) c else S table

/-- The link tables after targets of an owner were written, in place of the old ones or beside them.
-/
def written (S : LinkSets) (link : LinkTable) (owner : Int64) (replace : Bool) (ts : List Int64) :
    LinkSets :=
  fun table =>
    if link.table = table then
      {p | (p ∈ S table ∧ ¬(replace = true ∧ p.1 = owner)) ∨ (p.1 = owner ∧ p.2 ∈ ts)}
    else S table

private theorem mem_written {S : LinkSets} {link : LinkTable} {owner : Int64} {replace : Bool}
    {ts : List Int64} {p : Int64 × Int64} : p ∈ S.written link owner replace ts link.table ↔
      (p ∈ S link.table ∧ ¬(replace = true ∧ p.1 = owner)) ∨ (p.1 = owner ∧ p.2 ∈ ts) := by
  rw [written, if_pos rfl, Set.mem_ofPred_eq]

private theorem foldl_insertions (S : LinkSets) (link : LinkTable) (owner : Int64)
    (chunks : List (List Int64)) :
    (chunks.map (Links.insertion link owner)).foldl changed S =
      S.written link owner false chunks.flatten := by
  induction chunks generalizing S with
  | nil =>
      funext table
      simp [written]
  | cons ts rest ih =>
      rw [List.map_cons, List.foldl_cons, ih]
      funext table
      by_cases here : link.table = table
      · have inserted (p : Int64 × Int64) : p ∈ changed S (Links.insertion link owner ts) table ↔
            p ∈ S table ∨ p.1 = owner ∧ p.2 ∈ ts := by
          rw [show changed S (Links.insertion link owner ts) table =
            S table ∪ {p | Links.pair p.1 p.2 ∈ ts.map (Links.pair owner)} from if_pos here]
          refine or_congr_right (List.mem_map.trans ?_)
          constructor
          · rintro ⟨t, inside, same⟩
            cases same
            exact ⟨rfl, inside⟩
          · rintro ⟨rfl, inside⟩
            exact ⟨p.2, inside, rfl⟩
        ext p
        simp only [written, if_pos here, Set.mem_ofPred_eq, inserted, List.flatten_cons,
          List.mem_append]
        tauto
      · have same : changed S (Links.insertion link owner ts) table = S table := if_neg here
        simp only [written, if_neg here, same]

/-- The changes by which links are written do so. -/
theorem foldl_changes (S : LinkSets) (type : EntityType ε) (item : ε) (id : Int64) (replace : Bool)
    (link : LinkTable) :
    (Links.changes type item id replace link).foldl changed S =
      S.written link id replace (Links.targets (type.links item link.field)) := by
  rw [Links.changes, List.foldl_append, foldl_insertions, flatten_chunksOf]
  cases replace with
  | false => rfl
  | true =>
      funext table
      by_cases here : link.table = table
      · have cleared : changed S (.delete link.table link.ownerColumn [id]) table =
            {p ∈ S table | p.1 ∉ [id]} := if_pos here
        ext ⟨o, t⟩
        simp only [written, if_pos here, if_true, List.foldl_cons, List.foldl_nil, cleared]
        simp
      · have same : changed S (.delete link.table link.ownerColumn [id]) table = S table :=
          if_neg here
        simp only [written, if_neg here, if_true, List.foldl_cons, List.foldl_nil, same]

def of (S : LinkSets) (link : LinkTable) (owner : Int64) : Set Int64 :=
  {t | (owner, t) ∈ S link.table}

theorem foldl_written_other (S : LinkSets) (owner : Int64) (replace : Bool)
    (ts : LinkTable → List Int64) {links : List LinkTable} {table : String}
    (apart : ∀ link ∈ links, link.table ≠ table) :
    links.foldl (fun S link => S.written link owner replace (ts link)) S table = S table := by
  induction links generalizing S with
  | nil => rfl
  | cons link rest ih =>
      obtain ⟨first, others⟩ := List.forall_mem_cons.1 apart
      rw [List.foldl_cons, ih _ others]
      exact if_neg first

/-- Where relations have tables of their own, each is written once. -/
theorem foldl_written_self (S : LinkSets) (owner : Int64) (replace : Bool)
    (ts : LinkTable → List Int64) {links : List LinkTable} (distinct : (links.map (·.table)).Nodup)
    {link : LinkTable} (member : link ∈ links) :
    links.foldl (fun S link => S.written link owner replace (ts link)) S link.table =
      S.written link owner replace (ts link) link.table := by
  induction links generalizing S with
  | nil => cases member
  | cons first rest ih =>
      obtain ⟨apart, distinct⟩ := List.nodup_cons.1 distinct
      rw [List.foldl_cons]
      rcases List.mem_cons.1 member with rfl | later
      · exact foldl_written_other _ owner replace ts fun other inside same =>
          apart (List.mem_map.2 ⟨other, inside, same⟩)
      · have other : first.table ≠ link.table := fun same =>
          apart (List.mem_map.2 ⟨link, later, same.symm⟩)
        rw [ih _ distinct later]
        simp only [written, if_pos, if_neg other]

end LinkSets

/-! ### Sequences of writes -/

/-- A write of an entity's links under an owner's id, of all relations or only of some, beside the
old links or in their place. -/
structure LinkWrite (ε : Type) where
  item : ε
  owner : Int64
  replace : Bool
  only? : Option (List String) := none

namespace LinkWrite

/-- Whether the write is about a relation. -/
def Covers (w : LinkWrite ε) (field : String) : Prop :=
  ∀ names, w.only? = some names → field ∈ names

instance (w : LinkWrite ε) (field : String) : Decidable (w.Covers field) :=
  match h : w.only? with
  | none => isTrue fun _ same => by cases h.symm.trans same
  | some names => decidable_of_iff (field ∈ names)
      ⟨fun member _ same => by cases h.symm.trans same; exact member, fun covers => covers names h⟩

def changes (schema : Schema) (type : EntityType ε) (w : LinkWrite ε) : List Change :=
  (Links.tablesOf schema type.model w.only?).flatMap (Links.changes type w.item w.owner w.replace)

/-- What a write makes of the targets that an owner has in a relation. -/
def onTargets (type : EntityType ε) (field : String) (owner : Int64) (before : Set Int64)
    (w : LinkWrite ε) : Set Int64 :=
  if w.owner = owner ∧ w.Covers field then
    (if w.replace then ∅ else before) ∪ {t | t ∈ type.links w.item field}
  else before

/-- The targets that an owner has in a relation after some writes: those written since its links
were last replaced, and what was there before unless they were. -/
def standing (type : EntityType ε) (field : String) (owner : Int64) (before : Set Int64)
    (writes : List (LinkWrite ε)) : Set Int64 :=
  writes.foldl (onTargets type field owner) before

variable {schema : Schema} {type : EntityType ε}

theorem mem_tablesOf_only {w : LinkWrite ε} {link : LinkTable} :
    link ∈ Links.tablesOf schema type.model w.only? ↔
      link ∈ Links.tablesOf schema type.model none ∧ w.Covers link.field := by
  unfold Covers
  cases w.only? with
  | none => simp
  | some names => simp [Links.mem_tablesOf_some]

/-- After a write, an owner's targets are those written, or as before. -/
theorem of_changed (distinct : ((Links.tablesOf schema type.model none).map (·.table)).Nodup)
    {link : LinkTable} (member : link ∈ Links.tablesOf schema type.model none) (owner : Int64)
    (S : LinkSets) (w : LinkWrite ε) :
    ((w.changes schema type).foldl LinkSets.changed S).of link owner =
      onTargets type link.field owner (S.of link owner) w := by
  have all : (w.changes schema type).foldl LinkSets.changed S =
      (Links.tablesOf schema type.model w.only?).foldl
        (fun S link => S.written link w.owner w.replace
        (Links.targets (type.links w.item link.field))) S := by
    rw [changes, List.foldl_flatMap]
    simp only [LinkSets.foldl_changes]
  have apart : ((Links.tablesOf schema type.model w.only?).map (·.table)).Nodup :=
    ((Links.tablesOf_sublist schema type.model w.only?).map _).nodup distinct
  rw [all]
  by_cases covers : w.Covers link.field
  · ext t
    rw [LinkSets.of, Set.mem_ofPred_eq, LinkSets.foldl_written_self S w.owner w.replace
      (fun link => Links.targets (type.links w.item link.field)) apart
      (mem_tablesOf_only.2 ⟨member, covers⟩), LinkSets.mem_written, Links.mem_targets, onTargets]
    by_cases here : w.owner = owner
    · rw [if_pos ⟨here, covers⟩, here]
      cases w.replace with
      | false => simp [LinkSets.of]
      | true => simp
    · rw [if_neg fun both => here both.1]
      simp [LinkSets.of, Ne.symm here]
  · have other : ∀ link' ∈ Links.tablesOf schema type.model w.only?, link'.table ≠ link.table := by
      intro link' inside same
      obtain ⟨known, covers'⟩ := mem_tablesOf_only.1 inside
      exact covers (List.inj_on_of_nodup_map distinct known member same ▸ covers')
    rw [LinkSets.of, LinkSets.foldl_written_other S w.owner w.replace
      (fun link => Links.targets (type.links w.item link.field)) other, onTargets,
      if_neg fun both => covers both.2]
    rfl

theorem of_foldl_changed (distinct : ((Links.tablesOf schema type.model none).map (·.table)).Nodup)
    {link : LinkTable} (member : link ∈ Links.tablesOf schema type.model none) (owner : Int64)
    (S : LinkSets) (writes : List (LinkWrite ε)) :
    ((writes.flatMap (changes schema type)).foldl LinkSets.changed S).of link owner =
      standing type link.field owner (S.of link owner) writes := by
  unfold standing
  induction writes generalizing S with
  | nil => rfl
  | cons w rest ih =>
      rw [List.flatMap_cons, List.foldl_append, ih, of_changed distinct member, List.foldl_cons]

end LinkWrite

end EntityStore
