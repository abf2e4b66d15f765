import EntityStore.Proofs.Database.Replies
import EntityStore.Proofs.Storing.Linking

/-!
Entities that are fetched by their ids. The rows for a request come in any order, and there may be
rows that nobody asked for; the entities come in the order in which their ids were first asked for,
each once. An update of many items fetches what it has written in this way, so each of the items that
is there comes back once, and is told of once, in the order of the items.
-/

namespace EntityStore

variable {σ ε : Type} {env : Setting σ} {i : StorageId}

/-! ### Entities in the order of a request -/

namespace Manager

/-- The entities of a list with requested ids, each where its id is first requested. Since the places
ascend strictly, no two of them have one id. -/
structure InRequestOrder (type : EntityType ε) (ids : List Int64) (found result : List ε) : Prop where
  exact : ∀ e, e ∈ result ↔ e ∈ found ∧ type.id e ∈ ids
  ordered : result.Pairwise fun a b => ids.idxOf (type.id a) < ids.idxOf (type.id b)

/-- The entries hold each entity of a list under its id, and nothing else. -/
def Holds (type : EntityType ε) (entries : List (Int64 × ε)) (found : List ε) : Prop :=
  ∀ id e, entries.lookup id = some e ↔ e ∈ found ∧ type.id e = id

variable {type : EntityType ε} {entries : List (Int64 × ε)} {found : List ε}

/-- Entities with ids of their own are held each under its id. -/
theorem holds_byId (distinct : (found.map type.id).Nodup) : Holds type (byId type found) found := by
  have put (entries : List (Int64 × ε)) (id : Int64) (e : ε) :
      (found.foldl (fun held item => Assoc.put (type.id item) item held) entries).lookup id = some e ↔
        (e ∈ found ∧ type.id e = id) ∨
          (id ∉ found.map type.id ∧ entries.lookup id = some e) := by
    induction found generalizing entries with
    | nil => simp
    | cons first rest ih =>
        obtain ⟨apart, distinct⟩ := List.nodup_cons.1 distinct
        rw [List.foldl_cons, ih distinct, Assoc.lookup_put, List.map_cons]
        by_cases here : id = type.id first
        · subst here
          have others : ¬ (e ∈ rest ∧ type.id e = type.id first) := fun ⟨inside, same⟩ =>
            apart (same ▸ List.mem_map_of_mem inside)
          simp only [apart, others, beq_self_eq_true, if_true, not_false_eq_true, true_and, false_or,
            Option.some.injEq, List.mem_cons, not_true_eq_false, false_and, or_false]
          constructor
          · rintro rfl
            exact ⟨.inl rfl, rfl⟩
          · rintro ⟨rfl | inside, same⟩
            · rfl
            · exact absurd ⟨inside, same⟩ others
        · have first_ne : ∀ other, type.id other = id → other ≠ first := by
            rintro other same rfl
            exact here same.symm
          rw [if_neg (by simpa using here)]
          simp only [List.mem_cons, here, false_or]
          constructor
          · rintro (⟨inside, same⟩ | old)
            · exact .inl ⟨.inr inside, same⟩
            · exact .inr old
          · rintro (⟨equal | inside, same⟩ | old)
            · exact absurd equal (first_ne e same)
            · exact .inl ⟨inside, same⟩
            · exact .inr old
  intro id e
  rw [byId, put]
  simp

/-- What is held once an entity has been taken. -/
theorem Holds.taken (holds : Holds type entries found) (id : Int64) :
    Holds type (entries.filter fun (key, _) => key != id) (found.filter fun e => type.id e != id) := by
  intro other e
  rw [List.mem_filter, bne_iff_ne]
  by_cases same : other = id
  · subst same
    rw [Assoc.lookup_removed]
    constructor
    · nofun
    · rintro ⟨⟨-, apart⟩, equal⟩
      exact absurd equal apart
  · rw [Assoc.lookup_without _ same, holds]
    constructor
    · rintro ⟨inside, rfl⟩
      exact ⟨⟨inside, same⟩, rfl⟩
    · rintro ⟨⟨inside, -⟩, equal⟩
      exact ⟨inside, equal⟩

private theorem ordered_behind {id : Int64} {ids : List Int64} {result : List ε}
    (apart : ∀ e ∈ result, type.id e ≠ id)
    (ordered : result.Pairwise fun a b => ids.idxOf (type.id a) < ids.idxOf (type.id b)) :
    result.Pairwise fun a b => (id :: ids).idxOf (type.id a) < (id :: ids).idxOf (type.id b) := by
  refine ordered.imp_of_mem fun {a b} first second earlier => ?_
  rw [List.idxOf_cons_ne _ (apart a first).symm, List.idxOf_cons_ne _ (apart b second).symm]
  exact Nat.succ_lt_succ earlier

/-- The walk along a request, with what has not been taken yet as its invariant. -/
theorem inOrder_inRequestOrder (ids : List Int64) (holds : Holds type entries found) :
    InRequestOrder type ids found (inOrder ids entries) := by
  induction ids generalizing entries found with
  | nil => exact ⟨fun e => by simp [inOrder], List.Pairwise.nil⟩
  | cons id rest ih =>
      rw [inOrder]
      cases there : entries.lookup id with
      | none =>
          have absent : ∀ e ∈ found, type.id e ≠ id := by
            intro e inside same
            have held := (holds id e).2 ⟨inside, same⟩
            rw [there] at held
            cases held
          obtain ⟨exact, ordered⟩ := ih holds
          refine ⟨fun e => ?_, ordered_behind (fun e inside => absent e ((exact e).1 inside).1) ordered⟩
          rw [exact, List.mem_cons]
          constructor
          · rintro ⟨inside, asked⟩
            exact ⟨inside, .inr asked⟩
          · rintro ⟨inside, first | asked⟩
            · exact absurd first (absent e inside)
            · exact ⟨inside, asked⟩
      | some taken =>
          obtain ⟨inside, here⟩ := (holds id taken).1 there
          obtain ⟨exact, ordered⟩ := ih (holds.taken id)
          have others : ∀ e ∈ inOrder rest (entries.filter fun (key, _) => key != id),
              type.id e ≠ id := fun e later =>
            bne_iff_ne.1 (List.mem_filter.1 ((exact e).1 later).1).2
          refine ⟨fun e => ?_, List.pairwise_cons.2 ⟨fun e later => ?_, ordered_behind others ordered⟩⟩
          · rw [List.mem_cons, exact, List.mem_filter, bne_iff_ne, List.mem_cons]
            constructor
            · rintro (rfl | ⟨⟨known, -⟩, asked⟩)
              · exact ⟨inside, .inl here⟩
              · exact ⟨known, .inr asked⟩
            · rintro ⟨known, asked⟩
              by_cases first : type.id e = id
              · have held := (holds id e).2 ⟨known, first⟩
                rw [there] at held
                exact .inl (Option.some.inj held).symm
              · exact .inr ⟨⟨known, first⟩, asked.resolve_left first⟩
          · rw [here, List.idxOf_cons_self, List.idxOf_cons_ne _ (others e later).symm]
            exact Nat.succ_pos _

end Manager

/-! ### Links that are looked up -/

namespace Links

/-- The look-ups of the links of owners in one table after the other: the statement of each, what the
provider answers to it where it stands then, and the links that its rows are. -/
inductive LookedUp (env : Setting σ) (i : StorageId) (owners : List Int64) :
    List LinkTable → σ → List (LinkTable × List (Int64 × Int64)) → Prop
  | done (w : σ) : LookedUp env i owners [] w []
  | next {link : LinkTable} {q : Sql.Statement} {w after : σ} {rows : List Row}
      {pairs : List (Int64 × Int64)} {rest : List LinkTable}
      {later : List (LinkTable × List (Int64 × Int64))}
      (bound : (Sql.selectWhereIn (Storage.dialect env i) link.table
        [link.ownerColumn, link.targetColumn] link.ownerColumn owners).bind [] = .ok q)
      (answers : (env.provider i).query q w = (.ok rows, after))
      (read : rows.mapM (readLink link) = .ok pairs)
      (others : LookedUp env i owners rest after later) :
      LookedUp env i owners (link :: rest) w ((link, pairs) :: later)

def linked (type : EntityType ε) : List (LinkTable × List (Int64 × Int64)) → ε → ε
  | [], item => item
  | (link, pairs) :: rest, item =>
    let targets := (pairs.filter (·.1 = type.id item)).map (·.2)
    linked type rest (type.setLinks item link.field (ascending targets))

/-- Entities keep their ids when links are set. -/
def KeepsIds (type : EntityType ε) : Prop :=
  ∀ e field ids, type.id (type.setLinks e field ids) = type.id e

private theorem id_linked {type : EntityType ε} (keeps : KeepsIds type)
    (reads : List (LinkTable × List (Int64 × Int64))) (item : ε) :
    type.id (linked type reads item) = type.id item := by
  induction reads generalizing item with
  | nil => rfl
  | cons read rest ih => exact (ih _).trans (keeps _ _ _)

theorem ids_linked {type : EntityType ε} (keeps : KeepsIds type)
    (reads : List (LinkTable × List (Int64 × Int64))) (items : List ε) :
    (items.map (linked type reads)).map type.id = items.map type.id := by
  rw [List.map_map]
  exact List.map_congr_left fun item _ => id_linked keeps reads item

/-- One look-up hands each entity its targets. -/
theorem run_loadTable {type : EntityType ε} {link : LinkTable} {q : Sql.Statement} {rows : List Row}
    {pairs : List (Int64 × Int64)} {after : σ} {items : List ε} {s : State σ ε} {owners : List Int64}
    (bound : (Sql.selectWhereIn (Storage.dialect env i) link.table
      [link.ownerColumn, link.targetColumn] link.ownerColumn owners).bind [] = .ok q)
    (answers : (env.provider i).query q s.outside = (.ok rows, after))
    (read : rows.mapM (readLink link) = .ok pairs) (distinct : (items.map type.id).Nodup) :
    ∃ ended, (loadTable env i type owners items link).run.run s =
        (.ok (items.map (linked type [(link, pairs)])), ended) ∧ ended.outside = after := by
  obtain ⟨ended, queried, there⟩ := Storage.query_ends (ε := ε) answers
  refine ⟨ended, ?_, there⟩
  have asked : (Storage.queryTemplate env i (Sql.selectWhereIn (Storage.dialect env i) link.table
      [link.ownerColumn, link.targetColumn] link.ownerColumn owners) : Attempt σ ε _).run.run s =
      (.ok rows, ended) :=
    (Attempt.run_bind_ok (Storage.bound_run bound)).trans queried
  rw [loadTable, Attempt.run_bind_ok asked, read]
  show ((.ok (handOut type link.field (pairs.foldl addTarget []) items), ended) :
    Except EngineError (List ε) × State σ ε) = _
  rw [handOut_eq link.field _ distinct]
  refine congrArg (fun news => ((.ok news, ended) : Except EngineError (List ε) × State σ ε)) ?_
  refine List.map_congr_left fun item _ => ?_
  rw [lookup_gathered]
  rfl

/-- The look-ups in one table after the other hand each entity its targets in all of them. -/
theorem run_loadTables {type : EntityType ε} (keeps : KeepsIds type) {owners : List Int64}
    {tables : List LinkTable} {w : σ} {reads : List (LinkTable × List (Int64 × Int64))}
    (looked : LookedUp env i owners tables w reads) {items : List ε} {s : State σ ε}
    (here : s.outside = w) (distinct : (items.map type.id).Nodup) :
    ∃ ended, (tables.foldlM (loadTable env i type owners) items).run.run s =
      (.ok (items.map (linked type reads)), ended) := by
  induction looked generalizing items s with
  | done w =>
      have same : items.map (linked type []) = items := List.map_id' items
      rw [same]
      exact ⟨s, rfl⟩
  | @next link q w after rows pairs rest later bound answers read others ih =>
      subst here
      obtain ⟨between, loaded, there⟩ := run_loadTable bound answers read distinct
      have still : ((items.map (linked type [(link, pairs)])).map type.id).Nodup :=
        (ids_linked keeps _ items).symm ▸ distinct
      obtain ⟨ended, ran⟩ := ih there still
      refine ⟨ended, ?_⟩
      rw [List.foldlM_cons, Attempt.run_bind_ok loaded, ran, List.map_map]
      rfl

private theorem run_load {type : EntityType ε} (keeps : KeepsIds type) {items : List ε} {s : State σ ε}
    {reads : List (LinkTable × List (Int64 × Int64))} (distinct : (items.map type.id).Nodup)
    (looked : items ≠ [] → LookedUp env i (items.map type.id) (tablesOf env.schema type.model none)
      s.outside reads) :
    ∃ ended, (load env i type items).run.run s = (.ok (items.map (linked type reads)), ended) := by
  unfold load
  split
  · next none =>
      rw [List.isEmpty_iff.1 none]
      exact ⟨s, rfl⟩
  · next some =>
      exact run_loadTables keeps (looked fun none => some (List.isEmpty_iff.2 none)) rfl distinct

end Links

namespace Manager

/-! ### What a request for ids gets -/

/-- What the database answers to a request for ids: rows that are entities with ids of their own to the
statement that is sent for them, and then rows that are links to each look-up of the links of these
entities. The rows may come in any order, and there may be some whose ids were not asked for. -/
structure Supply (env : Setting σ) (m : Manager ε) (ids : List Int64) (w : σ) where
  template : Sql.Template
  statement : Sql.Statement
  rows : List Row
  between : σ
  items : List ε
  reads : List (LinkTable × List (Int64 × Int64))
  compiles : (m.query.filter (m.idFilter ids)).compile env = .ok template
  bound : template.bind [] = .ok statement
  answers : (env.provider m.storage).query statement w = (.ok rows, between)
  read : rows.mapM m.type.ofRow = .ok items
  distinct : (items.map m.type.id).Nodup
  looked : items ≠ [] → Links.LookedUp env m.storage (items.map m.type.id)
    (Links.tablesOf env.schema m.type.model none) between reads

def Supply.found {m : Manager ε} {ids : List Int64} {w : σ} (supply : Supply env m ids w) : List ε :=
  supply.items.map (Links.linked m.type supply.reads)

variable {m : Manager ε} {ids : List Int64} {s : State σ ε}

private theorem run_filtered (keeps : Links.KeepsIds m.type) (supply : Supply env m ids s.outside) :
    (((m.query.filter (m.idFilter ids)).run env).run s).1 = .ok supply.found := by
  obtain ⟨queried, ran, there⟩ := Storage.query_ends (ε := ε) supply.answers
  obtain ⟨loaded, loads⟩ := Links.run_load keeps (s := queried) supply.distinct
    (there ▸ supply.looked)
  have whole : (Query.load env m.storage m.type supply.template [] : Attempt σ ε _).run.run s =
      (.ok supply.found, loaded) := by
    rw [Query.load, Attempt.run_bind_ok (Storage.bound_run supply.bound), Attempt.run_bind_ok ran,
      supply.read]
    exact loads
  rw [Query.run_of_compile supply.compiles]
  exact congrArg Prod.fst (Attempt.outcome_run whole)

theorem getByIds_inRequestOrder (keeps : Links.KeepsIds m.type)
    (supply : Supply env m ids s.outside) :
    ∃ result, ((m.getByIds env ids).run s).1 = .ok result ∧
      InRequestOrder m.type ids supply.found result := by
  have distinct : (supply.found.map m.type.id).Nodup := by
    rw [Supply.found, Links.ids_linked keeps]
    exact supply.distinct
  refine ⟨_, ?_, inOrder_inRequestOrder ids (holds_byId distinct)⟩
  rw [run_getByIds, run_filtered keeps supply]
  rfl

/-! ### What is told of items that are fetched -/

/-- Being told of items is all that hooks and observers are called for. -/
theorem callbacks_told (hooks? : Option (Hooks ε)) (observers : List (Observer ε))
    (mutation : Mutation) (given : List ε) (s : State σ ε) :
    let told := (given.flatMap (m.calls hooks? observers mutation)).map Callback.event
    (s.heard told).callbacks = s.callbacks ++ told := by
  intro told
  have all : told.filter Event.isCallback = told := by
    refine List.filter_eq_self.2 fun e inside => ?_
    obtain ⟨call, made, rfl⟩ := List.mem_map.1 inside
    obtain ⟨item, -, called⟩ := List.mem_flatMap.1 made
    rcases List.mem_append.1 called with hook | observer
    · obtain ⟨hooks, -, rfl⟩ := Option.map_eq_some_iff.1 (Option.mem_toList.1 hook)
      rfl
    · obtain ⟨o, -, rfl⟩ := List.mem_map.1 observer
      rfl
  simp [State.callbacks, State.heard, all]

private theorem Serves.run_given {mutation : Mutation}
    {builder op : List ε → Engine σ ε (Outcome (List ε))} (serves : Serves env m mutation builder op)
    {items given : List ε} {errors : List EngineError} {after : State σ ε}
    (done : (builder (admitted (items.map (verdict (s.hooks? m.number) mutation)))).run
      (s.heard (items.flatMap (m.asked (s.hooks? m.number) mutation))) = (⟨some given, errors⟩, after)) :
    let calls := given.flatMap (m.calls (s.hooks? m.number) (s.observers m.number mutation) mutation)
    (op items).run s =
      (⟨some given, rejected (items.map (verdict (s.hooks? m.number) mutation)) ++ errors ++
          calls.filterMap Callback.failure?⟩,
        after.heard (calls.map Callback.event)) := by
  have ran := serves.run items s
  dsimp only at ran
  rw [done] at ran
  exact ran

private theorem run_rewrite_fetched (m : Manager ε) {fields : List String} {accepted given : List ε}
    {n : Nat}
    {written : Outcome Nat × State σ ε}
    (wrote : ((m.updating fields accepted).run env).run s = written)
    (value : written.1.value? = some n)
    (fetched : ((m.getByIds env (accepted.map m.type.id)).run written.2).1 = .ok given) :
    (m.rewrite env fields accepted).run s = (⟨some given, written.1.errors⟩,
      ((m.getByIds env (accepted.map m.type.id)).run written.2).2) := by
  rw [run_rewrite, wrote, value]
  dsimp only
  rw [fetched]
  show ((⟨some given, written.1.errors ++ []⟩, _) : Outcome (List ε) × State σ ε) = _
  rw [List.append_nil]

/-- An update of many items gives those that are there, and tells of them, as they are fetched. -/
theorem updateMany_inRequestOrder (keeps : Links.KeepsIds m.type) {items accepted : List ε}
    {fields : List String} {asking : State σ ε} {written : Outcome Nat × State σ ε}
    (judged : admitted (items.map (verdict (s.hooks? m.number) .update)) = accepted)
    (asked : s.heard (items.flatMap (m.asked (s.hooks? m.number) .update)) = asking)
    (wrote : ((m.updating fields accepted).run env).run asking = written)
    (there : written.1.value?.isSome)
    (supply : Supply env m (accepted.map m.type.id) written.2.outside) :
    ∃ given, ((m.updateMany env items fields).run s).1.value? = some given ∧
      InRequestOrder m.type (accepted.map m.type.id) supply.found given ∧
      let calls := given.flatMap
        (m.calls (s.hooks? m.number) (s.observers m.number .update) .update)
      ((m.updateMany env items fields).run s).1.errors =
          rejected (items.map (verdict (s.hooks? m.number) .update)) ++ written.1.errors ++
            calls.filterMap Callback.failure? ∧
        ((m.updateMany env items fields).run s).2.callbacks =
          asking.callbacks ++ calls.map Callback.event := by
  have serves : Serves env m .update (m.rewrite env fields)
    (fun items => m.updateMany env items fields) := .updateMany fields
  obtain ⟨given, fetched, inOrder⟩ := getByIds_inRequestOrder keeps supply
  obtain ⟨n, value⟩ := Option.isSome_iff_exists.1 there
  have rewritten := m.run_rewrite_fetched wrote value fetched
  have quiet := (serves.deaf accepted asking).callbacks
  rw [rewritten] at quiet
  subst judged asked
  have ran := serves.run_given rewritten
  refine ⟨given, congrArg (·.1.value?) ran, inOrder, congrArg (·.1.errors) ran, ?_⟩
  dsimp only at ran ⊢
  rw [congrArg Prod.snd ran, callbacks_told, quiet]

/-- **Entities come in the order in which their ids were asked for.** Whatever rows with ids of their own
the database answers to a request for ids, the result has the entity of each row whose id was asked
for, where it was first asked for, and no other. So an update of many items, once the items that the
hooks let through have been written, gives each of them that is there once, in their order, and calls
the hook and the observers once for each of those, in the same order, and reading them back adds no
error. -/
theorem fetched_in_request_order (m : Manager ε) (keeps : Links.KeepsIds m.type) :
    (∀ (ids : List Int64) (s : State σ ε) (supply : Supply env m ids s.outside),
      ∃ result, ((m.getByIds env ids).run s).1 = .ok result ∧
        InRequestOrder m.type ids supply.found result) ∧
    ∀ (items : List ε) (fields : List String) (s : State σ ε),
      let verdicts := items.map (verdict (s.hooks? m.number) .update)
      let asking := s.heard (items.flatMap (m.asked (s.hooks? m.number) .update))
      let written := ((m.updating fields (admitted verdicts)).run env).run asking
      let ids := (admitted verdicts).map m.type.id
      let updated := (m.updateMany env items fields).run s
      written.1.value?.isSome → ∀ supply : Supply env m ids written.2.outside,
        ∃ given, updated.1.value? = some given ∧
          InRequestOrder m.type ids supply.found given ∧
          let calls := given.flatMap
            (m.calls (s.hooks? m.number) (s.observers m.number .update) .update)
          updated.1.errors =
              rejected verdicts ++ written.1.errors ++ calls.filterMap Callback.failure? ∧
            updated.2.callbacks = asking.callbacks ++ calls.map Callback.event := by
  refine ⟨fun ids s supply => getByIds_inRequestOrder keeps supply, ?_⟩
  intro items fields s verdicts asking written ids updated there supply
  exact updateMany_inRequestOrder keeps rfl rfl rfl there supply

/-! ### Workers that are asked for twice -/

def staff : Manager Record := ⟨0, Record.entityType ⟨0⟩ Staff.worker, 0⟩

def office : Setting Scripts :=
  { Party.scripted with schema := Staff.skilled }

def fitter (id : Int64) (name : String) : Record where
  id := id
  values := [("name", .text name), ("title", .text "fitter")]

def fitters : List Record :=
  [fitter 7 "Ada", fitter 1 "Bo", fitter 3 "Cy"]

def staffRows : List Row :=
  fitters.map fun r => ⟨("id", .int r.id) :: r.values⟩

def skillRows : List Row :=
  [(3, 5), (1, 4)].map (Links.rowFor Links.workerSkill)

def staffed : Scripts :=
  ⟨fun _ => { query := [.ok (some staffRows), .ok (some skillRows)] }⟩

example : ((staff.getByIds office [3, 1, 3, 9]).run { outside := staffed }).1.value?.map
    (·.map fun r => (r.id, r.links)) = some [(3, [("skills", [5])]), (1, [("skills", [4])])] := by
  decide +kernel

private theorem played {w : Scripts} {rows : List Row} {rest : List (ScriptedAnswer (List Row))}
    (q : Sql.Statement) (script : (w.script 0).query = .ok (some rows) :: rest) :
    ∃ after, (office.provider 0).query q w = (.ok rows, after) ∧ (after.script 0).query = rest := by
  have answered : (office.provider 0).query q w = (.ok rows,
      w.setScript 0 { w.script 0 with query := rest }) := by
    show Scripts.next 0 (·.query) (fun s rest => { s with query := rest }) [] w = _
    rw [Scripts.next, script]
    rfl
  exact ⟨_, answered, congrArg Script.query (setAt_self w.script 0 _)⟩

private theorem ok_of_toOption {α β : Type} {r : Except β α} {a : α} (there : r.toOption = some a) :
    r = .ok a := by
  cases r with
  | ok found => exact congrArg Except.ok (Option.some.inj there)
  | error e => cases there

/-- What is about to be given is an answer to any request whose statement is sent. -/
private theorem exists_supply (ids : List Int64) (w : Scripts)
    (sent : (((staff.query.filter (staff.idFilter ids)).compile office).toOption.bind
      fun t => (t.bind []).toOption).isSome)
    (script : (w.script 0).query = [.ok (some staffRows), .ok (some skillRows)]) :
    ∃ supply : Supply office staff ids w, supply.found.map staff.type.id = [7, 1, 3] := by
  obtain ⟨q, sent⟩ := Option.isSome_iff_exists.1 sent
  obtain ⟨t, compiled, bound⟩ := Option.bind_eq_some_iff.1 sent
  obtain ⟨between, answers, left⟩ := played q script
  have table : Sql.MarkFree Links.workerSkill.table := by decide
  have owner : Sql.MarkFree Links.workerSkill.ownerColumn := by decide
  have columns : ∀ column ∈ [Links.workerSkill.ownerColumn, Links.workerSkill.targetColumn],
      Sql.MarkFree column := by decide
  obtain ⟨look, looks, -⟩ :=
    Sql.lookUp_binds (Storage.dialect office 0) table columns owner [7, 1, 3]
  obtain ⟨after, found, -⟩ := played look left
  have looked : Links.LookedUp office 0 [7, 1, 3] [Links.workerSkill] between
      [(Links.workerSkill, [(3, 5), (1, 4)])] :=
    .next looks found (Links.mapM_readLink (by decide) _) (.done after)
  let supply : Supply office staff ids w :=
    { template := t
      statement := q
      rows := staffRows
      between := between
      items := fitters
      reads := [(Links.workerSkill, [(3, 5), (1, 4)])]
      compiles := ok_of_toOption compiled
      bound := ok_of_toOption bound
      answers := answers
      read := rfl
      distinct := by decide
      looked := fun _ => looked }
  exact ⟨supply, rfl⟩

def morning : State Scripts Record where
  outside := staffed

def promotion : Outcome Nat × State Scripts Record :=
  ((staff.updating ["title"] [fitter 3 "Cy", fitter 1 "Bo", fitter 3 "Cy"]).run office).run morning

/-- Two workers come for a request of four ids, and for an update of three, in the order in which they
are asked for and updated. -/
theorem staff_come_in_request_order :
    Links.KeepsIds staff.type ∧
    (∃ supply : Supply office staff [3, 1, 3, 9] morning.outside,
      supply.found.map staff.type.id = [7, 1, 3] ∧
      ∃ result, ((staff.getByIds office [3, 1, 3, 9]).run morning).1 = .ok result ∧
        InRequestOrder staff.type [3, 1, 3, 9] supply.found result) ∧
    promotion.1.value?.isSome ∧
    ∃ supply : Supply office staff [3, 1, 3] promotion.2.outside,
      ∃ given, ((staff.updateMany office [fitter 3 "Cy", fitter 1 "Bo", fitter 3 "Cy"]
          ["title"]).run morning).1.value? = some given ∧
        InRequestOrder staff.type [3, 1, 3] supply.found given := by
  have keeps : Links.KeepsIds staff.type := (Links.record_lawful _ _).id
  obtain ⟨asks, updates⟩ := @fetched_in_request_order Scripts Record office staff keeps
  obtain ⟨fetched, ids⟩ := exists_supply [3, 1, 3, 9] morning.outside (by decide +kernel) rfl
  have there : promotion.1.value?.isSome := by decide +kernel
  obtain ⟨supply, -⟩ := exists_supply [3, 1, 3] promotion.2.outside (by decide +kernel) (by rfl)
  refine ⟨keeps, ⟨fetched, ids, asks [3, 1, 3, 9] morning fetched⟩, there, supply, ?_⟩
  have told := updates [fitter 3 "Cy", fitter 1 "Bo", fitter 3 "Cy"] ["title"] morning
  have asking : morning.heard ([fitter 3 "Cy", fitter 1 "Bo", fitter 3 "Cy"].flatMap
      (staff.asked (morning.hooks? staff.number) .update)) = morning := State.heard_nil morning
  have judged : admitted ([fitter 3 "Cy", fitter 1 "Bo", fitter 3 "Cy"].map
      (verdict (morning.hooks? staff.number) .update)) =
      [fitter 3 "Cy", fitter 1 "Bo", fitter 3 "Cy"] := rfl
  dsimp only at told
  rw [asking, judged] at told
  obtain ⟨given, value, order, -⟩ := told there supply
  exact ⟨given, value, order⟩

end Manager

end EntityStore
