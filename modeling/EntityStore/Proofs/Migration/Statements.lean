import EntityStore.Migration.Provider
import EntityStore.Proofs.Engine.Course

/-!
What the usual provider of migrations does. Between opening and closing a unit it probes tables,
executes the statements of the unit's changes and of its record on its own storage, and reports. A
property that these parts have, that returning and failing have and that sequencing keeps therefore
holds of all that the provider does.
-/

namespace EntityStore

open Manner

variable {σ ε : Type}

namespace Migration

/-- The templates by which what is to happen to a model is carried out on a storage. -/
inductive Alters (env : Setting σ) (i : StorageId) (c : ModelChange) : Sql.Template → Prop
  | level {t : Sql.Template}
      (member : t ∈ Sql.createTable env.schema (Storage.dialect env i) c.model ::
        Sql.createIndexes (Storage.dialect env i) c.model) : Alters env i c t
  | link {link : LinkTable} (member : link ∈ Storage.linkTables env.schema c.model) :
      Alters env i c (Sql.createLinkTable (Storage.dialect env i) link)
  | declared {t : Sql.Template} (member : t ∈ c.createDeclared (Storage.dialect env i)) :
      Alters env i c t
  | drop : Alters env i c
      (Sql.plainTemplate (Storage.dialect env i) ((Storage.dialect env i).dropTable c.table))
  | rename {old : String} (known : c.renamedFrom? = some old) : Alters env i c
      (Sql.plainTemplate (Storage.dialect env i)
        ((Storage.dialect env i).renameTable old c.table))
  | property {p : PropertyChange} (member : p ∈ c.pendingProperties) {ts : List Sql.Template}
      (alters : p.alteration (Storage.dialect env i) c.table = .ok ts) {t : Sql.Template}
      (among : t ∈ ts) : Alters env i c t
  | index {t : Sql.Template} (member : t ∈ c.propertyIndexes (Storage.dialect env i)) :
      Alters env i c t

/-- A property of attempts that returning and failing have, that sequencing keeps, and that reports
and probes on storage `i` have. -/
structure Probing (env : Setting σ) (i : StorageId)
    (holds : (α : Type) → Attempt σ ε α → Prop) : Prop where
  closed : Closed holds
  fails {α : Type} (e : EngineError) : holds α (Attempt.ofExcept (.error e))
  report (message : String) (fields : List (String × TraceField)) :
    holds Unit (StorageProvider.traceDebug message fields)
  probe (table : String) : holds Bool (Storage.tableExists env i table)

namespace Probing

variable {env : Setting σ} {i : StorageId} {holds : (α : Type) → Attempt σ ε α → Prop}
  (P : Probing env i holds)

include P

theorem executeAll {ts : List Sql.Template}
    (each : ∀ t ∈ ts, holds Nat (Storage.executeTemplate env i t)) :
    holds Unit (Storage.executeAll env i ts) :=
  P.closed.forM_mem fun t member =>
    P.closed.bind (each t member) fun _ => P.closed.pure PUnit.unit

theorem prepare {table : String}
    (make : holds Nat (Storage.executeTemplate env i
      (createTracking (Storage.dialect env i) table))) :
    holds Unit (StorageProvider.prepare env i table) := by
  refine P.closed.bind (P.probe table) fun found => ?_
  cases found with
  | true => exact P.closed.pure ()
  | false =>
      refine P.closed.bind (P.executeAll fun t member => ?_) fun _ => P.report _ _
      cases List.mem_singleton.1 member
      exact make

private theorem save {table unitName : String}
    (record : holds Nat (Storage.executeTemplate env i
      (insertRecord (Storage.dialect env i) table unitName env.now))) :
    holds Unit (StorageProvider.save env i table unitName) := by
  refine P.executeAll fun t member => ?_
  cases List.mem_singleton.1 member
  exact record

section

variable {c : ModelChange}
  (alter : ∀ t, Alters env i c t → holds Nat (Storage.executeTemplate env i t))

include alter

private theorem createLinkTables : holds Unit (StorageProvider.createLinkTables env i c.model) := by
  refine P.closed.forM_mem fun link member => ?_
  refine P.closed.bind (P.probe link.table) fun found => ?_
  cases found with
  | true => exact P.closed.pure PUnit.unit
  | false =>
      refine P.executeAll fun t only => ?_
      cases List.mem_singleton.1 only
      exact alter _ (.link member)

private theorem createTable : holds Unit (StorageProvider.createTable env i c) := by
  refine P.closed.bind (P.probe c.table) fun found => ?_
  split
  · exact P.report _ _
  · split
    · exact P.closed.bind (P.executeAll fun t member => alter t (.level member)) fun _ =>
        P.createLinkTables alter
    · exact P.executeAll fun t member => alter t (.declared member)

private theorem applyProperties : holds Unit (StorageProvider.applyProperties env i c) := by
  refine P.closed.bind (P.closed.forM_mem fun p member => ?_) fun _ =>
    P.executeAll fun t member => alter t (.index member)
  cases found : p.alteration (Storage.dialect env i) c.table with
  | error e => exact P.fails e
  | ok ts =>
      exact P.executeAll fun t among => alter t (.property member found among)

theorem apply : holds Unit (StorageProvider.apply env i c) := by
  refine P.closed.bind (P.report _ _) fun _ => ?_
  split
  · exact P.createTable alter
  · refine P.executeAll fun t member => ?_
    cases List.mem_singleton.1 member
    exact alter _ .drop
  · refine P.closed.bind (P.executeAll fun t member => ?_) fun _ => P.applyProperties alter
    obtain ⟨old, known, rfl⟩ := List.mem_map.1 member
    exact alter _ (.rename (Option.mem_toList.1 known))
  · exact P.applyProperties alter

end

end Probing

end Migration

def State.holding (s : State σ ε) (number : Nat) (t? : Option Nat) : State σ ε :=
  { s with openUnit := setAt s.openUnit number t? }

namespace Migration.StorageProvider

variable {env : Setting σ} {i : StorageId} {number : Nat} {s : State σ ε}

theorem run_beforeUp : (beforeUp env i number).run.run s =
    match (Storage.begin env i : Attempt σ ε _).run.run s with
    | (.ok t, opened) => (.ok (), opened.holding number (some t.id))
    | (.error e, after) => (.error e, after) := by
  cases begun : (Storage.begin env i : Attempt σ ε _).run.run s with
  | mk result after =>
      cases result with
      | ok t => exact Attempt.run_bind_ok begun
      | error e => exact Attempt.run_bind_error begun

/-- Closing a unit is leaving the transaction that the provider has held till then. All ways in
which that can succeed are the same to it. -/
theorem run_afterUp {id : Nat} (holds : s.openUnit number = some id) (success : Bool) :
    (afterUp env i number success).run.run s =
      let left := (if success then Storage.commitId env i id else Storage.rollbackId env i id :
        Engine σ ε _).run (s.holding number none)
      (match left.1 with
        | .ok _ => .ok ()
        | .error e => .error e, left.2) := by
  have found : (Attempt.lift get : Attempt σ ε (State σ ε)).run.run s = (.ok s, s) := rfl
  have noted : (Attempt.lift (setOpenUnit number none) : Attempt σ ε Unit).run.run s =
    (.ok (), s.holding number none) := rfl
  rw [afterUp, Attempt.run_bind_ok found, holds]
  dsimp only
  rw [Attempt.run_bind_ok noted, Attempt.run_bind_ok (Attempt.run_lift _ _)]
  cases ((if success then Storage.commitId env i id else Storage.rollbackId env i id :
    Engine σ ε _).run (s.holding number none)).1 with
  | ok status => rfl
  | error e => rfl

end Migration.StorageProvider

section

open Migration

variable {M : Manner σ ε} {env : Setting σ} {i : StorageId}

theorem Manner.Queries.probing (Q : M.Queries env i) : Probing env i fun _ x => M.Tries x where
  closed := M.closed_attempt
  fails _ := M.follows_pure _
  report _ _ := Follows.lift (Q.record _ rfl)
  probe := Q.tries_tableExists

theorem Manner.Queries.tries_can (Q : M.Queries env i) (table unitName : String) :
    M.Tries (StorageProvider.can env i table unitName) :=
  Tries.bind (M.tries_bound _ []) fun q => Tries.bind (Q.tries_count q) fun _ => M.tries_pure _

theorem Manner.Statements.tries_save (S : M.Statements env i) (table unitName : String) :
    M.Tries (StorageProvider.save env i table unitName) :=
  S.toQueries.probing.save (S.tries_executeTemplate _)

theorem Manner.Statements.tries_apply (S : M.Statements env i) (c : ModelChange) :
    M.Tries (StorageProvider.apply env i c) :=
  S.toQueries.probing.apply fun t _ => S.tries_executeTemplate t

variable {number : Nat}

theorem Manner.Coordinates.tries_beforeUp (parts : M.Coordinates env i)
    (notes : ∀ t?, M.Follows (StorageProvider.setOpenUnit number t?)) :
    M.Tries (StorageProvider.beforeUp env i number) :=
  Tries.bind parts.tries_begin fun _ => Follows.lift (notes _)

theorem Manner.Coordinates.tries_afterUp (parts : M.Coordinates env i)
    (notes : ∀ t?, M.Follows (StorageProvider.setOpenUnit number t?))
    (reads : M.Follows (get : Engine σ ε (State σ ε))) (success : Bool) :
    M.Tries (StorageProvider.afterUp env i number success) := by
  refine Tries.bind reads.lift fun s => ?_
  split
  · exact M.tries_pure ()
  · refine Tries.bind (Follows.lift (notes none)) fun _ => ?_
    refine Tries.bind ?_ fun _ => Tries.bind (M.tries_ofResult _) fun _ => M.tries_pure ()
    split
    · exact Follows.lift (parts.follows_commitId _)
    · exact Follows.lift (parts.follows_rollbackId _)

end

end EntityStore
