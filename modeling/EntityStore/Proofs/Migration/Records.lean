import EntityStore.Proofs.Engine.Run
import EntityStore.Proofs.Migration.Agreement
import EntityStore.Proofs.Migration.Interleaving
import EntityStore.Proofs.Sql.Quotation
import EntityStore.Proofs.Sql.Words
import EntityStore.Model.Catalog

/-!
Records of units. The usual provider keeps its records in a table of the storage, which the database
changes as it does any other: what was inserted stands there unless the transaction around it is
taken back. What a participant does to its storage is told by the calls the storage sees and by the
names that stand in the table of records afterwards.
-/

namespace EntityStore

variable {σ ε α β : Type}

namespace Migration

/-- Every table that is changed for a model, goes by one of these names. -/
structure ModelChange.Within (other : String → Prop) (schema : Schema) (c : ModelChange) :
    Prop where
  table : other c.table
  old (name : String) (known : c.renamedFrom? = some name) : other name
  links (link : LinkTable) (member : link ∈ Storage.linkTables schema c.model) : other link.table

/-- How the databases of all storages keep the table of records. They are transactional: what ends a
transaction without success takes back what was recorded in it. -/
structure Records (env : Setting σ) (table : String) where
  names : σ → StorageId → List String
  saved : σ → StorageId → List String
  other : String → Prop
  elsewhere {i j : StorageId} (apart : j ≠ i) :
    (env.provider j).Keeps fun s => (names s i, saved s i)
  connecting (i : StorageId) (s : σ) : names ((env.provider i).connect s).2 i = names s i
  querying (i : StorageId) (q : Sql.Statement) (s : σ) :
    names ((env.provider i).query q s).2 i = names s i ∧
      saved ((env.provider i).query q s).2 i = saved s i
  executing (i : StorageId) (q : Sql.Statement) (s : σ) :
    saved ((env.provider i).execute q s).2 i = saved s i
  inserting (i : StorageId) (q : Sql.Statement) (s : σ) :
    saved ((env.provider i).insert q s).2 i = saved s i
  beginning (i : StorageId) (s : σ) : names ((env.provider i).begin s).2 i = names s i ∧
    (((env.provider i).begin s).1 = .ok () → saved ((env.provider i).begin s).2 i = names s i)
  committing (i : StorageId) (s : σ) : names ((env.provider i).commit s).2 i =
    if ((env.provider i).commit s).1.isOk then names s i else saved s i
  rollingBack (i : StorageId) (s : σ) : names ((env.provider i).rollback s).2 i = saved s i
  counting (i : StorageId) (s : σ) (unitName : String) {q : Sql.Statement} {rows : List Row}
    (bound : (countRecords (Storage.dialect env i) table unitName).bind [] = .ok q)
    (answer : ((env.provider i).query q s).1 = .ok rows) :
    ∃ row rest n, rows = row :: rest ∧ row.get Int64 Sql.countColumn = .ok n ∧
      (0 < n.toInt ↔ unitName ∈ names s i)
  recording (i : StorageId) (s : σ) (unitName : String) {q : Sql.Statement} {n : Nat}
    (bound : (insertRecord (Storage.dialect env i) table unitName env.now).bind [] = .ok q)
    (answer : ((env.provider i).execute q s).1 = .ok n) :
    names ((env.provider i).execute q s).2 i = names s i ++ [unitName]
  creating (i : StorageId) (s : σ) {q : Sql.Statement}
    (bound : (createTracking (Storage.dialect env i) table).bind [] = .ok q) :
    names ((env.provider i).execute q s).2 i = names s i
  altering (i : StorageId) (s : σ) {c : ModelChange} (within : c.Within other env.schema)
    {t : Sql.Template} (alters : Alters env i c t) {q : Sql.Statement} {n : Nat}
    (bound : t.bind [] = .ok q) (answer : ((env.provider i).execute q s).1 = .ok n) :
    names ((env.provider i).execute q s).2 i = names s i

end Migration

def Event.isChange : Event → Bool
  | .execute .. | .insert .. => true
  | _ => false

def Event.isReading (i : StorageId) (e : Event) : Bool :=
  e.isStatement i && !e.isChange

namespace Migration.Records

variable {env : Setting σ} {table : String} (R : Records env table) (i : StorageId) (number : Nat)

/-- The storage has only seen calls of this kind, the unit that a provider has open is the same and
would be taken back to the same names, and where that is asked, the same names stand there now. -/
def within (same : Prop) (kind : Event → Prop) (ε : Type) : Route σ ε where
  leads s after := after.coordinator i = s.coordinator i ∧
    after.openUnit number = s.openUnit number ∧
    R.saved after.outside i = R.saved s.outside i ∧
    (same → R.names after.outside i = R.names s.outside i) ∧
    ∃ made, (∀ e ∈ made, kind e) ∧ after.dealings i = s.dealings i ++ made
  refl s := ⟨rfl, rfl, rfl, fun _ => rfl, [], by simp, by rw [List.append_nil]⟩
  trans := by
    rintro s middle after ⟨coordinator, unit, saved, names, made, kinds, dealings⟩
      ⟨coordinator', unit', saved', names', made', kinds', dealings'⟩
    refine ⟨coordinator'.trans coordinator, unit'.trans unit, saved'.trans saved,
      fun asked => (names' asked).trans (names asked), made ++ made', fun e member => ?_,
      by rw [dealings', dealings, List.append_assoc]⟩
    exact (List.mem_append.1 member).elim (kinds e) (kinds' e)

abbrev away (ε : Type) : Route σ ε :=
  R.within i number True (fun _ => False) ε

abbrev reading (ε : Type) : Route σ ε :=
  R.within i number True (fun e => e.isReading i = true) ε

abbrev working (ε : Type) : Route σ ε :=
  R.within i number False (fun e => e.isStatement i = true) ε

variable {R i number}

theorem within_mono {same same' : Prop} {kind kind' : Event → Prop} {s after : State σ ε}
    (leads : (R.within i number same kind ε).leads s after) (asked : same' → same)
    (kinds : ∀ e, kind e → kind' e) : (R.within i number same' kind' ε).leads s after := by
  obtain ⟨coordinator, unit, saved, names, made, all, dealings⟩ := leads
  exact ⟨coordinator, unit, saved, fun wanted => names (asked wanted), made,
    fun e member => kinds e (all e member), dealings⟩

theorem reading_of_away {s after : State σ ε} (leads : (R.away i number ε).leads s after) :
    (R.reading i number ε).leads s after :=
  within_mono leads id fun _ => False.elim

theorem working_of_reading {s after : State σ ε} (leads : (R.reading i number ε).leads s after) :
    (R.working i number ε).leads s after :=
  within_mono leads (fun _ => trivial) fun _ reads => (Bool.and_eq_true_iff.1 reads).1

/-! ### Other storages -/

theorem away_of_aside {s after : State σ ε} (aside : Aside i s after)
    (unit : after.openUnit number = s.openUnit number)
    (records : (R.names after.outside i, R.saved after.outside i) =
      (R.names s.outside i, R.saved s.outside i)) : (R.away i number ε).leads s after :=
  ⟨aside.coordinator, unit, congrArg Prod.snd records, fun _ => congrArg Prod.fst records, [],
    by simp, by rw [aside.dealings, List.append_nil]⟩

theorem away_recorded (s : State σ ε) {e : Event} (inner : e.isCall = false) :
    (R.away i number ε).leads s { s with trail := s.trail.push e } :=
  away_of_aside (Aside.pushed (Event.not_concerns_of_not_call inner) s s.outside) rfl rfl

variable {j : StorageId} (other : j ≠ i)

include other

private theorem away_statements : (R.away i number ε).manner.Statements env j where
  record _ inner s := away_recorded s inner
  query q s := away_of_aside
    (Aside.follows_call (by simp [Event.concerns, Event.isStatement, other]) _ s) rfl
    ((R.elsewhere other).query q s.outside)
  execute q s := away_of_aside
    (Aside.follows_call (by simp [Event.concerns, Event.isStatement, other]) _ s) rfl
    ((R.elsewhere other).execute q s.outside)
  insert q s := away_of_aside
    (Aside.follows_call (by simp [Event.concerns, Event.isStatement, other]) _ s) rfl
    ((R.elsewhere other).insert q s.outside)

private theorem away_coordinates : (R.away i number ε).manner.Coordinates env j := by
  have apart := Aside.coordinates (ε := ε) other env
  exact {
    coordinator := fun s => (R.away i number ε).refl s
    setCoordinator := fun c s => away_of_aside (apart.setCoordinator c s) rfl rfl
    trace := fun level message fields s =>
      away_of_aside (apart.trace level message fields s) rfl rfl
    begin := fun s => away_of_aside (apart.begin s) rfl ((R.elsewhere other).begin s.outside)
    commit := fun s => away_of_aside (apart.commit s) rfl ((R.elsewhere other).commit s.outside)
    rollback := fun s =>
      away_of_aside (apart.rollback s) rfl ((R.elsewhere other).rollback s.outside) }

omit other

private theorem away_setOpenUnit {number' : Nat} (apart : number' ≠ number) (t? : Option Nat) :
    (R.away i number ε).Follows (StorageProvider.setOpenUnit number' t?) :=
  fun s => away_of_aside ⟨rfl, rfl⟩ (setAt_of_ne s.openUnit t? apart.symm) rfl

/-! ### The storage itself -/

theorem reading_queries : (R.reading i number ε).manner.Queries env i where
  record _ inner s := reading_of_away (away_recorded s inner)
  query q s := by
    obtain ⟨names, saved⟩ := R.querying i q s.outside
    have statement : ∀ succeeded, (Event.query i q succeeded).isStatement i = true := by
      simp [Event.isStatement]
    exact ⟨rfl, rfl, saved, fun _ => names, _,
      by simp [Event.isReading, Event.isStatement, Event.isChange],
      State.dealings_called statement⟩

private theorem working_statements : (R.working i number ε).manner.Statements env i where
  record _ inner s := working_of_reading (reading_of_away (away_recorded s inner))
  query q s := working_of_reading (reading_queries.query q s)
  execute q s := ⟨rfl, rfl, R.executing i q s.outside, False.elim, _,
    by simp [Event.isStatement], State.dealings_called (by simp [Event.isStatement])⟩
  insert q s := ⟨rfl, rfl, R.inserting i q s.outside, False.elim, _,
    by simp [Event.isStatement], State.dealings_called (by simp [Event.isStatement])⟩

end Migration.Records

namespace Migration

open Manner

/-! ### Participants -/

/-- What the usual provider of storage `j` does. -/
structure Provider.Usual (env : Setting σ) (j : StorageId) (number : Nat) (table : String)
    (p : Provider σ ε) : Prop where
  prepare : p.prepare = StorageProvider.prepare env j table
  can : p.can = StorageProvider.can env j table
  save : p.save = StorageProvider.save env j table
  beforeUp : p.beforeUp = StorageProvider.beforeUp env j number
  afterUp : p.afterUp = StorageProvider.afterUp env j number
  apply : p.apply = StorageProvider.apply env j

theorem StorageProvider.usual_create (env : Setting σ) (j : StorageId) (table : String)
    (s : State σ ε) :
    ((create env j table : Engine σ ε _).run s).1.Usual env j s.providerCount table :=
  ⟨rfl, rfl, rfl, rfl, rfl, rfl⟩

section

variable {env : Setting σ} {table unitName : String} {R : Records env table} {i j : StorageId}
  {number number' : Nat} {slot : Slot σ ε} {ask : Ask}

/-- What a participant does is made of statements of its storage, except for opening and closing a
unit, which begins and ends transactions. -/
theorem Provider.Usual.tries {M : Manner σ ε} (usual : slot.provider.Usual env j number table)
    (S : M.Statements env j)
    (brackets : ask.brackets = true → M.Coordinates env j ∧
      (∀ t?, M.Follows (StorageProvider.setOpenUnit number t?)) ∧
      M.Follows (get : Engine σ ε (State σ ε))) : M.Tries (ask.of unitName slot) := by
  refine Ask.tries_of ?_ S.record
  have plain {a : Attempt σ ε Unit} (tries : M.Tries a) : M.Tries (Ask.affirmed a) :=
    Tries.bind tries fun _ => M.tries_pure true
  cases ask with
  | can =>
      have tries := S.tries_can table unitName
      rwa [← usual.can] at tries
  | save =>
      have tries := S.tries_save table unitName
      rw [← usual.save] at tries
      exact plain tries
  | apply change =>
      have tries := S.tries_apply change
      rw [← usual.apply] at tries
      exact plain tries
  | beforeUp =>
      obtain ⟨parts, notes, -⟩ := brackets rfl
      have tries := parts.tries_beforeUp notes
      rw [← usual.beforeUp] at tries
      exact plain tries
  | afterUp success =>
      obtain ⟨parts, notes, reads⟩ := brackets rfl
      have tries := parts.tries_afterUp notes reads success
      rw [← usual.afterUp] at tries
      exact plain tries

theorem Provider.Usual.away (usual : slot.provider.Usual env j number' table) (other : j ≠ i)
    (apart : number' ≠ number) : (R.away i number ε).Tries (ask.of unitName slot) :=
  usual.tries (Records.away_statements other) fun _ =>
    ⟨Records.away_coordinates other, Records.away_setOpenUnit apart,
      fun s => (R.away i number ε).refl s⟩

theorem Provider.Usual.working (usual : slot.provider.Usual env i number' table)
    (inside : ask.brackets = false) : (R.working i number ε).Tries (ask.of unitName slot) :=
  usual.tries Records.working_statements fun brackets => by
    rw [inside] at brackets
    cases brackets

theorem Provider.Usual.reading (usual : slot.provider.Usual env i number' table) :
    (R.reading i number ε).Tries (Ask.can.of unitName slot) := by
  have queries : (R.reading i number ε).manner.Queries env i := Records.reading_queries
  have tries := queries.tries_can table unitName
  rw [← usual.can] at tries
  exact Ask.tries_of tries queries.record

variable {s after : State σ ε}

/-- A participant agrees just if there is no record of the unit. -/
theorem Provider.Usual.agrees_iff (R : Records env table)
    (usual : slot.provider.Usual env i number table) {b : Bool}
    (ran : (Ask.can.of unitName slot).run.run s = (.ok b, after)) :
    b = true ↔ unitName ∉ R.names s.outside i := by
  obtain ⟨done, e, -, asked, -⟩ := Ask.own_ran ran
  rw [Ask.own, usual.can] at asked
  obtain ⟨q, mid, binds, counted⟩ := Attempt.of_run_bind asked
  obtain ⟨bound, rfl⟩ := Storage.of_bound_run binds
  obtain ⟨n, mid', counts, given⟩ := Attempt.of_run_bind counted
  cases given
  obtain ⟨rows, answer, told⟩ := Storage.of_count_run counts
  obtain ⟨row, rest, n', rfl, got, found⟩ :=
    R.counting i _ unitName bound (congrArg Prod.fst answer)
  obtain ⟨m, got', rfl⟩ := told row rest rfl
  cases got.symm.trans got'
  rw [decide_eq_true_iff, ← found]
  omega

/-- What leaves the records alone if it succeeds. -/
theorem Records.probing (R : Records env table) :
    Probing env i fun α (x : Attempt σ ε α) => ∀ s a after, x.run.run s = (.ok a, after) →
      R.names after.outside i = R.names s.outside i where
  closed :=
    { pure := by
        rintro _ _ _ _ _ ⟨⟩
        rfl
      bind := by
        intro _ _ x next first second s b after ran
        obtain ⟨a, mid, began, ended⟩ := Attempt.of_run_bind ran
        exact (second a mid b after ended).trans (first s a mid began) }
  fails _ := by rintro _ _ _ ⟨⟩
  report _ _ := by
    rintro _ _ _ ⟨⟩
    rfl
  probe other := by
    intro s found after ran
    have queries : (R.reading i 0 ε).manner.Queries env i := Records.reading_queries
    obtain ⟨-, -, -, names, -⟩ := queries.tries_tableExists other s
    rw [ran] at names
    exact names trivial

theorem Provider.Usual.names_applied (usual : slot.provider.Usual env i number table)
    {c : ModelChange} (within : c.Within R.other env.schema) {b : Bool}
    (ran : ((Ask.apply c).of unitName slot).run.run s = (.ok b, after)) :
    R.names after.outside i = R.names s.outside i := by
  obtain ⟨done, e, -, applied, rfl⟩ := Ask.own_ran ran
  have applied := Ask.affirmed_ok applied
  rw [usual.apply] at applied
  refine R.probing.apply (fun t alters => ?_) s () done applied
  intro s n after ran
  obtain ⟨q, bound, answer⟩ := Storage.of_executeTemplate_run ran
  have names := R.altering i s.outside within alters bound (congrArg Prod.fst answer)
  rwa [answer] at names

theorem Provider.Usual.names_saved (usual : slot.provider.Usual env i number table) {b : Bool}
    (ran : (Ask.save.of unitName slot).run.run s = (.ok b, after)) :
    R.names after.outside i = R.names s.outside i ++ [unitName] := by
  obtain ⟨done, e, -, saves, rfl⟩ := Ask.own_ran ran
  have saved := Ask.affirmed_ok saves
  rw [usual.save] at saved
  obtain ⟨_, mid, recorded, rest⟩ := Attempt.of_run_bind saved
  obtain ⟨n, mid', executed, given⟩ := Attempt.of_run_bind recorded
  cases given
  cases rest
  obtain ⟨q, bound, answer⟩ := Storage.of_executeTemplate_run executed
  have names := R.recording i s.outside unitName bound (congrArg Prod.fst answer)
  rwa [answer] at names

/-- The participant of storage `i` has a transaction open, alone, which would be taken back to these
names. -/
structure Records.Open (R : Records env table) (i : StorageId) (number : Nat)
    (names : List String) (s : State σ ε) : Prop where
  holds : ∃ id, (s.coordinator i).active? = some ⟨id, 1⟩ ∧ s.openUnit number = some id
  saved : R.saved s.outside i = names

theorem Records.Open.of_within {same : Prop} {kind : Event → Prop} {names : List String}
    (isOpen : R.Open i number names s) (leads : (R.within i number same kind ε).leads s after) :
    R.Open i number names after := by
  obtain ⟨coordinator, unit, saved, -⟩ := leads
  obtain ⟨id, active, holds⟩ := isOpen.holds
  exact ⟨⟨id, by rw [coordinator, active], unit.trans holds⟩, saved.trans isOpen.saved⟩

/-- Opening a unit begins a transaction, if that is not refused. -/
theorem Provider.Usual.begun (R : Records env table)
    (usual : slot.provider.Usual env i number table) (idle : (s.coordinator i).active? = none)
    {answer : Except EngineError Bool}
    (ran : (Ask.beforeUp.of unitName slot).run.run s = (answer, after)) :
    R.names after.outside i = R.names s.outside i ∧
      ((∃ e, answer = .error e) ∧ (after.coordinator i).active? = none ∧
          after.dealings i = s.dealings i ++ [.begin i false] ∨
        answer = .ok true ∧ R.Open i number (R.names s.outside i) after ∧
          after.dealings i = s.dealings i ++ [.begin i true]) := by
  obtain ⟨done, e, inner, opened, rfl⟩ := Ask.own_ran ran
  have recorded : (done.recorded e).dealings i = done.dealings i :=
    (Aside.pushed (Event.not_concerns_of_not_call inner) done done.outside).dealings
  obtain ⟨names, saved⟩ := R.beginning i s.outside
  let begun := s.called (.begin i) (env.provider i).begin
  have calls : begun.dealings i =
      s.dealings i ++ [.begin i ((env.provider i).begin s.outside).1.isOk] :=
    State.dealings_added (State.calls_called s _ _ fun _ => rfl) (by simp [Event.concerns])
  rw [recorded]
  rw [Ask.own, Ask.affirmed_run, usual.beforeUp, StorageProvider.run_beforeUp,
    Storage.run_begin] at opened
  rcases Storage.run_join_idle env idle with ⟨t, ok, joined⟩ | ⟨reason, failed, joined⟩
  · rw [joined] at opened
    cases opened
    refine ⟨names, .inr ⟨rfl, ⟨⟨_, ?_, setAt_self _ _ _⟩, saved ok⟩, ?_⟩⟩
    · exact congrArg Coordinator.active? (State.coordinator_assigned begun i _)
    · rw [ok] at calls
      exact (State.dealings_same (State.calls_reported (begun.assigned i _) t)).trans calls
  · rw [joined] at opened
    cases opened
    refine ⟨names, .inl ⟨⟨_, rfl⟩, idle, ?_⟩⟩
    rw [failed] at calls
    exact calls

/-- Closing a unit ends the transaction. What was recorded in it is kept only if the unit is
complete and the database has committed. -/
theorem Provider.Usual.closed (usual : slot.provider.Usual env i number table)
    {names : List String} (isOpen : R.Open i number names s) {complete : Bool}
    {answer : Except EngineError Bool}
    (ran : ((Ask.afterUp complete).of unitName slot).run.run s = (answer, after)) :
    (after.coordinator i).active? = none ∧ ∃ r,
      R.names after.outside i = (if complete && r then R.names s.outside i else names) ∧
      after.dealings i = s.dealings i ++ [if complete then .commit i r else .rollback i r] ∧
      (complete = true → answer.isOk = r) := by
  obtain ⟨done, e, inner, closed, rfl⟩ := Ask.own_ran ran
  have recorded : (done.recorded e).dealings i = done.dealings i :=
    (Aside.pushed (Event.not_concerns_of_not_call inner) done done.outside).dealings
  obtain ⟨⟨id, active, holds⟩, rfl⟩ := isOpen
  rw [recorded]
  rw [Ask.own, Ask.affirmed_run, usual.afterUp, StorageProvider.run_afterUp holds] at closed
  have active' : ((s.holding number none).coordinator i).active? = some ⟨id, 1⟩ := active
  have inactive (event : Bool → Event) (answer : Answer σ Unit) :
      ((Storage.given i event answer (s.holding number none)).coordinator i).active? = none :=
    congrArg Coordinator.active? (Storage.coordinator_given event answer _)
  have ended {event : Bool → Event} (concerns : ∀ succeeded, (event succeeded).concerns i = true)
      (isCall : ∀ succeeded, (event succeeded).isCall = true) (answer : Answer σ Unit) (t : Trace) :
      ((Storage.given i event answer (s.holding number none)).reported t).dealings i =
        s.dealings i ++ [event (answer s.outside).1.isOk] :=
    State.dealings_added ((State.calls_reported _ t).trans (Storage.calls_given isCall answer _))
      (concerns _)
  cases complete with
  | true =>
      obtain ⟨reply, t, committed, told, -⟩ :=
        Storage.run_commitId_given env active' (Nat.le_refl 1)
      rw [if_pos rfl, committed] at closed
      have commits (succeeded : Bool) : (Event.commit i succeeded).concerns i = true := by
        simp [Event.concerns]
      have same : done = (Storage.given i (.commit i) (env.provider i).commit _).reported t :=
        (congrArg Prod.snd closed).symm
      have answered : answer.isOk = reply.isOk := by
        have given : answer = _ := (congrArg Prod.fst closed).symm
        rw [given]
        cases reply <;> rfl
      subst same
      refine ⟨inactive (.commit i) (env.provider i).commit, _, R.committing i s.outside,
        ended commits (fun _ => rfl) _ t, fun _ => answered.trans told⟩
  | false =>
      have held : ((s.holding number none).coordinator i).holds id = true := by
        simp [Coordinator.holds, active']
      obtain ⟨reply, t, rolled⟩ := Storage.run_rollbackId_given env held
      rw [if_neg Bool.false_ne_true, rolled] at closed
      have rollsBack (succeeded : Bool) : (Event.rollback i succeeded).concerns i = true := by
        simp [Event.concerns]
      have same : done = (Storage.given i (.rollback i) (env.provider i).rollback _).reported t :=
        (congrArg Prod.snd closed).symm
      subst same
      refine ⟨inactive (.rollback i) (env.provider i).rollback, _, R.rollingBack i s.outside,
        ended rollsBack (fun _ => rfl) _ t, by rintro ⟨⟩⟩

end

/-! ### A database with a table of records -/

section

open Sql (Dialect plainTemplate)

variable {env : Setting σ} {i : StorageId} {c : ModelChange} {t : Sql.Template}

def Makes (sql : String) : Prop :=
  ∃ letter rest, sql.toList = letter :: rest ∧ letter ≠ 'D' ∧ letter ≠ Sql.slotMark

theorem Makes.ne_dropTable {sql : String} (makes : Makes sql) (table : String) :
    String.ofList (sql.toList.filter (· ≠ Sql.slotMark)) ≠ Dialect.sqlite.dropTable table := by
  obtain ⟨letter, rest, spelled, other, mark⟩ := makes
  obtain ⟨more, drop⟩ : ∃ more, "DROP TABLE IF EXISTS ".toList = 'D' :: more := ⟨_, rfl⟩
  have kept : sql.toList.filter (· ≠ Sql.slotMark) =
      letter :: rest.filter (· ≠ Sql.slotMark) := by
    rw [spelled]
    exact List.filter_cons_of_pos (decide_eq_true mark)
  have dropped : (Dialect.sqlite.dropTable table).toList =
      'D' :: (more ++ (Dialect.sqlite.quote table).toList) :=
    (String.toList_append ..).trans (congrArg (· ++ (Dialect.sqlite.quote table).toList) drop)
  intro same
  have lists := congrArg String.toList same
  rw [String.toList_ofList, kept, dropped] at lists
  exact other (List.cons.inj lists).1

theorem Makes.append {sql : String} (makes : Makes sql) (more : String) : Makes (sql ++ more) := by
  obtain ⟨letter, rest, spelled, apart⟩ := makes
  exact ⟨letter, _, by rw [String.toList_append, spelled, List.cons_append], apart⟩

theorem makes_tableText (d : Dialect) (table : String) (parts : List String) :
    Makes (Sql.tableText d table parts) := by
  have makes : Makes "CREATE TABLE " := ⟨'C', _, rfl, by decide, by decide⟩
  exact (((makes.append _).append _).append _).append _

private theorem makes_createIndex (d : Dialect) (table column : String) (unique : Bool) :
    Makes (d.createIndex table column unique) := by
  have makes : Makes "CREATE " := ⟨'C', _, rfl, by decide, by decide⟩
  exact (((((((makes.append _).append _).append _).append _).append _).append _).append _).append _

private theorem makes_alteration : Makes "ALTER TABLE " :=
  ⟨'A', _, rfl, by decide, by decide⟩

/-- A plan makes and alters tables, and drops those of its models. -/
theorem Alters.makes_or_drops (sqlite : Storage.dialect env i = .sqlite) (alters : Alters env i c t) :
    ∃ sql, t = plainTemplate .sqlite sql ∧ (Makes sql ∨ sql = Dialect.sqlite.dropTable c.table) := by
  cases alters with
  | level member =>
      rw [sqlite] at member
      rcases List.mem_cons.1 member with rfl | member
      · exact ⟨_, rfl, .inl (makes_tableText _ _ _)⟩
      · obtain ⟨column, -, rfl⟩ := List.mem_map.1 member
        exact ⟨_, rfl, .inl (makes_createIndex _ _ _ _)⟩
  | link member =>
      rw [sqlite]
      exact ⟨_, rfl, .inl (makes_tableText _ _ _)⟩
  | declared member =>
      rw [sqlite] at member
      rcases List.mem_cons.1 member with rfl | member
      · exact ⟨_, rfl, .inl (makes_tableText _ _ _)⟩
      · obtain ⟨column, -, rfl⟩ := List.mem_map.1 member
        exact ⟨_, rfl, .inl (makes_createIndex _ _ _ _)⟩
  | drop =>
      rw [sqlite]
      exact ⟨_, rfl, .inr rfl⟩
  | rename known =>
      rw [sqlite]
      exact ⟨_, rfl, .inl (((makes_alteration.append _).append _).append _)⟩
  | property member alters among =>
      rename_i p ts
      rw [sqlite] at alters
      rw [PropertyChange.alteration] at alters
      split at alters
      · split at alters
        · cases alters
          cases List.mem_singleton.1 among
          exact ⟨_, rfl, .inl (((makes_alteration.append _).append _).append _)⟩
        · cases alters
      · cases alters
        obtain ⟨old, -, rfl⟩ := List.mem_map.1 among
        exact ⟨_, rfl, .inl (((((makes_alteration.append _).append _).append _).append _).append _)⟩
      · cases alters
        cases List.mem_singleton.1 among
        exact ⟨_, rfl, .inl (((makes_alteration.append _).append _).append _)⟩
      · cases alters
        cases among
  | index member =>
      rw [sqlite] at member
      obtain ⟨column, -, rfl⟩ := List.mem_map.1 member
      exact ⟨_, rfl, .inl (makes_createIndex _ _ _ _)⟩

private theorem toList_dropTable (d : Dialect) (table : String) : (d.dropTable table).toList =
    "DROP TABLE IF EXISTS ".toList ++ (d.quote table).toList :=
  String.toList_append ..

private theorem dropTable_injective (d : Dialect) {table other : String}
    (same : d.dropTable table = d.dropTable other) : table = other := by
  have lists := (toList_dropTable d table).symm.trans
    ((congrArg String.toList same).trans (toList_dropTable d other))
  exact Sql.quote_injective d (String.toList_injective (List.append_cancel_left lists))

private theorem markFree_dropTable (d : Dialect) {table : String} (free : Sql.MarkFree table) :
    Sql.MarkFree (d.dropTable table) :=
  Sql.markFree_append.2 ⟨by decide, Sql.markFree_quote d free⟩

theorem spares_of_plain {sql table : String} {q : Sql.Statement}
    (bound : (plainTemplate .sqlite sql).bind [] = .ok q)
    (other : String.ofList (sql.toList.filter (· ≠ Sql.slotMark)) ≠
      Dialect.sqlite.dropTable table) :
    q.values = [] ∧ q.sql ≠ Dialect.sqlite.dropTable table := by
  have same : q = _ := (Except.ok.inj ((Sql.bind_plainTemplate .sqlite sql).symm.trans bound)).symm
  subst same
  exact ⟨rfl, other⟩

private theorem Alters.spares (sqlite : Storage.dialect env i = .sqlite) (alters : Alters env i c t)
    {table : String} (free : Sql.MarkFree c.table) (other : c.table ≠ table) {q : Sql.Statement}
    (bound : t.bind [] = .ok q) : q.values = [] ∧ q.sql ≠ Dialect.sqlite.dropTable table := by
  obtain ⟨sql, rfl, kind⟩ := alters.makes_or_drops sqlite
  refine spares_of_plain bound ?_
  rcases kind with makes | rfl
  · exact makes.ne_dropTable table
  · have kept : (Dialect.sqlite.dropTable c.table).toList.filter (· ≠ Sql.slotMark) =
        (Dialect.sqlite.dropTable c.table).toList :=
      List.filter_eq_self.2 fun letter member =>
        decide_eq_true fun same => markFree_dropTable .sqlite free (same ▸ member)
    rw [kept, String.ofList_toList]
    exact fun same => other (dropTable_injective .sqlite same)

private theorem countRecords_values {d : Dialect} {table unitName : String} {q : Sql.Statement}
    (bound : (countRecords d table unitName).bind [] = .ok q) : q.values = [.text unitName] := by
  have values : ((countRecords d table unitName).bind []).map Sql.Statement.values =
    .ok [.text unitName] := rfl
  rw [bound] at values
  exact Except.ok.inj values

private theorem insertRecord_values {d : Dialect} {table unitName : String} {time : DateTime}
    {q : Sql.Statement} (bound : (insertRecord d table unitName time).bind [] = .ok q) :
    q.values = [.text unitName, .dateTime time] := by
  have values : ((insertRecord d table unitName time).bind []).map Sql.Statement.values =
    .ok [.text unitName, .dateTime time] := rfl
  rw [bound] at values
  exact Except.ok.inj values

end

/-- The table of records in the simplest of databases, and what it held when the open transaction
began. -/
structure Shelf where
  names : List String := []
  saved : List String := []

namespace Shelf

def table : String := "_migrations"

def execute (q : Sql.Statement) (s : Shelf) : Shelf :=
  match q.values with
  | [.text name, .dateTime _] => { s with names := s.names ++ [name] }
  | _ => if q.sql = Sql.Dialect.sqlite.dropTable table then { s with names := [] } else s

def rows (q : Sql.Statement) (s : Shelf) : List Row :=
  match q.values with
  | [.text name] => [⟨[(Sql.countColumn, .int (if name ∈ s.names then 1 else 0))]⟩]
  | _ => []

def provider (i : StorageId) : EntityStore.Provider (StorageId → Shelf) where
  name := "shelf"
  dialect := .sqlite
  connect s := (.ok (), s)
  execute q s := (.ok 0, setAt s i ((s i).execute q))
  query q s := (.ok ((s i).rows q), s)
  insert _ s := (.ok 0, s)
  begin s := (.ok (), setAt s i { s i with saved := (s i).names })
  commit s := (.ok (), s)
  rollback s := (.ok (), setAt s i { s i with names := (s i).saved })

def setting : Setting (StorageId → Shelf) where
  schema := ⟨fun _ => Catalog.unknownModel⟩
  provider := provider
  log _ := {}
  now := SqlType.firstDay.atMidnight

private theorem saved_execute (q : Sql.Statement) (s : Shelf) : (s.execute q).saved = s.saved := by
  unfold execute
  split
  · rfl
  · split <;> rfl

theorem execute_plain {q : Sql.Statement} (plain : q.values = [])
    (spared : q.sql ≠ Sql.Dialect.sqlite.dropTable table) (s : Shelf) : s.execute q = s := by
  rw [execute, plain]
  exact if_neg spared

/-- The databases keep their tables of records. Tables of other names are other tables, as long as no
mark is in the name. -/
def records : Records setting table where
  names s i := (s i).names
  saved s i := (s i).saved
  other name := Sql.MarkFree name ∧ name ≠ table
  elsewhere {i j} apart := by
    have still (s : StorageId → Shelf) (shelf : Shelf) :
        ((setAt s j shelf i).names, (setAt s j shelf i).saved) = ((s i).names, (s i).saved) := by
      rw [setAt_of_ne s shelf apart.symm]
    exact {
      connect := fun _ => rfl, query := fun _ _ => rfl, insert := fun _ _ => rfl
      commit := fun _ => rfl
      execute := fun _ s => still s _
      begin := fun s => still s _
      rollback := fun s => still s _ }
  connecting _ _ := rfl
  querying _ _ _ := ⟨rfl, rfl⟩
  executing i q s := by
    change (setAt s i _ i).saved = _
    rw [setAt_self, saved_execute]
  inserting _ _ _ := rfl
  beginning i s := by
    change (setAt s i _ i).names = _ ∧ (_ → (setAt s i _ i).saved = _)
    rw [setAt_self]
    exact ⟨rfl, fun _ => rfl⟩
  committing _ _ := rfl
  rollingBack i s := by
    change (setAt s i _ i).names = _
    rw [setAt_self]
  counting i s unitName q rows bound answer := by
    have same : rows = (s i).rows q := (Except.ok.inj answer).symm
    rw [Shelf.rows, countRecords_values bound] at same
    dsimp only at same
    by_cases recorded : unitName ∈ (s i).names
    · rw [if_pos recorded] at same
      exact ⟨_, [], 1, same, rfl, by simp [recorded]⟩
    · rw [if_neg recorded] at same
      exact ⟨_, [], 0, same, rfl, by simp [recorded]⟩
  recording i s unitName q n bound answer := by
    change (setAt s i _ i).names = _
    rw [setAt_self, execute, insertRecord_values bound]
  creating i s q bound := by
    have makes := makes_tableText .sqlite table
      ([nameColumn, timeColumn].filterMap (Sql.columnDefinition? .sqlite))
    obtain ⟨plain, spared⟩ := spares_of_plain bound (makes.ne_dropTable table)
    change (setAt s i _ i).names = _
    rw [setAt_self, execute_plain plain spared]
  altering i s c within t alters q n bound answer := by
    obtain ⟨free, other⟩ := within.table
    obtain ⟨plain, spared⟩ := alters.spares rfl free other bound
    change (setAt s i _ i).names = _
    rw [setAt_self, execute_plain plain spared]

end Shelf

end Migration

end EntityStore
