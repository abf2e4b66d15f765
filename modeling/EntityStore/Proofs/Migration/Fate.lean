import EntityStore.Proofs.Migration.Records
import EntityStore.Proofs.Transaction.UnitOfWork

/-!
The fate of units. On each of its storages a unit makes its changes and its record in one
transaction, so they last together or not at all; and a storage that has the record already sees no
change. This needs that nothing else uses the storages in the meantime.
-/

namespace EntityStore

variable {σ ε : Type}

/-! ### Changes that last -/

def changes (made : List Event) : List Event :=
  made.filter Event.isChange

theorem changes_append (made more : List Event) :
    changes (made ++ more) = changes made ++ changes more :=
  List.filter_append made more

def State.since (i : StorageId) (s after : State σ ε) : List Event :=
  (after.dealings i).drop (s.dealings i).length

theorem State.since_of_dealings {i : StorageId} {s after : State σ ε} {made : List Event}
    (dealings : after.dealings i = s.dealings i ++ made) : s.since i after = made := by
  rw [since, dealings, List.drop_left]

def Event.text? : Event → Option String
  | .execute _ q _ | .query _ q _ | .insert _ q _ => some q.sql
  | _ => none

def Event.isQuiet (i : StorageId) : Event → Bool
  | .begin j succeeded => j == i && !succeeded
  | e => e.isReading i

private theorem Event.isQuiet_of_isReading {i : StorageId} {e : Event}
    (reading : e.isReading i = true) :
    e.isQuiet i = true := by
  cases e <;> first | exact reading | cases reading

private theorem Event.not_isChange_of_isQuiet {i : StorageId} {e : Event}
    (quiet : e.isQuiet i = true) :
    e.isChange = false := by
  cases e <;> first | rfl | simp [isQuiet, isReading, isChange] at quiet

section

variable {i : StorageId} {made : List Event}

theorem changes_quiet (quiet : ∀ e ∈ made, e.isQuiet i = true) : changes made = [] :=
  List.filter_eq_nil_iff.2 fun e member =>
    Bool.eq_false_iff.1 (Event.not_isChange_of_isQuiet (quiet e member))

/-- Outside of transactions quiet calls leave it at that, and no change is among them. -/
theorem Ledger.enter_quiet (quiet : ∀ e ∈ made, e.isQuiet i = true) (kept : List Event) :
    ∃ more, changes more = [] ∧ made.foldl enter ⟨none, kept⟩ = ⟨none, kept ++ more⟩ := by
  induction made generalizing kept with
  | nil => exact ⟨[], rfl, by rw [List.append_nil]; rfl⟩
  | cons e rest ih =>
      obtain ⟨first, others⟩ := List.forall_mem_cons.1 quiet
      have entered : ∃ more, changes more = [] ∧ enter ⟨none, kept⟩ e = ⟨none, kept ++ more⟩ := by
        cases e with
        | query j q succeeded => exact ⟨[.query j q succeeded], rfl, rfl⟩
        | begin j succeeded =>
            cases succeeded with
            | false => exact ⟨[], rfl, by rw [List.append_nil]; rfl⟩
            | true => simp [Event.isQuiet] at first
        | _ => simp [Event.isQuiet, Event.isReading, Event.isStatement, Event.isChange] at first
      obtain ⟨more, still, entered⟩ := entered
      obtain ⟨later, still', ended⟩ := ih others (kept ++ more)
      refine ⟨more ++ later, by rw [changes_append, still, still']; rfl, ?_⟩
      rw [List.foldl_cons, entered, ended, List.append_assoc]

/-- Of quiet calls around a transaction and the statements in it, just the changes in it last, if it
was committed. -/
theorem changes_lasting {first inside last : List Event} (before : ∀ e ∈ first, e.isQuiet i = true)
    (statements : ∀ e ∈ inside, e.isStatement i = true) (after : ∀ e ∈ last, e.isQuiet i = true)
    (complete succeeded : Bool) :
    let ending := if complete then Event.commit i succeeded else .rollback i succeeded
    changes (lasting (first ++ .begin i true :: (inside ++ ending :: last))) =
        (if complete && succeeded then changes inside else []) ∧
      changes (first ++ .begin i true :: (inside ++ ending :: last)) = changes inside := by
  intro ending
  obtain ⟨more, still, entered⟩ := Ledger.enter_quiet before []
  have opened : Ledger.enter ⟨none, [] ++ more⟩ (.begin i true) = ⟨some [], more⟩ := rfl
  have closed : Ledger.enter ⟨some ([] ++ inside), more⟩ ending =
      ⟨none, more ++ if complete && succeeded then inside else []⟩ := by
    cases complete <;> cases succeeded <;> first | rfl | simp [ending, Ledger.enter]
  obtain ⟨more', still', ended⟩ := Ledger.enter_quiet after
    (more ++ if complete && succeeded then inside else [])
  constructor
  · rw [lasting, List.foldl_append, entered, List.foldl_cons, opened, List.foldl_append,
      Ledger.enter_statements statements, List.foldl_cons, closed, ended, changes_append,
      changes_append, still, still', List.append_nil, List.nil_append]
    split <;> rfl
  · have ends : changes (ending :: last) = [] := by
      have still : ending.isChange = false := by
        cases complete <;> rfl
      rw [changes, List.filter_cons, still, if_neg Bool.false_ne_true]
      exact changes_quiet after
    have begins : changes [Event.begin i true] = [] := rfl
    rw [changes_append, changes_quiet before, ← List.singleton_append, changes_append, begins,
      changes_append, ends, List.append_nil, List.nil_append, List.nil_append]

private theorem lasting_quiet (quiet : ∀ e ∈ made, e.isQuiet i = true) :
    changes (lasting made) = [] := by
  obtain ⟨more, still, entered⟩ := Ledger.enter_quiet quiet []
  rw [lasting, entered, List.nil_append, still]

end

namespace Migration

/-! ### Between states at rest -/

section

variable {env : Setting σ} {table : String} (R : Records env table) (i : StorageId)

def Records.resting (ε : Type) : Route σ ε where
  leads s after := (s.coordinator i).active? = none → (after.coordinator i).active? = none ∧
    R.names after.outside i = R.names s.outside i ∧
    ∃ made, (∀ e ∈ made, e.isQuiet i = true) ∧ after.dealings i = s.dealings i ++ made
  refl s idle := ⟨idle, rfl, [], by simp, (List.append_nil _).symm⟩
  trans := by
    intro s middle after first second idle
    obtain ⟨idle, names, made, quiet, dealings⟩ := first idle
    obtain ⟨idle, names', made', quiet', dealings'⟩ := second idle
    refine ⟨idle, names'.trans names, made ++ made', fun e member => ?_,
      by rw [dealings', dealings, List.append_assoc]⟩
    exact (List.mem_append.1 member).elim (quiet e) (quiet' e)

variable {R i} {number number' : Nat} {unitName : String} {slot : Slot σ ε} {ask : Ask}
  {j : StorageId} {s after : State σ ε}

theorem Records.resting_of_reading (leads : (R.reading i number ε).leads s after) :
    (R.resting i ε).leads s after := by
  intro idle
  obtain ⟨coordinator, -, -, names, made, reading, dealings⟩ := leads
  exact ⟨by rw [coordinator, idle], names trivial, made,
    fun e member => Event.isQuiet_of_isReading (reading e member), dealings⟩

/-- A storage rests unless its own participant is asked for work, or opens a unit. -/
theorem Provider.Usual.rests (usual : slot.provider.Usual env j number table)
    {answer : Except EngineError Bool} (apart : j = i → ask = .can ∨
      ask = .beforeUp ∧ answer ≠ .ok true)
    (ran : (ask.of unitName slot).run.run s = (answer, after)) : (R.resting i ε).leads s after := by
  by_cases same : j = i
  · subst same
    rcases apart rfl with rfl | ⟨rfl, refused⟩
    · exact Records.resting_of_reading (Route.leads_of_ran (R := R.reading j number ε)
        usual.reading ran)
    · intro idle
      obtain ⟨names, ⟨-, idle, dealings⟩ | ⟨opened, -⟩⟩ := usual.begun R idle ran
      · exact ⟨idle, names, _, by simp [Event.isQuiet], dealings⟩
      · exact (refused opened).elim
  · have away : (R.away i (number + 1) ε).leads s after :=
      Route.leads_of_ran (usual.away same (Nat.ne_of_lt (Nat.lt_succ_self number))) ran
    exact Records.resting_of_reading (Records.reading_of_away away)

end

/-! ### Participants of a unit -/

/-- Every slot has the usual provider of its storage. -/
structure Migrator.Usual (env : Setting σ) (table : String) (number : StorageId → Nat)
    (m : Migrator σ ε) : Prop where
  storages : (m.slots.map Slot.storage).Nodup
  numbers (a b : Slot σ ε) (one : a ∈ m.slots) (two : b ∈ m.slots)
    (same : number a.storage = number b.storage) : a.storage = b.storage
  providers (slot : Slot σ ε) (member : slot ∈ m.slots) :
    slot.provider.Usual env slot.storage (number slot.storage) table

section

variable {env : Setting σ} {table unitName : String} {R : Records env table} {m : Migrator σ ε}
  {number : StorageId → Nat} {ps : List (Slot σ ε)} {said : List (Exchange σ ε)}
  {s after : State σ ε} {who : Nat} {slot : Slot σ ε}
  (usual : m.Usual env table number) (among : ps.Sublist m.slots)

include usual among

theorem Migrator.Usual.rests {i : StorageId} (talk : Conversation ps unitName s said after)
    (apart : ∀ x ∈ said, ∀ slot, ps[x.who]? = some slot → slot.storage = i →
      x.ask = .can ∨ x.ask = .beforeUp ∧ x.succeeded = false) : (R.resting i ε).leads s after := by
  have reports (s : State σ ε) (t : Trace) : (R.resting i ε).leads s (s.reported t) := by
    have away : (R.away i 0 ε).leads s (s.reported t) := Records.away_recorded s rfl
    exact Records.resting_of_reading (Records.reading_of_away away)
  refine talk.leads reports fun x member slot here ran => ?_
  refine (usual.providers slot (among.subset (List.mem_of_getElem? here))).rests ?_ ran
  intro same
  refine (apart x member slot here same).imp_right fun refused => ⟨refused.1, ?_⟩
  rw [Ne, ← Exchange.succeeded_iff, refused.2]
  exact Bool.false_ne_true

/-- At rest a participant agrees just if there was no record of the unit. -/
theorem Migrator.Usual.agrees_iff (R : Records env table) (here : ps[who]? = some slot)
    (idle : (s.coordinator slot.storage).active? = none) {earlier later : List (Exchange σ ε)}
    {x : Exchange σ ε} (talk : Conversation ps unitName s (earlier ++ x :: later) after)
    (is : x.Is who .can) (apart : ∀ y ∈ earlier, y.who = who →
      y.ask = .can ∨ y.ask = .beforeUp ∧ y.succeeded = false) {b : Bool}
    (answer : x.answer = .ok b) :
    b = true ↔ unitName ∉ R.names s.outside slot.storage := by
  have distinct : (ps.map Slot.storage).Nodup := usual.storages.sublist (among.map Slot.storage)
  obtain ⟨arriving, ran, -⟩ := talk.around
  have ran := is.ran here ran
  have still := usual.rests (R := R) among arriving
    (fun y member other there same => apart y member (who_of_storage distinct here there same)) idle
  have provider := usual.providers slot (among.subset (List.mem_of_getElem? here))
  rw [answer] at ran
  rw [← still.2.1]
  exact provider.agrees_iff R ran

theorem Migrator.Usual.away (R : Records env table) (here : ps[who]? = some slot) {other : Slot σ ε}
    {place : Nat} (there : ps[place]? = some other) (apart : other.storage ≠ slot.storage)
    {ask : Ask} :
    (R.away slot.storage (number slot.storage) ε).Tries (ask.of unitName other) := by
  have member := among.subset (List.mem_of_getElem? here)
  have member' := among.subset (List.mem_of_getElem? there)
  exact (usual.providers other member').away apart fun same =>
    apart (usual.numbers _ _ member' member same)

private theorem Migrator.Usual.works (R : Records env table) (here : ps[who]? = some slot)
    (talk : Conversation ps unitName s said after)
    (apart : ∀ x ∈ said, x.who = who → x.ask.brackets = false) :
    (R.working slot.storage (number slot.storage) ε).leads s after := by
  have distinct : (ps.map Slot.storage).Nodup := usual.storages.sublist (among.map Slot.storage)
  refine talk.leads (fun s t => Records.working_of_reading (Records.reading_of_away
    (Records.away_recorded s rfl))) fun x member slot' there ran => ?_
  by_cases same : slot'.storage = slot.storage
  · have provider := usual.providers slot' (among.subset (List.mem_of_getElem? there))
    rw [same] at provider
    exact Route.leads_of_ran
      (provider.working (apart x member (who_of_storage distinct here there same))) ran
  · exact Records.working_of_reading (Records.reading_of_away
      (Route.leads_of_ran (usual.away among R here there same) ran))

/-- One call to a participant of a unit, if it succeeds, adds a record just if it is a call to save,
and to the participant of this storage. -/
theorem Migrator.Usual.names_asked (R : Records env table) (here : ps[who]? = some slot)
    {x : Exchange σ ε} {slot' : Slot σ ε} (there : ps[x.who]? = some slot')
    (ran : (x.ask.of unitName slot').run.run x.before = (x.answer, x.after))
    (apart : x.who = who → x.ask.brackets = false)
    (succeeded : x.ask.isWork = true → x.succeeded = true)
    (within : ∀ c, x.ask = .apply c → c.Within R.other env.schema) :
    R.names x.after.outside slot.storage = R.names x.before.outside slot.storage ++
      List.replicate (if x.who == who && x.ask.isSave then 1 else 0) unitName := by
  have distinct : (ps.map Slot.storage).Nodup := usual.storages.sublist (among.map Slot.storage)
  by_cases same : slot'.storage = slot.storage
  · have place := who_of_storage distinct here there same
    have provider := usual.providers slot' (among.subset (List.mem_of_getElem? there))
    rw [same] at provider
    have inside := apart place
    rw [place, beq_self_eq_true, Bool.true_and]
    cases ask : x.ask with
    | can =>
        rw [ask] at ran
        obtain ⟨-, -, -, names, -⟩ := Route.leads_of_ran
          (R := R.reading slot.storage (number slot.storage) ε) provider.reading ran
        exact (names trivial).trans (List.append_nil _).symm
    | apply c =>
        have fine := Exchange.succeeded_iff.1 (succeeded (by rw [ask]; rfl))
        rw [ask, fine] at ran
        exact (provider.names_applied (within c ask) ran).trans (List.append_nil _).symm
    | save =>
        have fine := Exchange.succeeded_iff.1 (succeeded (by rw [ask]; rfl))
        rw [ask, fine] at ran
        exact provider.names_saved ran
    | beforeUp =>
        rw [ask] at inside
        cases inside
    | afterUp complete =>
        rw [ask] at inside
        cases inside
  · have elsewhere : x.who ≠ who := by
      rintro rfl
      cases here.symm.trans there
      exact same rfl
    obtain ⟨-, -, -, names, -⟩ := Route.leads_of_ran (usual.away among R here there same) ran
    rw [names trivial, beq_false_of_ne elsewhere, Bool.false_and, if_neg Bool.false_ne_true,
      List.replicate_zero, List.append_nil]

/-- Where all work of a unit has succeeded, a participant has recorded it as often as it was asked
to. -/
theorem Migrator.Usual.names_worked (R : Records env table) (here : ps[who]? = some slot)
    (talk : Conversation ps unitName s said after)
    (apart : ∀ x ∈ said, x.who = who → x.ask.brackets = false)
    (succeeded : ∀ x ∈ said, x.ask.isWork = true → x.succeeded = true)
    (within : ∀ x ∈ said, ∀ c, x.ask = .apply c → c.Within R.other env.schema) :
    R.names after.outside slot.storage = R.names s.outside slot.storage ++
      List.replicate (said.countP fun x => x.who == who && x.ask.isSave) unitName := by
  induction talk with
  | done s => exact (List.append_nil _).symm
  | reported t rest ih => exact ih apart succeeded within
  | asked x there ran rest ih =>
      obtain ⟨apart, others⟩ := List.forall_mem_cons.1 apart
      obtain ⟨succeeded, others'⟩ := List.forall_mem_cons.1 succeeded
      obtain ⟨within, others''⟩ := List.forall_mem_cons.1 within
      have step := usual.names_asked among R here there ran apart succeeded within
      rw [ih others others' others'', step, List.append_assoc, List.replicate_append_replicate,
        List.countP_cons, Nat.add_comm]

end

/-! ### Units -/

/-- What becomes of a unit on a storage, by the names recorded before and after it and by the calls
the storage sees. The unit is recorded once or not at all, and its changes last just if it is. -/
structure Fate (unitName : String) (names names' : List String) (made : List Event) : Prop where
  recorded : names' = names ∨ unitName ∉ names ∧ names' = names ++ [unitName]
  together : changes (lasting made) = if unitName ∈ names' then changes made else []

private theorem Fate.of_quiet {i : StorageId} {unitName : String} {names : List String}
    {made : List Event}
    (quiet : ∀ e ∈ made, e.isQuiet i = true) : Fate unitName names names made := by
  refine ⟨.inl rfl, ?_⟩
  rw [changes_quiet quiet, lasting_quiet quiet, ite_self]

/-- Of a unit that was not recorded before, all is kept or nothing. -/
theorem Fate.of_transaction {i : StorageId} {unitName : String} {names : List String}
    {first inside last : List Event} (fresh : unitName ∉ names)
    (before : ∀ e ∈ first, e.isQuiet i = true) (statements : ∀ e ∈ inside, e.isStatement i = true)
    (after : ∀ e ∈ last, e.isQuiet i = true) (complete succeeded : Bool) :
    Fate unitName names (if complete && succeeded then names ++ [unitName] else names)
      (first ++ .begin i true ::
        (inside ++ (if complete then .commit i succeeded else .rollback i succeeded) :: last)) := by
  obtain ⟨lasts, made⟩ := changes_lasting before statements after complete succeeded
  constructor
  · split
    · exact .inr ⟨fresh, rfl⟩
    · exact .inl rfl
  · rw [lasts, made]
    split
    · rw [if_pos (List.mem_append_right names (List.mem_singleton_self unitName))]
    · rfl

/-- A storage that was at rest is at rest again after a unit, which has met its fate there. -/
structure Records.Settled {env : Setting σ} {table : String} (R : Records env table)
    (i : StorageId) (unitName : String) (s after : State σ ε) : Prop where
  idle : (after.coordinator i).active? = none
  grown : s.dealings i <+: after.dealings i
  fate : Fate unitName (R.names s.outside i) (R.names after.outside i) (s.since i after)

section

variable {env : Setting σ} {table unitName : String} {R : Records env table} {m : Migrator σ ε}
  {number : StorageId → Nat} {ps : List (Slot σ ε)} {said : List (Exchange σ ε)}
  {s after : State σ ε} {who : Nat} {slot : Slot σ ε} {pending : List ModelChange}
  {r : Except EngineError Bool} {i : StorageId}

private theorem Records.settled_of_resting (leads : (R.resting i ε).leads s after)
    (idle : (s.coordinator i).active? = none) (unitName : String) :
    R.Settled i unitName s after := by
  obtain ⟨idle, names, made, quiet, dealings⟩ := leads idle
  refine ⟨idle, ⟨made, dealings.symm⟩, ?_⟩
  rw [names, State.since_of_dealings dealings]
  exact .of_quiet quiet

variable (usual : m.Usual env table number) (among : ps.Sublist m.slots)

include usual among

private theorem Migrator.Usual.fresh_of_bracketed (R : Records env table) (here : ps[who]? = some slot)
    (idle : (s.coordinator slot.storage).active? = none)
    (talk : Conversation ps unitName s said after) (orderly : Orderly ps.length pending said r)
    {complete : Bool} {o c : Exchange σ ε} {earlier middle later : List (Exchange σ ε)}
    (bracketed : Bracketed who complete said o c earlier middle later) :
    unitName ∉ R.names s.outside slot.storage := by
  obtain ⟨inside, _⟩ := List.getElem?_eq_some_iff.1 here
  obtain ⟨arriving, -⟩ := bracketed.parts here talk
  obtain ⟨x, member, is, agreed⟩ := orderly.agreed bracketed.split
    (by rw [bracketed.opens.2]; rfl) who inside
  obtain ⟨before, between, rfl⟩ := List.append_of_mem member
  exact (usual.agrees_iff among R here idle arriving is
    (fun y member' same => .inl (bracketed.only_can (by simp [member']) same))
    (Exchange.succeeded_iff.1 agreed)).1 rfl

/-- Between the opening and the closing of a complete unit its record is made, once. -/
theorem Migrator.Usual.names_bracketed (R : Records env table) (here : ps[who]? = some slot)
    (talk : Conversation ps unitName s said after) (orderly : Orderly ps.length pending said r)
    (within : ∀ c ∈ pending, c.Within R.other env.schema) {o c : Exchange σ ε}
    {earlier middle later : List (Exchange σ ε)}
    (bracketed : Bracketed who true said o c earlier middle later) :
    R.names c.before.outside slot.storage =
      R.names o.after.outside slot.storage ++ [unitName] := by
  obtain ⟨inside, _⟩ := List.getElem?_eq_some_iff.1 here
  obtain ⟨-, -, working, -, -⟩ := bracketed.parts here talk
  have done := (orderly.told (by rw [bracketed.split]; simp) bracketed.closes.2).1.1 rfl
  have part {x : Exchange σ ε} (member : x ∈ middle) : x ∈ said := by
    rw [bracketed.split]
    simp [member]
  have recorded := usual.names_worked among R here working
    (fun x member same => bracketed.apart x (by simp [member]) same)
    (fun x member => done.succeeded x (part member))
    (fun x member c ask => within c (done.pending_of_apply (part member) ask))
  rw [recorded, bracketed.saved_once orderly done inside]
  rfl

/-- A participant that has opened and closed the unit has made its changes and its record in one
transaction. -/
theorem Migrator.Usual.settled_bracketed (here : ps[who]? = some slot)
    (idle : (s.coordinator slot.storage).active? = none)
    (talk : Conversation ps unitName s said after) (orderly : Orderly ps.length pending said r)
    (within : ∀ c ∈ pending, c.Within R.other env.schema) {complete : Bool} {o c : Exchange σ ε}
    {earlier middle later : List (Exchange σ ε)}
    (bracketed : Bracketed who complete said o c earlier middle later) :
    R.Settled slot.storage unitName s after ∧
      (complete = true → c.succeeded = true → unitName ∈ R.names after.outside slot.storage) := by
  have distinct : (ps.map Slot.storage).Nodup := usual.storages.sublist (among.map Slot.storage)
  have provider := usual.providers slot (among.subset (List.mem_of_getElem? here))
  have onlyCan (x : Exchange σ ε) (member : x ∈ earlier ++ later) (other : Slot σ ε)
      (there : ps[x.who]? = some other) (same : other.storage = slot.storage) :
      x.ask = .can ∨ x.ask = .beforeUp ∧ x.succeeded = false :=
    .inl (bracketed.only_can member (who_of_storage distinct here there same))
  obtain ⟨arriving, opens, working, closes, last⟩ := bracketed.parts here talk
  obtain ⟨idle₁, names₁, made₁, quiet₁, dealings₁⟩ := usual.rests (R := R) among arriving
    (fun x member => onlyCan x (List.mem_append_left later member)) idle
  obtain ⟨names₂, ⟨⟨e, failed⟩, -⟩ | ⟨-, isOpen, dealings₂⟩⟩ := provider.begun R idle₁ opens
  · cases failed
  have inner (x : Exchange σ ε) (member : x ∈ middle) (same : x.who = who) :
      x.ask.brackets = false :=
    bracketed.apart x (List.mem_append_right _ (List.mem_append_left _ member)) same
  have works := usual.works among R here working inner
  obtain ⟨idle₄, r, names₄, dealings₄, told⟩ := provider.closed (isOpen.of_within works) closes
  obtain ⟨-, -, -, -, made₃, statements, dealings₃⟩ := works
  obtain ⟨idle₅, names₅, made₅, quiet₅, dealings₅⟩ := usual.rests (R := R) among last
    (fun x member => onlyCan x (List.mem_append_right earlier member)) idle₄
  have fresh := usual.fresh_of_bracketed among R here idle talk orderly bracketed
  have names : R.names after.outside slot.storage = if complete && r then
      R.names s.outside slot.storage ++ [unitName] else R.names s.outside slot.storage := by
    rw [names₅, names₄]
    cases complete with
    | false => exact names₁
    | true =>
        rw [usual.names_bracketed among R here talk orderly within bracketed, names₂, names₁,
          Bool.true_and]
  have dealings : after.dealings slot.storage = s.dealings slot.storage ++
      (made₁ ++ .begin slot.storage true :: (made₃ ++
        (if complete then .commit slot.storage r else .rollback slot.storage r) :: made₅)) := by
    rw [dealings₅, dealings₄, dealings₃, dealings₂, dealings₁]
    simp
  refine ⟨⟨idle₅, ⟨_, dealings.symm⟩, ?_⟩, ?_⟩
  · rw [names, State.since_of_dealings dealings]
    exact Fate.of_transaction fresh quiet₁ statements quiet₅ complete r
  · rintro rfl closed
    have succeeded : r = true := by
      rw [← told rfl, Exchange.succeeded_iff.1 closed]
      rfl
    rw [names, succeeded]
    simp

/-- Every storage meets its fate, whether the unit involves it or not. A unit that counts as applied
is recorded on all its participants. -/
theorem Migrator.Usual.settled (idle : (s.coordinator i).active? = none)
    (talk : Conversation ps unitName s said after) (went : Went ps.length pending said r)
    (within : ∀ c ∈ pending, c.Within R.other env.schema) :
    R.Settled i unitName s after ∧
      (r = .ok true → ∀ slot ∈ ps, slot.storage = i → unitName ∈ R.names after.outside i) := by
  by_cases takes : ∃ (who : Nat) (slot : Slot σ ε), ps[who]? = some slot ∧ slot.storage = i
  · obtain ⟨who, slot, here, rfl⟩ := takes
    have distinct : (ps.map Slot.storage).Nodup := usual.storages.sublist (among.map Slot.storage)
    obtain ⟨inside, _⟩ := List.getElem?_eq_some_iff.1 here
    rcases went.opened_or_not inside with
      ⟨complete, o, c, earlier, middle, later, bracketed, told⟩ | ⟨unopened, still⟩
    · obtain ⟨settled, kept⟩ :=
        usual.settled_bracketed among here idle talk went.orderly within bracketed
      exact ⟨settled, fun applied _ _ _ => kept (told applied).1 (told applied).2⟩
    · have rests := usual.rests (R := R) among talk fun x member other there same =>
        unopened x member (who_of_storage distinct here there same)
      exact ⟨R.settled_of_resting rests idle unitName, fun applied => (still applied).elim⟩
  · have rests := usual.rests (R := R) (i := i) among talk fun x member other there same =>
      (takes ⟨x.who, other, there, same⟩).elim
    refine ⟨R.settled_of_resting rests idle unitName, fun _ slot member same => ?_⟩
    obtain ⟨who, here⟩ := List.mem_iff_getElem?.1 member
    exact (takes ⟨who, slot, here, same⟩).elim

/-- What participants answer when they are asked first tells whether they have a record. -/
theorem Migrator.Usual.told (R : Records env table) (idle : ∀ i, (s.coordinator i).active? = none)
    {cans rest : List (Exchange σ ε)} (talk : Conversation ps unitName s (cans ++ rest) after)
    (asks : ∀ x ∈ cans, x.ask = .can) (whos : cans.map Exchange.who = List.range' 0 ps.length)
    {b : Bool} (answers : ∀ x ∈ cans, x.answer = .ok b) (member : slot ∈ ps) :
    b = true ↔ unitName ∉ R.names s.outside slot.storage := by
  obtain ⟨who, here⟩ := List.mem_iff_getElem?.1 member
  obtain ⟨inside, _⟩ := List.getElem?_eq_some_iff.1 here
  have asked : who ∈ cans.map Exchange.who := by
    rw [whos, List.mem_range'_1]
    omega
  obtain ⟨x, member', rfl⟩ := List.mem_map.1 asked
  have answer := answers x member'
  have is : x.Is x.who .can := ⟨rfl, asks x member'⟩
  obtain ⟨before, between, rfl⟩ := List.append_of_mem member'
  rw [List.append_assoc, List.cons_append] at talk
  exact usual.agrees_iff among R here (idle _) talk is
    (fun y earlier _ => .inl (asks y (List.mem_append_left _ earlier))) answer

/-- A unit is skipped only if it is recorded on all its participants, and if so it does not count as
applied, and changes nothing. -/
theorem Migrator.Usual.skipped (R : Records env table)
    (idle : ∀ i, (s.coordinator i).active? = none)
    (talk : Conversation ps unitName s said after) (went : Went ps.length pending said r) :
    (r = .ok false → ∀ slot ∈ ps, unitName ∈ R.names s.outside slot.storage) ∧
      ((∀ slot ∈ ps, unitName ∈ R.names s.outside slot.storage) →
        r ≠ .ok true ∧ ∀ i, (R.resting i ε).leads s after) := by
  cases went with
  | apart asks still skipped =>
      refine ⟨fun same slot member => ?_, fun _ => ⟨still, fun i => ?_⟩⟩
      · obtain ⟨whos, answers⟩ := skipped same
        rw [← List.append_nil said] at talk
        have told := usual.told among R idle talk asks whos answers member
        simpa using told
      · exact usual.rests among talk fun x member _ _ _ => .inl (asks x member)
  | carried inhabited asks whos agreed told unskipped carried =>
      refine ⟨fun same => (unskipped same).elim, fun recorded => ?_⟩
      have member : ps[0] ∈ ps := List.getElem_mem inhabited
      have fresh := (usual.told among R idle talk asks whos
        (fun x member => Exchange.succeeded_iff.1 (agreed x member)) member).1 rfl
      exact (fresh (recorded _ member)).elim

end

end Migration

end EntityStore
