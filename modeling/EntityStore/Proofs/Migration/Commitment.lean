import EntityStore.Proofs.Migration.Agreement
import EntityStore.Proofs.Migration.Interleaving

/-!
Units that are reported as applied. On each of its storages such a unit has run in one transaction,
and its participant has left that by commit, unless another participant rolled the transaction back
while the unit was open. Of that the provider is told when it leaves, but does not take notice.
-/

namespace EntityStore

variable {σ ε α : Type}

open Manner

private theorem Manner.Tries.between {M : Manner σ ε} {before after : Engine σ ε Unit}
    {a : Attempt σ ε α} (first : M.Follows before) (tries : M.Tries a)
    (last : M.Follows after) : M.Tries (a.between before after) :=
  Tries.bind first.lift fun _ => Tries.bind (Follows.lift tries) fun _ =>
    Tries.bind last.lift fun _ => M.tries_ofExcept _

namespace Others

variable {env : Setting σ} (others : Others env) {i j : StorageId} {number : Nat}

private theorem beside_follows {c : Engine σ ε α} (follows : (others.route ε).Follows c) :
    (others.beside i number ε).Follows c :=
  fun s => others.beside_of_route i (follows s) number

private theorem beside_coordinates (other : j ≠ i) :
    (others.beside i number ε).manner.Coordinates env j := by
  have apart := Aside.coordinates (ε := ε) other env
  have still := others.still_coordinates (ε := ε) j
  exact {
    coordinator := fun s => ⟨rfl, .refl⟩
    setCoordinator := fun c s => ⟨rfl, others.steps_of_aside i (apart.setCoordinator c s) rfl⟩
    trace := fun level message fields s =>
      ⟨rfl, others.steps_of_aside i (apart.trace level message fields s) rfl⟩
    begin := fun s => ⟨rfl, others.steps_of_aside i (apart.begin s) (still.begin s)⟩
    commit := fun s => ⟨rfl, others.steps_of_aside i (apart.commit s) (still.commit s)⟩
    rollback := fun s => ⟨rfl, others.steps_of_aside i (apart.rollback s) (still.rollback s)⟩ }

private theorem beside_setOpenUnit {number' : Nat} (other : number' ≠ number) (t? : Option Nat) :
    (others.beside i number ε).Follows (Migration.StorageProvider.setOpenUnit number' t?) :=
  fun s => ⟨setAt_of_ne s.openUnit t? other.symm, others.steps_of_aside i ⟨rfl, rfl⟩ rfl⟩

end Others

namespace Migration

/-! ### What participants do to a storage -/

section

variable {env : Setting σ} {others : Others env} {i j : StorageId} {number number' : Nat}
  {table unitName : String} {visits : Visits σ ε}

/-- A participant makes steps on a storage, except on its own when it opens and closes a unit. -/
theorem Provider.Visited.tries {slot : Slot σ ε}
    (visited : slot.provider.Visited others j number' table visits) {ask : Ask}
    (apart : ask.brackets = true → j ≠ i ∧ number' ≠ number) :
    (others.beside i number ε).Tries (ask.of unitName slot) := by
  have records (e : Event) (inner : e.isCall = false) :
      (others.beside i number ε).manner.Follows (Engine.record e : Engine σ ε Unit) :=
    others.beside_follows fun s => others.route_recorded s inner
  have runs {β : Type} {a a' : Attempt σ ε β} (amid : Amid env (others.route ε) a.run a'.run) :
      (others.beside i number ε).Tries a' :=
    others.beside_follows (amid.follows (others.conduct ε) fun _ follows => follows)
  refine Ask.tries_of ?_ records
  have plain {a : Attempt σ ε Unit} (tries : (others.beside i number ε).Tries a) :
      (others.beside i number ε).Tries (Ask.affirmed a) :=
    Tries.bind tries fun _ => Manner.tries_pure _ true
  cases ask with
  | can => exact runs (visited.can unitName)
  | save => exact plain (runs (visited.save unitName))
  | apply change => exact plain (runs (visited.apply change))
  | beforeUp =>
      obtain ⟨other, distinct⟩ := apart rfl
      have inside : (others.beside i number ε).Tries (StorageProvider.beforeUp env j number') :=
        (others.beside_coordinates other).tries_beforeUp (others.beside_setOpenUnit distinct)
      have tries := Tries.between (others.beside_follows visited.beforeOpening) inside
        (others.beside_follows visited.afterOpening)
      rw [← visited.opening] at tries
      exact plain tries
  | afterUp success =>
      obtain ⟨other, distinct⟩ := apart rfl
      have reads : (others.beside i number ε).manner.Follows (get : Engine σ ε (State σ ε)) :=
        fun s => (others.beside i number ε).refl s
      have inside : (others.beside i number ε).Tries
          (StorageProvider.afterUp env j number' success) :=
        (others.beside_coordinates other).tries_afterUp (others.beside_setOpenUnit distinct)
          reads success
      have tries := Tries.between (others.beside_follows (visited.beforeClosing success)) inside
        (others.beside_follows (visited.afterClosing success))
      rw [← visited.closing] at tries
      exact plain tries

end

variable {env : Setting σ} {others : Others env} {i : StorageId} {number : Nat}
  {table unitName : String} {visits : Visits σ ε} {slot : Slot σ ε}

/-- A provider that has opened a unit has begun or joined a transaction, and holds it. -/
theorem Provider.Visited.opened (visited : slot.provider.Visited others i number table visits)
    {s after : State σ ε} {b : Bool}
    (ran : (Ask.beforeUp.of unitName slot).run.run s = (.ok b, after)) :
    ∃ t opened, (Storage.begin env i : Attempt σ ε _).run.run (visits.beforeOpening.run s).2 =
        (.ok t, opened) ∧
      after.openUnit number = some t.id ∧
      others.held opened.outside = others.held (visits.beforeOpening.run s).2.outside ∧
      Steps env i (others.stage i opened) (others.stage i after) := by
  obtain ⟨done, e, inner, opening, rfl⟩ := Ask.own_ran ran
  have opening := Ask.affirmed_ok opening
  rw [visited.opening, Attempt.run_between] at opening
  have still := (others.still_coordinates (ε := ε) i).tries_begin (visits.beforeOpening.run s).2
  cases begun : (Storage.begin env i : Attempt σ ε _).run.run (visits.beforeOpening.run s).2 with
  | mk result opened =>
      rw [begun] at still
      rw [StorageProvider.run_beforeUp, begun] at opening
      cases result with
      | error e => cases opening
      | ok t =>
          let noted := opened.holding number (some t.id)
          have same : done = (visits.afterOpening.run noted).2 := (congrArg Prod.snd opening).symm
          subst same
          have held : others.held opened.outside = others.held noted.outside := rfl
          obtain ⟨units, steps⟩ := visited.afterOpening noted
          refine ⟨t, opened, rfl, ?_, still, ?_⟩
          · exact (congrFun units number).trans (setAt_self opened.openUnit number (some t.id))
          · have noting : Steps env i (others.stage i opened) (others.stage i noted) :=
              others.steps_of_aside i ⟨rfl, rfl⟩ held
            exact (noting.trans (steps i)).trans
              ((others.route_recorded _ inner).2 i)

/-- A provider that has closed a unit with success has called for the commit of what it held, and
has made no difference between the ways in which that can succeed. -/
theorem Provider.Visited.closed (visited : slot.provider.Visited others i number table visits)
    {s after : State σ ε} {b : Bool} {id : Nat} (holds : s.openUnit number = some id)
    (ran : ((Ask.afterUp true).of unitName slot).run.run s = (.ok b, after)) :
    ∃ status closed, (Storage.commitId env i id : Engine σ ε _).run
        (((visits.beforeClosing true).run s).2.holding number none) = (.ok status, closed) ∧
      Steps env i (others.stage i closed) (others.stage i after) := by
  obtain ⟨done, e, inner, closing, rfl⟩ := Ask.own_ran ran
  have closing := Ask.affirmed_ok closing
  rw [visited.closing, Attempt.run_between] at closing
  have holds' : ((visits.beforeClosing true).run s).2.openUnit number = some id :=
    (congrFun (visited.beforeClosing true s).1 number).trans holds
  rw [StorageProvider.run_afterUp holds', if_pos rfl] at closing
  cases committed : (Storage.commitId env i id : Engine σ ε _).run
      (((visits.beforeClosing true).run s).2.holding number none) with
  | mk reply closed =>
      rw [committed] at closing
      cases reply with
      | error e => cases closing
      | ok status =>
          have same : done = ((visits.afterClosing true).run closed).2 :=
            (congrArg Prod.snd closing).symm
          subst same
          refine ⟨status, closed, rfl, ?_⟩
          exact ((visited.afterClosing true closed).2 i).trans
            ((others.route_recorded _ inner).2 i)

/-! ### Stays in a transaction -/

/-- What becomes of the transaction that a participant of a unit takes part in: what it has begun or
joined, the states after that, before it leaves and after that, and what it is told then. -/
structure Stay (σ ε : Type) where
  transaction : Transaction
  opened : State σ ε
  closing : State σ ε
  closed : State σ ε
  status : TransactionStatus

namespace Stay

/-- The stay of a participant that is opened by `o` and closed by `c`. -/
structure Of (env : Setting σ) (i : StorageId) (number : Nat) (visits : Visits σ ε)
    (o c : Exchange σ ε) (k : Stay σ ε) : Prop where
  begun : (Storage.begin env i : Attempt σ ε _).run.run (visits.beforeOpening.run o.before).2 =
    (.ok k.transaction, k.opened)
  closing : k.closing = ((visits.beforeClosing true).run c.before).2.holding number none
  left : (Storage.commitId env i k.transaction.id : Engine σ ε _).run k.closing =
    (.ok k.status, k.closed)

/-- All that the storage did in the meantime is statements, and they were committed or are still to
be, by others who take part. -/
structure Kept (i : StorageId) (k : Stay σ ε) (made : List Event) : Prop where
  statements (e : Event) (member : e ∈ made) : e.isStatement i = true
  ended : k.status = .committed ∧ k.closed.dealings i = k.closing.dealings i ++ [.commit i true] ∨
    ∃ depth, 0 < depth ∧ k.status = .pending depth ∧
      k.closed.dealings i = k.closing.dealings i ∧
      (k.closed.coordinator i).active? = some ⟨k.transaction.id, depth⟩

/-- Another participant has rolled the transaction back in the meantime, and nothing was left to
commit. -/
structure Lost (i : StorageId) (k : Stay σ ε) (made : List Event) : Prop where
  broken : ∃ inside succeeded later, made = inside ++ .rollback i succeeded :: later ∧
    ∀ e ∈ inside, e.isStatement i = true
  ended : k.status = .alreadyEnded ∧ k.closed = k.closing

private theorem kept_or_lost {k : Stay σ ε} {held held' : Multiset Transaction}
    (inside : Inside i k.transaction.id ⟨k.opened, held⟩)
    (steps : Steps env i ⟨k.opened, held⟩ ⟨k.closing, held'⟩)
    (left : (Storage.commitId env i k.transaction.id : Engine σ ε _).run k.closing =
      (.ok k.status, k.closed)) :
    ∃ made, k.closing.dealings i = k.opened.dealings i ++ made ∧
      (k.Kept i made ∨ k.Lost i made) := by
  obtain ⟨made, statements, ⟨within, dealings⟩ | ⟨past, succeeded, later, dealings⟩⟩ :=
    steps.inside inside
  · refine ⟨made, dealings, .inl ⟨statements, ?_⟩⟩
    have active := within.active
    dsimp only at active
    by_cases others : 1 < holders k.transaction.id held' + 1
    · rw [Storage.run_commitId_pending env active others] at left
      have status : k.status = _ := (Except.ok.inj (congrArg Prod.fst left)).symm
      have closed : k.closed = _ := (congrArg Prod.snd left).symm
      refine .inr ⟨holders k.transaction.id held' + 1 - 1, by omega, status, ?_, ?_⟩
      · rw [closed]
        exact State.dealings_same (State.calls_assigned k.closing i _)
      · rw [closed, State.coordinator_assigned]
    · obtain ⟨reply, after, succeeded, ran, -, calls, ok, told⟩ :=
        Storage.run_commitId_told env active (Nat.not_lt.1 others)
      rw [left] at ran
      cases ran
      have same : succeeded = true := ok.symm
      subst same
      exact .inl ⟨Except.ok.inj (told rfl), State.dealings_added calls (by simp [Event.concerns])⟩
  · refine ⟨_, dealings, .inr ⟨⟨made, succeeded, later, rfl, statements⟩, ?_⟩⟩
    rw [Storage.run_commitId_stale env past.closed] at left
    exact ⟨(Except.ok.inj (congrArg Prod.fst left)).symm, (congrArg Prod.snd left).symm⟩

end Stay

/-- What was made on storage `i` from `opened` to `closing` has a part that was made from `s` to
`after`. -/
def Covers (i : StorageId) (opened : State σ ε) (made : List Event) (s after : State σ ε) : Prop :=
  ∃ earlier own later, made = earlier ++ (own ++ later) ∧
    s.dealings i = opened.dealings i ++ earlier ∧ after.dealings i = s.dealings i ++ own

private theorem Covers.of_steps {opened s after closing : Stage σ ε} {made : List Event}
    (begun : Steps env i opened s) (steps : Steps env i s after) (ended : Steps env i after closing)
    (dealings : closing.state.dealings i = opened.state.dealings i ++ made) :
    Covers i opened.state made s.state after.state := by
  obtain ⟨earlier, before⟩ := begun.grows
  obtain ⟨own, between⟩ := steps.grows
  obtain ⟨later, rest⟩ := ended.grows
  refine ⟨earlier, own, later, ?_, before, between⟩
  rw [dealings, between, before, List.append_assoc, List.append_assoc] at rest
  exact List.append_cancel_left rest

/-! ### Units -/

/-- Every slot has the usual provider of its storage, visited by others. -/
structure Migrator.Visited (others : Others env) (table : String) (number : StorageId → Nat)
    (visits : StorageId → Visits σ ε) (m : Migrator σ ε) : Prop where
  storages : (m.slots.map Slot.storage).Nodup
  numbers (a b : Slot σ ε) (one : a ∈ m.slots) (two : b ∈ m.slots)
    (same : number a.storage = number b.storage) : a.storage = b.storage
  providers (slot : Slot σ ε) (member : slot ∈ m.slots) :
    slot.provider.Visited others slot.storage (number slot.storage) table (visits slot.storage)

/-- A participant's stay, and all that its storage did in the meantime: in there lies all that was
done while the unit was applied and saved. -/
structure Stay.Spans (i : StorageId) (k : Stay σ ε) (made : List Event)
    (said : List (Exchange σ ε)) : Prop where
  dealings : k.closing.dealings i = k.opened.dealings i ++ made
  covers (x : Exchange σ ε) (member : x ∈ said) (work : x.ask.isApply = true ∨ x.ask.isSave = true) :
    Covers i k.opened made x.before x.after

section

variable {m : Migrator σ ε} {numbers : StorageId → Nat} {visitors : StorageId → Visits σ ε}
  {ps : List (Slot σ ε)} {who : Nat} {said : List (Exchange σ ε)} {s after : State σ ε}

private theorem reports_beside (s : State σ ε) (t : Trace) :
    (others.beside i number ε).leads s (s.reported t) :=
  others.beside_of_route i (others.route_recorded s rfl) number

/-- Participants other than `who` make steps on its storage, and so does `who` itself but when it
opens and closes the unit. -/
theorem Migrator.Visited.leads (visited : m.Visited others table numbers visitors)
    (among : ps.Sublist m.slots) (here : ps[who]? = some slot) {x : Exchange σ ε}
    (apart : x.who = who → x.ask.brackets = false) {slot' : Slot σ ε}
    (there : ps[x.who]? = some slot')
    (ran : (x.ask.of unitName slot').run.run x.before = (x.answer, x.after)) :
    (others.beside slot.storage (numbers slot.storage) ε).leads x.before x.after := by
  have member := List.mem_of_getElem? here
  have member' := List.mem_of_getElem? there
  have aside (brackets : x.ask.brackets = true) :
      slot'.storage ≠ slot.storage ∧ numbers slot'.storage ≠ numbers slot.storage := by
    have other : slot'.storage ≠ slot.storage := by
      intro same
      have distinct : (ps.map Slot.storage).Nodup :=
        visited.storages.sublist (among.map Slot.storage)
      have place := who_of_storage distinct here there same
      rw [apart place] at brackets
      cases brackets
    exact ⟨other, fun same => other
      (visited.numbers _ _ (among.subset member') (among.subset member) same)⟩
  exact Route.leads_of_ran ((visited.providers slot' (among.subset member')).tries aside) ran

private theorem Migrator.Visited.stay (visited : m.Visited others table numbers visitors)
    (among : ps.Sublist m.slots) (here : ps[who]? = some slot)
    (tallied : Tallied slot.storage (others.stage slot.storage s))
    (talk : Conversation ps unitName s said after) {o c : Exchange σ ε}
    {earlier middle later : List (Exchange σ ε)}
    (bracketed : Bracketed who true said o c earlier middle later) (ended : c.succeeded = true) :
    ∃ k made, Stay.Of env slot.storage (numbers slot.storage) (visitors slot.storage) o c k ∧
      k.Spans slot.storage made said ∧ (k.Kept slot.storage made ∨ k.Lost slot.storage made) := by
  have provided := visited.providers slot (among.subset (List.mem_of_getElem? here))
  let route := others.beside slot.storage (numbers slot.storage) ε
  have walks {said : List (Exchange σ ε)} {s after : State σ ε}
      (talk : Conversation ps unitName s said after)
      (inside : ∀ x ∈ said, x ∈ earlier ++ (middle ++ later)) : route.leads s after :=
    talk.leads reports_beside fun x member slot' there ran =>
      visited.leads among here (bracketed.apart x (inside x member)) there ran
  obtain ⟨before, opens, between, closes, -⟩ := bracketed.parts here talk
  rw [Exchange.succeeded_iff.1 ended] at closes
  have arriving := walks before (by simp +contextual)
  have working := walks between (by simp +contextual)
  obtain ⟨t, opened, begun, holds, still, entering⟩ := provided.opened opens
  have held : c.before.openUnit (numbers slot.storage) = some t.id := working.1.trans holds
  obtain ⟨status, closed, left, -⟩ := provided.closed held closes
  let closing := ((visitors slot.storage).beforeClosing true).run c.before |>.2
    |>.holding (numbers slot.storage) none
  have leaving : Steps env slot.storage (others.stage slot.storage c.before)
      (others.stage slot.storage closing) :=
    ((provided.beforeClosing true c.before).2 slot.storage).trans
      (others.steps_of_aside slot.storage ⟨rfl, rfl⟩ rfl)
  let k : Stay σ ε := ⟨t, opened, closing, closed, status⟩
  have inside : Inside slot.storage t.id (others.stage slot.storage opened) := by
    have before : Tallied slot.storage (others.stage slot.storage
        ((visitors slot.storage).beforeOpening.run o.before).2) :=
      Steps.tallied (arriving.2.trans ((provided.beforeOpening o.before).2 slot.storage)) tallied
    have joined := Storage.inside_joined before begun
    rwa [← still] at joined
  obtain ⟨made, dealings, kept⟩ :=
    Stay.kept_or_lost (k := k) inside ((entering.trans working.2).trans leaving) left
  refine ⟨k, made, ⟨begun, rfl, left⟩, ⟨dealings, fun x member work => ?_⟩, kept⟩
  obtain ⟨pre, post, rfl⟩ := List.append_of_mem (bracketed.within member work)
  obtain ⟨toCall, ⟨slot', there, ran⟩, fromCall⟩ := between.around
  have called := visited.leads among here (bracketed.apart x (by simp)) there ran
  have first := walks toCall (by simp +contextual)
  have last := walks fromCall (by simp +contextual)
  exact Covers.of_steps (entering.trans first.2) called.2 (last.2.trans leaving) dealings

/-- A unit that is reported as applied was kept or lost, on each of its storages. In either case its
participant has taken part in a transaction there from opening to closing the unit, and all that was
done to apply and to save the unit lies in between. If the unit was kept, all of this was executed
inside that transaction, which was committed, or is open still and the participant has left it by
commit. It was lost only by a rollback of another participant in the meantime. -/
theorem Migrator.applied_unit_kept_or_lost (visited : m.Visited others table numbers visitors)
    (db : DatabaseId) (u : MigrationUnit) (s : State σ ε)
    (tallied : ∀ slot ∈ m.slots, Tallied slot.storage (others.stage slot.storage s))
    (applied : ((m.runUnit db u).run.run s).1 = .ok true) :
    ∃ said, Conversation (m.participantsAt db u s) u.name s said ((m.runUnit db u).run.run s).2 ∧
      ∀ who slot, (m.participantsAt db u s)[who]? = some slot →
        ∃ o ∈ said, ∃ c ∈ said, o.Is who .beforeUp ∧ c.Is who (.afterUp true) ∧ ∃ k made,
          Stay.Of env slot.storage (numbers slot.storage) (visitors slot.storage) o c k ∧
          k.Spans slot.storage made said ∧
          (k.Kept slot.storage made ∨ k.Lost slot.storage made) := by
  obtain ⟨said, talk, went⟩ := m.runUnit_converses db u s
  rw [applied] at went
  refine ⟨said, talk, fun who slot here => ?_⟩
  have among := m.participantsAt_sublist db u s
  obtain ⟨inside, _⟩ := List.getElem?_eq_some_iff.1 here
  obtain ⟨o, c, earlier, middle, later, bracketed, closed⟩ := went.bracketed inside
  have start := tallied slot (among.subset (List.mem_of_getElem? here))
  obtain ⟨k, made, stay, spans, kept⟩ := visited.stay among here start talk bracketed closed
  refine ⟨o, ?_, c, ?_, bracketed.opens, bracketed.closes, k, made, stay, spans, kept⟩
  · rw [bracketed.split]
    simp
  · rw [bracketed.split]
    simp

end

/-! ### Alone and with others -/

def nobody (env : Setting σ) : Others env where
  held _ _ := 0
  keeps _ := ⟨fun _ => rfl, fun _ _ => rfl, fun _ _ => rfl, fun _ _ => rfl, fun _ => rfl,
    fun _ => rfl, fun _ => rfl⟩

private theorem StorageProvider.visited_create (others : Others env) (i : StorageId) (table : String)
    (s : State σ ε) :
    ((create env i table : Engine σ ε _).run s).1.Visited others i s.providerCount table {} where
  can := ((Amid.conduct env (others.route ε)).statements i).tries_can table
  save := ((Amid.conduct env (others.route ε)).statements i).tries_save table
  apply := ((Amid.conduct env (others.route ε)).statements i).tries_apply
  opening := rfl
  closing _ := rfl
  beforeOpening := (others.route ε).follows_pure ()
  afterOpening := (others.route ε).follows_pure ()
  beforeClosing _ := (others.route ε).follows_pure ()
  afterClosing _ := (others.route ε).follows_pure ()

private theorem tallied_fresh {s : State σ ε} (idle : (s.coordinator i).active? = none) :
    Tallied i ⟨s, 0⟩ := by
  refine ⟨fun active found => ?_, fun t member => (Multiset.notMem_zero t member).elim⟩
  dsimp only at found
  rw [idle] at found
  cases found

def guest (o : Outcome Unit) : Engine Scripts Record Unit := do
  let _ ← Storage.runInsideTransaction Party.scripted 0 (pure o)

def openUnits (σ ε : Type) : Route σ ε where
  leads s after := after.openUnit = s.openUnit
  refl _ := rfl
  trans first second := second.trans first

private theorem guest_follows (o : Outcome Unit) :
    ((nobody Party.scripted).route Record).Follows (guest o) := by
  have parts (j : StorageId) :
      (openUnits Scripts Record).manner.Coordinates Party.scripted j :=
    { coordinator := fun _ => rfl, setCoordinator := fun _ _ => rfl, trace := fun _ _ _ _ => rfl
      begin := fun _ => rfl, commit := fun _ => rfl, rollback := fun _ => rfl }
  intro s
  refine ⟨?_, fun i => ?_⟩
  · exact Manner.Coordinates.follows_unit parts 0 (Manner.follows_pure _ o) s
  · exact (Steps.course Party.scripted i Record).unit 0 (Manner.follows_pure _ o) s

def attended (o : Outcome Unit) : Migrator Scripts Record where
  config := {}
  slots :=
    let usual := ((StorageProvider.create Party.scripted 0 "_migrations").run { outside := {} }).1
    [⟨0, { usual with beforeUp := usual.beforeUp.between (pure ()) (guest o) }⟩]

theorem attended_visited (o : Outcome Unit) :
    (attended o).Visited (nobody Party.scripted) "_migrations" (fun i => i)
      (fun _ => { afterOpening := guest o }) := by
  have usual := StorageProvider.visited_create (nobody Party.scripted) 0 "_migrations"
    ({ outside := {} } : State Scripts Record)
  refine ⟨List.nodup_singleton 0, fun a b _ _ same => same, fun slot member => ?_⟩
  cases List.mem_singleton.1 member
  exact { usual with opening := rfl, afterOpening := guest_follows o }

def blank : MigrationUnit := ⟨"001", []⟩

/-- A unit is kept where somebody else has joined its transaction and committed. -/
theorem blank_unit_kept_or_lost :
    (((attended (.ok ())).runUnit 0 blank).run.run { outside := {} }).1 = .ok true ∧
    ∃ said, Conversation ((attended (.ok ())).participantsAt 0 blank { outside := {} }) "001"
        { outside := {} } said
        (((attended (.ok ())).runUnit 0 blank).run.run { outside := {} }).2 ∧
      ∀ who slot, ((attended (.ok ())).participantsAt 0 blank { outside := {} })[who]? = some slot →
        ∃ o ∈ said, ∃ c ∈ said, o.Is who .beforeUp ∧ c.Is who (.afterUp true) ∧ ∃ k made,
          Stay.Of Party.scripted slot.storage slot.storage { afterOpening := guest (.ok ()) } o c k ∧
          k.Spans slot.storage made said ∧
          (k.Kept slot.storage made ∨ k.Lost slot.storage made) :=
  have applied : (((attended (.ok ())).runUnit 0 blank).run.run { outside := {} }).1 = .ok true := by
    decide +kernel
  ⟨applied, Migrator.applied_unit_kept_or_lost (attended_visited (.ok ())) 0 blank
    { outside := {} } (fun _ _ => tallied_fresh rfl) applied⟩

def failing : Outcome Unit :=
  .ofError (.invariant .query "nothing to do")

def isRollback (i : StorageId) : Event → Bool
  | .rollback j _ => j == i
  | _ => false

/-- A unit that was lost is reported as applied. Its storage has seen the query for its record, the
begin of a transaction, a rollback by somebody else who had joined that, and only then the record,
by itself. -/
theorem lost_unit_counts_as_applied :
    (attended failing).Visited (nobody Party.scripted) "_migrations" (fun i => i)
      (fun _ => { afterOpening := guest failing }) ∧
    (((attended failing).runUnit 0 blank).run.run { outside := {} }).1 = .ok true ∧
    ((((attended failing).runUnit 0 blank).run.run { outside := {} }).2.dealings 0).map
      (fun e => (e.isStatement 0, isRollback 0 e)) =
        [(true, false), (false, false), (false, true), (true, false)] :=
  ⟨attended_visited failing, by decide +kernel, by decide +kernel⟩

end Migration

end EntityStore
