import EntityStore.Proofs.Migration.Statements
import EntityStore.Proofs.Transaction.UnitOfWork

/-!
The protocol of transactions as the provider of a storage sees it. Participants that begin and leave
by hand, units of work and units of migration share one coordinator; whatever they do one after the
other, and whatever the database answers, the provider gets rounds of calls: begins that it refuses,
one that it grants, and one call that ends the transaction.
-/

namespace EntityStore

variable {σ ε α β : Type}

def Event.transacts (i : StorageId) : Event → Bool
  | .begin j _ | .commit j _ | .rollback j _ => j == i
  | _ => false

def State.transacted (i : StorageId) (s : State σ ε) : List Event :=
  s.calls.filter (Event.transacts i)

/-! ### Rounds -/

inductive Ending
  | commit
  | rollback
  deriving DecidableEq

def Ending.call (i : StorageId) (succeeded : Bool) : Ending → Event
  | .commit => .commit i succeeded
  | .rollback => .rollback i succeeded

/-- A transaction, from the first try to begin it to the call that ends it. -/
structure Round where
  refusals : Nat
  ending : Ending
  succeeded : Bool

def refused (i : StorageId) (n : Nat) : List Event :=
  List.replicate n (.begin i false)

def Round.calls (i : StorageId) (r : Round) : List Event :=
  refused i r.refusals ++ [.begin i true, r.ending.call i r.succeeded]

/-- Rounds one after the other, and what there is of the next one: it is `underway` once its begin
has been granted. -/
inductive InRounds (i : StorageId) : (underway : Bool) → List Event → Prop
  | idle (rounds : List Round) (refusals : Nat) :
      InRounds i false (rounds.flatMap (Round.calls i) ++ refused i refusals)
  | underway (rounds : List Round) (refusals : Nat) :
      InRounds i true (rounds.flatMap (Round.calls i) ++ refused i refusals ++ [.begin i true])

/-- The last begin that was granted has not been followed by a commit or a rollback. -/
def Unfollowed (i : StorageId) (calls : List Event) : Prop :=
  ∃ before later, calls = before ++ .begin i true :: later ∧
    ∀ (ending : Ending) (succeeded : Bool), ending.call i succeeded ∉ later

private theorem Unfollowed.init {i : StorageId} {calls : List Event} {e : Event}
    (other : e ≠ .begin i true)
    (unfollowed : Unfollowed i (calls ++ [e])) :
    Unfollowed i calls ∧ ∀ (ending : Ending) (succeeded : Bool), ending.call i succeeded ≠ e := by
  obtain ⟨before, later, split, unended⟩ := unfollowed
  rcases List.eq_nil_or_concat later with rfl | ⟨rest, last, rfl⟩
  · have same := List.append_inj_right' split rfl
    exact (other (List.cons.inj same).1).elim
  · rw [List.concat_eq_append, ← List.cons_append, ← List.append_assoc] at split
    obtain ⟨rfl, same⟩ := List.append_inj' split rfl
    cases same
    refine ⟨⟨before, rest, rfl, fun ending succeeded member => ?_⟩, ?_⟩
    · exact unended ending succeeded (by simp [member])
    · rintro ending succeeded rfl
      exact unended ending succeeded (by simp)

/-- The same call by call: a begin comes only where no transaction is underway, and a commit or
rollback only where one is. -/
inductive CallByCall (i : StorageId) : (underway : Bool) → List Event → Prop
  | nil : CallByCall i false []
  | refused {calls : List Event} (before : CallByCall i false calls) :
      CallByCall i false (calls ++ [.begin i false])
  | granted {calls : List Event} (before : CallByCall i false calls) :
      CallByCall i true (calls ++ [.begin i true])
  | ended {calls : List Event} (ending : Ending) (succeeded : Bool)
      (before : CallByCall i true calls) :
      CallByCall i false (calls ++ [ending.call i succeeded])

namespace CallByCall

variable {i : StorageId} {underway : Bool} {calls : List Event}

private theorem inRounds (orderly : CallByCall i underway calls) : InRounds i underway calls := by
  induction orderly with
  | nil => exact .idle [] 0
  | refused before ih =>
      cases ih with
      | idle rounds refusals =>
          have next := InRounds.idle (i := i) rounds (refusals + 1)
          rwa [EntityStore.refused, List.replicate_succ', ← List.append_assoc] at next
  | granted before ih =>
      cases ih with
      | idle rounds refusals => exact .underway rounds refusals
  | ended ending succeeded before ih =>
      cases ih with
      | underway rounds refusals =>
          have next := InRounds.idle (i := i) (rounds ++ [⟨refusals, ending, succeeded⟩]) 0
          simpa [Round.calls, EntityStore.refused] using next

private theorem underway_iff (orderly : CallByCall i underway calls) :
    underway = true ↔ Unfollowed i calls := by
  induction orderly with
  | nil =>
      refine ⟨by rintro ⟨⟩, ?_⟩
      rintro ⟨before, later, split, -⟩
      simp at split
  | refused before ih =>
      exact ⟨by rintro ⟨⟩, fun unfollowed => ih.2 (unfollowed.init (by simp)).1⟩
  | granted before ih => exact ⟨fun _ => ⟨_, [], rfl, by simp⟩, fun _ => rfl⟩
  | ended ending succeeded before ih =>
      refine ⟨by rintro ⟨⟩, fun unfollowed => ?_⟩
      exact ((unfollowed.init (by cases ending <;> simp [Ending.call])).2 ending succeeded rfl).elim

end CallByCall

/-! ### What is done to a storage -/

theorem State.transacted_eq (i : StorageId) (s : State σ ε) :
    s.transacted i = (s.dealings i).filter (Event.transacts i) := by
  rw [transacted, dealings, List.filter_filter]
  refine List.filter_congr fun e _ => ?_
  cases e <;> simp [Event.transacts, Event.concerns]

/-- No transaction of storage `i` was begun, joined or left, and no call was made for one. -/
structure Untouched (i : StorageId) (s after : State σ ε) : Prop where
  coordinator : after.coordinator i = s.coordinator i
  transacted : after.transacted i = s.transacted i

namespace Untouched

variable {i : StorageId} {s after : State σ ε}

def route (i : StorageId) (σ ε : Type) : Route σ ε where
  leads := Untouched i
  refl _ := ⟨rfl, rfl⟩
  trans first second :=
    ⟨second.coordinator.trans first.coordinator, second.transacted.trans first.transacted⟩

theorem of_aside (aside : Aside i s after) : Untouched i s after :=
  ⟨aside.coordinator, by rw [State.transacted_eq, State.transacted_eq, aside.dealings]⟩

private theorem pushed {e : Event} (other : e.transacts i = false) (s : State σ ε) (outside : σ) :
    Untouched i s { s with outside, trail := s.trail.push e } := by
  refine ⟨rfl, ?_⟩
  simp [State.transacted, State.calls, List.filter_cons, other]

end Untouched

structure Watches (i : StorageId) (R : Route σ ε) : Prop where
  seen {g h : Stage σ ε} : Seen i g h → R.leads g.state h.state
  untouched {s after : State σ ε} : Untouched i s after → R.leads s after

/-! ### Those who share the transactions -/

namespace Watches

variable {env : Setting σ} {i : StorageId} {R : Route σ ε} (watches : Watches i R)

include watches

theorem tries_begin (j : StorageId) :
    R.Tries (Storage.begin env j : Attempt σ ε Transaction) := by
  intro s
  by_cases here : j = i
  · subst here
    cases begun : (Storage.begin env j : Attempt σ ε _).run.run s with
    | mk result after =>
        cases result with
        | ok t => exact watches.seen (Storage.seen_begun 0 begun)
        | error e => exact watches.seen (Storage.seen_refused 0 begun)
  · exact watches.untouched (.of_aside (Aside.tries_begin here env s))

variable (env) in
theorem follows_leave (t : Transaction) (how : Leaving) :
    R.Follows (Party.leave env t how) := by
  intro s
  by_cases here : t.storage = i
  · exact watches.seen (Party.seen_leave s t here how 0)
  · exact watches.untouched (.of_aside (Aside.follows_leave env here how s))

theorem follows_close (t : Transaction) (o : Outcome α) : R.Follows (t.close env o) := by
  intro s
  rw [Transaction.run_close]
  exact watches.follows_leave env t _ s

theorem follows_unit (j : StorageId) {action : Engine σ ε (Outcome α)}
    (inside : R.Follows action) : R.Follows (Storage.runInsideTransaction env j action) := by
  refine Route.Follows.bind (watches.tries_begin j) fun begun => ?_
  cases begun with
  | error e => exact R.follows_pure _
  | ok t => exact Route.Follows.bind inside fun o => watches.follows_close t o

open Migration

theorem follows_holding (number : Nat) (t? : Option Nat) :
    R.Follows (StorageProvider.setOpenUnit number t?) :=
  fun _ => watches.untouched ⟨rfl, rfl⟩

private theorem tries_beforeUp (number : Nat) :
    R.Tries (StorageProvider.beforeUp env i number) :=
  Manner.Tries.bind (watches.tries_begin i) fun _ =>
    Manner.Follows.lift (watches.follows_holding number _)

private theorem tries_afterUp (number : Nat) (success : Bool) :
    R.Tries (StorageProvider.afterUp env i number success) := by
  intro s
  cases holds : s.openUnit number with
  | none =>
      have found : (Attempt.lift get : Attempt σ ε (State σ ε)).run.run s = (.ok s, s) := rfl
      have nothing : (StorageProvider.afterUp env i number success).run.run s = (.ok (), s) := by
        rw [StorageProvider.afterUp, Attempt.run_bind_ok found, holds]
        rfl
      rw [nothing]
      exact R.refl s
  | some id =>
      have leaves := watches.follows_leave env ⟨i, id, 1⟩
        (if success then .commit else .rollback) (s.holding number none)
      rw [StorageProvider.run_afterUp holds]
      refine R.trans (watches.follows_holding number none s) ?_
      cases success with
      | true => exact leaves
      | false => exact leaves

def course (env : Setting σ) : Course env ε where
  toManner := R.manner
  statements _ :=
    { record := fun e inner s => by
        refine watches.untouched (Untouched.pushed ?_ s s.outside)
        cases e <;> first | rfl | cases inner
      query := fun _ s => watches.untouched (Untouched.pushed rfl s _)
      execute := fun _ s => watches.untouched (Untouched.pushed rfl s _)
      insert := fun _ s => watches.untouched (Untouched.pushed rfl s _) }
  models _ := R.refl
  hooks? _ := R.refl
  observers _ _ := R.refl
  unit j _ inside := watches.follows_unit j inside

end Watches

/-- Programs that share the transactions of storage `i`, one thing after the other as they happen to
come. A participant may be left by anybody and more than once; a unit of work is run at once, or it
is begun and closed with other things in between. -/
inductive Shares (env : Setting σ) (i : StorageId) : {α : Type} → Engine σ ε α → Prop
  | pure {α : Type} (a : α) : Shares env i (pure a)
  | begin : Shares env i (Storage.begin env i : Attempt σ ε Transaction).run
  | leave (t : Transaction) (how : Leaving) : Shares env i (Party.leave env t how)
  | close {α : Type} (t : Transaction) (o : Outcome α) : Shares env i (t.close env o)
  | unit {α : Type} (j : StorageId) {action : Engine σ ε (Outcome α)}
      (inside : Shares env i action) : Shares env i (Storage.runInsideTransaction env j action)
  | beforeUp (number : Nat) :
      Shares env i (Migration.StorageProvider.beforeUp env i number).run
  | afterUp (number : Nat) (success : Bool) :
      Shares env i (Migration.StorageProvider.afterUp env i number success).run
  | request {α : Type} {c : Engine σ ε α} (requested : Requested env c) : Shares env i c
  | elsewhere {α : Type} {c : Engine σ ε α}
      (untouched : (Untouched.route i σ ε).Follows c) : Shares env i c
  | bind {α β : Type} {c : Engine σ ε α} {next : α → Engine σ ε β} (first : Shares env i c)
      (second : ∀ a, Shares env i (next a)) : Shares env i (c >>= next)

theorem Shares.follows {env : Setting σ} {i : StorageId} {c : Engine σ ε α}
    (shares : Shares env i c) {R : Route σ ε} (watches : Watches i R) : R.Follows c := by
  induction shares with
  | pure a => exact R.follows_pure a
  | begin => exact watches.tries_begin i
  | leave t how => exact watches.follows_leave env t how
  | close t o => exact watches.follows_close t o
  | unit j inside ih => exact watches.follows_unit j ih
  | beforeUp number => exact watches.tries_beforeUp number
  | afterUp number success => exact watches.tries_afterUp number success
  | request requested => exact requested.follows (watches.course env)
  | elsewhere untouched => exact fun s => watches.untouched (untouched s)
  | bind first second first_ih second_ih => exact Route.Follows.bind first_ih second_ih

/-! ### What the provider sees -/

namespace CallByCall

variable {i : StorageId}

def route (i : StorageId) (σ ε : Type) : Route σ ε where
  leads s after := ∃ made, after.transacted i = s.transacted i ++ made ∧
    ∀ calls, CallByCall i (s.coordinator i).isActive calls →
      CallByCall i (after.coordinator i).isActive (calls ++ made)
  refl s := ⟨[], by rw [List.append_nil], fun calls orderly => by rwa [List.append_nil]⟩
  trans := by
    rintro s middle after ⟨made, first, continues⟩ ⟨more, second, further⟩
    refine ⟨made ++ more, by rw [second, first, List.append_assoc], fun calls orderly => ?_⟩
    rw [← List.append_assoc]
    exact further _ (continues calls orderly)

theorem leads_of_untouched {s after : State σ ε} (untouched : Untouched i s after) :
    (route i σ ε).leads s after := by
  refine ⟨[], by rw [untouched.transacted, List.append_nil], fun calls orderly => ?_⟩
  rwa [untouched.coordinator, List.append_nil]

/-- A call comes only where the coordinator says that it may. -/
theorem leads_of_seen {g h : Stage σ ε} (seen : Seen i g h) :
    (route i σ ε).leads g.state h.state := by
  have same (coordinator : h.state.coordinator i = g.state.coordinator i)
      (dealings : h.state.dealings i = g.state.dealings i) :
      (route i σ ε).leads g.state h.state :=
    leads_of_untouched (.of_aside ⟨coordinator, dealings⟩)
  have quiet (active : (h.state.coordinator i).isActive = (g.state.coordinator i).isActive)
      (dealings : h.state.dealings i = g.state.dealings i) :
      (route i σ ε).leads g.state h.state := by
    refine ⟨[], ?_, fun calls orderly => ?_⟩
    · rw [State.transacted_eq, dealings, List.append_nil, State.transacted_eq]
    · rwa [active, List.append_nil]
  have called {e : Event} (transacts : e.transacts i = true)
      (dealings : h.state.dealings i = g.state.dealings i ++ [e])
      (continues : ∀ calls, CallByCall i (g.state.coordinator i).isActive calls →
        CallByCall i (h.state.coordinator i).isActive (calls ++ [e])) :
      (route i σ ε).leads g.state h.state := by
    refine ⟨[e], ?_, continues⟩
    rw [State.transacted_eq, State.transacted_eq, dealings, List.filter_append]
    simp [transacts]
  cases seen with
  | still held coordinator dealings => exact same coordinator dealings
  | statement e statement held coordinator dealings =>
      refine leads_of_untouched ⟨coordinator, ?_⟩
      have other : e.transacts i = false := by
        cases e <;> first | rfl | cases statement
      rw [State.transacted_eq, State.transacted_eq, dealings, List.filter_append]
      simp [other]
  | joined active found held coordinator dealings =>
      refine quiet ?_ dealings
      rw [coordinator, Coordinator.isActive, Coordinator.isActive, found]
      rfl
  | opened idle held coordinator dealings =>
      refine called (by simp [Event.transacts]) dealings fun calls orderly => ?_
      rw [Coordinator.isActive, idle] at orderly
      rw [coordinator]
      exact .granted orderly
  | refused idle held coordinator dealings =>
      refine called (by simp [Event.transacts]) dealings fun calls orderly => ?_
      rw [coordinator, Coordinator.isActive, idle]
      rw [Coordinator.isActive, idle] at orderly
      exact .refused orderly
  | stale t held past coordinator dealings => exact same coordinator dealings
  | pending t depth held found others coordinator dealings =>
      refine quiet ?_ dealings
      rw [coordinator, Coordinator.isActive, Coordinator.isActive, found]
      rfl
  | committed t depth succeeded held found last coordinator dealings =>
      refine called (by simp [Event.transacts]) dealings fun calls orderly => ?_
      rw [Coordinator.isActive, found] at orderly
      rw [coordinator]
      exact .ended .commit succeeded orderly
  | rolledBack t succeeded held taking coordinator dealings =>
      obtain ⟨depth, found⟩ := Party.open_of_holds taking
      refine called (by simp [Event.transacts]) dealings fun calls orderly => ?_
      rw [Coordinator.isActive, found] at orderly
      rw [coordinator]
      exact .ended .rollback succeeded orderly

private theorem watches : Watches i (route i σ ε) :=
  ⟨leads_of_seen, leads_of_untouched⟩

end CallByCall

/-- Whoever shares the transactions of a storage, and whatever the database answers, the provider
gets rounds of calls: begins that it refuses, one that it grants, one commit or rollback. The
coordinator is active just while the last begin that was granted has not been followed by either. -/
theorem provider_sees_rounds {env : Setting σ} {i : StorageId} {c : Engine σ ε α}
    (shares : Shares env i c) (s : State σ ε) (idle : (s.coordinator i).active? = none) :
    ∃ made, (c.run s).2.transacted i = s.transacted i ++ made ∧
      InRounds i ((c.run s).2.coordinator i).isActive made ∧
      (((c.run s).2.coordinator i).isActive = true ↔ Unfollowed i made) := by
  obtain ⟨made, calls, continues⟩ := shares.follows CallByCall.watches s
  have orderly := continues [] (by rw [Coordinator.isActive, idle]; exact .nil)
  rw [List.nil_append] at orderly
  exact ⟨made, calls, orderly.inRounds, orderly.underway_iff⟩

def crowd : Engine Scripts Record Unit := do
  let _ ← (Storage.begin Party.scripted 0).run
  let _ ← (Migration.StorageProvider.beforeUp Party.scripted 0 7).run
  let _ ← Storage.runInsideTransaction Party.scripted 0
    (pure (.ofError (.invariant .query "nothing to do")) : Engine Scripts Record (Outcome Unit))
  let _ ← (Migration.StorageProvider.afterUp Party.scripted 0 7 true).run

def busy : State Scripts Record where
  outside := ⟨fun _ => { begin := [.error (.execution "BEGIN" "database is locked")] }⟩

private theorem crowd_shares : Shares Party.scripted 0 crowd :=
  .bind .begin fun _ => .bind (.beforeUp 7) fun _ => .bind (.unit 0 (.pure _)) fun _ =>
    .bind (.afterUp 7 true) fun _ => .pure ()

theorem crowd_in_rounds :
    Shares Party.scripted 0 crowd ∧ (busy.coordinator 0).active? = none ∧
    ∃ made, (crowd.run busy).2.transacted 0 = busy.transacted 0 ++ made ∧
      InRounds 0 ((crowd.run busy).2.coordinator 0).isActive made ∧
      (((crowd.run busy).2.coordinator 0).isActive = true ↔ Unfollowed 0 made) :=
  ⟨crowd_shares, rfl, provider_sees_rounds crowd_shares busy rfl⟩

example : (crowd.run busy).2.transacted 0 = [.begin 0 false, .begin 0 true, .rollback 0 true] :=
  rfl

/-! ### States that are reached -/

def Coordinator.Occupied (c : Coordinator) : Prop :=
  ∀ active, c.active? = some active → 0 < active.depth

namespace Coordinator.Occupied

variable {i : StorageId}

def route (i : StorageId) (σ ε : Type) : Route σ ε where
  leads s after := (s.coordinator i).Occupied → (after.coordinator i).Occupied
  refl _ := id
  trans first second := second ∘ first

theorem of_idle {c : Coordinator} (idle : c.active? = none) : c.Occupied := by
  intro active found
  cases idle.symm.trans found

private theorem of_active {c : Coordinator} {id depth : Nat} (found : c.active? = some ⟨id, depth⟩)
    (taken : 0 < depth) : c.Occupied := by
  intro active same
  cases found.symm.trans same
  exact taken

private theorem leads_of_seen {g h : Stage σ ε} (seen : Seen i g h) :
    (route i σ ε).leads g.state h.state := by
  intro occupied
  cases seen with
  | still held coordinator dealings => rwa [coordinator]
  | statement e statement held coordinator dealings => rwa [coordinator]
  | joined active found held coordinator dealings =>
      exact of_active (congrArg Coordinator.active? coordinator) (Nat.succ_pos _)
  | opened idle held coordinator dealings =>
      exact of_active (congrArg Coordinator.active? coordinator) Nat.one_pos
  | refused idle held coordinator dealings => rwa [coordinator]
  | stale t held past coordinator dealings => rwa [coordinator]
  | pending t depth held found others coordinator dealings =>
      exact of_active (congrArg Coordinator.active? coordinator) (Nat.sub_pos_of_lt others)
  | committed t depth succeeded held found last coordinator dealings =>
      exact of_idle (congrArg Coordinator.active? coordinator)
  | rolledBack t succeeded held taking coordinator dealings =>
      exact of_idle (congrArg Coordinator.active? coordinator)

private theorem watches : Watches i (route i σ ε) :=
  ⟨leads_of_seen, fun untouched occupied => by rwa [untouched.coordinator]⟩

end Coordinator.Occupied

/-- A state to which programs lead that share the transactions of storage `i`. -/
def Reached (env : Setting σ) (i : StorageId) (s : State σ ε) : Prop :=
  ∃ (start : State σ ε) (α : Type) (c : Engine σ ε α),
    (start.coordinator i).active? = none ∧ Shares env i c ∧ (c.run start).2 = s

theorem Reached.occupied {env : Setting σ} {i : StorageId} {s : State σ ε}
    (reached : Reached env i s) : (s.coordinator i).Occupied := by
  obtain ⟨start, α, c, idle, shares, rfl⟩ := reached
  exact shares.follows Coordinator.Occupied.watches start (.of_idle idle)

end EntityStore
