import EntityStore.Proofs.Transaction.Coordination
import Mathlib.Data.List.Induction

/-!
Everyone who takes part in the transactions of one storage. Participants join by beginning and leave
once, in any order and with any answers of the database. The physical transaction is committed by
the last participant of an id to commit, if all the others have committed before, and it is rolled
back by the first that rolls back or is dropped. What comes later finds it ended.
-/

namespace EntityStore

/-! ### Participants -/

/-- How a participant leaves its transaction. -/
inductive Leaving
  | commit
  | rollback
  | drop
  deriving DecidableEq

structure Participant where
  transaction : Transaction
  left? : Option Leaving := none

inductive Move
  | begin
  | leave (who : Nat) (how : Leaving)

inductive Reply
  | joined (t : Transaction)
  | refused (e : EngineError)
  | left (result : Except TransactionError TransactionStatus)
  | dropped
  | gone

structure Party (σ ε : Type) where
  state : State σ ε
  members : List Participant := []

namespace Party

variable {σ ε : Type} (env : Setting σ) (i : StorageId)

def coordinator (p : Party σ ε) : Coordinator := p.state.coordinator i

/-- The participant of the number has the transaction and has not left. -/
def Takes (p : Party σ ε) (who : Nat) (t : Transaction) : Prop :=
  p.members[who]? = some ⟨t, none⟩

def holdsOpen (id : Nat) (m : Participant) : Bool :=
  m.transaction.id == id && m.left?.isNone

def live (p : Party σ ε) (id : Nat) : Nat :=
  p.members.countP (holdsOpen id)

def leave (t : Transaction) : Leaving → Engine σ ε Reply
  | .commit => return .left (← t.commit env)
  | .rollback => return .left (← t.rollback env)
  | .drop => do
    t.drop env
    return .dropped

/-- One move, with what it is told. -/
def move (p : Party σ ε) : Move → Reply × Party σ ε
  | .begin =>
    match (Storage.begin env i).run.run p.state with
    | (.ok t, s) => (.joined t, ⟨s, p.members ++ [⟨t, none⟩]⟩)
    | (.error e, s) => (.refused e, ⟨s, p.members⟩)
  | .leave who how =>
    match p.members[who]? with
    | some ⟨t, none⟩ =>
      let (reply, s) := (leave env t how).run p.state
      (reply, ⟨s, p.members.set who ⟨t, some how⟩⟩)
    | _ => (.gone, p)

def run (s : State σ ε) (moves : List Move) : Party σ ε :=
  moves.foldl (fun p m => (p.move env i m).2) ⟨s, []⟩

/-! ### The effect of a move -/

section

variable {s : State σ ε} {t : Transaction}

theorem run_leave_stale {how : Leaving} (stale : (s.coordinator t.storage).holds t.id = false) :
    ∃ reply after, (leave env t how : Engine σ ε _).run s = (reply, after) ∧
      after = { s with trail := after.trail } ∧ after.calls = s.calls ∧
      (how ≠ .drop → reply = .left (.ok .alreadyEnded)) := by
  cases how with
  | commit =>
      have run := Storage.run_commitId_stale env stale
      refine ⟨.left (.ok .alreadyEnded), s, ?_, rfl, rfl, fun _ => rfl⟩
      rw [leave, Transaction.commit, Engine.run_bind, run, Engine.run_pure]
  | rollback =>
      have run := Storage.run_rollbackId_stale env stale
      refine ⟨.left (.ok .alreadyEnded), s, ?_, rfl, rfl, fun _ => rfl⟩
      rw [leave, Transaction.rollback, Engine.run_bind, run, Engine.run_pure]
  | drop =>
      obtain ⟨dropped, failed, succeeds, -⟩ := Transaction.run_drop env s t
      have run := succeeds _ _ (Storage.run_rollbackId_stale env stale)
      refine ⟨.dropped, s.reported dropped, ?_, rfl, s.calls_reported dropped, fun absurd => ?_⟩
      · rw [leave, Engine.run_bind, run, Engine.run_pure]
      · exact (absurd rfl).elim

private theorem run_leave_rollback {how : Leaving} (noCommit : how ≠ .commit)
    (held : (s.coordinator t.storage).holds t.id = true) :
    ∃ reply after, (leave env t how : Engine σ ε _).run s = (reply, after) ∧
      Storage.EndsBy t.storage (.rollback t.storage) s after := by
  cases how with
  | commit => exact (noCommit rfl).elim
  | rollback =>
      obtain ⟨result, after, run, ends⟩ := Storage.run_rollbackId_open env held
      refine ⟨.left result, after, ?_, ends⟩
      rw [leave, Transaction.rollback, Engine.run_bind, run, Engine.run_pure]
  | drop =>
      obtain ⟨dropped, failed, succeeds, fails⟩ := Transaction.run_drop env s t
      obtain ⟨result, after, rolled, ends⟩ := Storage.run_rollbackId_open env
        (s := s.reported dropped) held
      cases result with
      | ok status =>
          have run := succeeds status after rolled
          exact ⟨.dropped, after, by rw [leave, Engine.run_bind, run, Engine.run_pure],
            ends.of_reported⟩
      | error e =>
          have run := fails e after rolled
          exact ⟨.dropped, after.reported (failed e),
            by rw [leave, Engine.run_bind, run, Engine.run_pure], ends.of_reported.reported (failed e)⟩

end

/-- Some participant of the id has rolled back or was dropped. -/
def BrokenOff (p : Party σ ε) (id : Nat) : Prop :=
  ∃ m ∈ p.members, m.transaction.id = id ∧ (m.left? = some .rollback ∨ m.left? = some .drop)

/-- All participants of the id but one have committed. -/
def OthersCommitted (p : Party σ ε) (who id : Nat) : Prop :=
  ∀ (other : Nat) (m : Participant), p.members[other]? = some m → m.transaction.id = id →
    other ≠ who → m.left? = some .commit

inductive Effect (i : StorageId) (p q : Party σ ε) : Move → Reply → Prop
  | joined (active : ActiveTransaction) (found : (p.coordinator i).active? = some active)
      (coordinator : q.coordinator i =
        { p.coordinator i with active? := some ⟨active.id, active.depth + 1⟩ })
      (members : q.members = p.members ++ [⟨⟨i, active.id, active.depth + 1⟩, none⟩])
      (calls : q.state.calls = p.state.calls) :
      Effect i p q .begin (.joined ⟨i, active.id, active.depth + 1⟩)
  | opened (idle : (p.coordinator i).active? = none)
      (coordinator : q.coordinator i =
        ⟨some ⟨(p.coordinator i).lastId + 1, 1⟩, (p.coordinator i).lastId + 1⟩)
      (members : q.members = p.members ++ [⟨⟨i, (p.coordinator i).lastId + 1, 1⟩, none⟩])
      (calls : q.state.calls = p.state.calls ++ [.begin i true]) :
      Effect i p q .begin (.joined ⟨i, (p.coordinator i).lastId + 1, 1⟩)
  | refused (e : EngineError) (idle : (p.coordinator i).active? = none)
      (coordinator : q.coordinator i = p.coordinator i) (members : q.members = p.members)
      (calls : q.state.calls = p.state.calls ++ [.begin i false]) :
      Effect i p q .begin (.refused e)
  | gone (who : Nat) (how : Leaving) (absent : ∀ t, ¬ p.Takes who t) (same : q = p) :
      Effect i p q (.leave who how) .gone
  | stale (who : Nat) (how : Leaving) (t : Transaction) (reply : Reply) (takes : p.Takes who t)
      (ended : (p.coordinator i).holds t.id = false)
      (state : q.state = { p.state with trail := q.state.trail })
      (members : q.members = p.members.set who ⟨t, some how⟩)
      (calls : q.state.calls = p.state.calls)
      (told : how ≠ .drop → reply = .left (.ok .alreadyEnded)) :
      Effect i p q (.leave who how) reply
  | pending (who depth : Nat) (t : Transaction) (takes : p.Takes who t)
      (found : (p.coordinator i).active? = some ⟨t.id, depth⟩) (others : 1 < depth)
      (coordinator : q.coordinator i =
        { p.coordinator i with active? := some ⟨t.id, depth - 1⟩ })
      (members : q.members = p.members.set who ⟨t, some .commit⟩)
      (calls : q.state.calls = p.state.calls) :
      Effect i p q (.leave who .commit) (.left (.ok (.pending (depth - 1))))
  | committed (who depth : Nat) (t : Transaction) (reply : Reply) (takes : p.Takes who t)
      (found : (p.coordinator i).active? = some ⟨t.id, depth⟩) (last : depth ≤ 1)
      (members : q.members = p.members.set who ⟨t, some .commit⟩)
      (ends : Storage.EndsBy i (.commit i) p.state q.state) :
      Effect i p q (.leave who .commit) reply
  | rolledBack (who : Nat) (how : Leaving) (t : Transaction) (reply : Reply)
      (takes : p.Takes who t) (noCommit : how ≠ .commit)
      (held : (p.coordinator i).holds t.id = true)
      (members : q.members = p.members.set who ⟨t, some how⟩)
      (ends : Storage.EndsBy i (.rollback i) p.state q.state) :
      Effect i p q (.leave who how) reply

theorem begin_effect (p : Party σ ε) :
    Effect i p (p.move env i .begin).2 .begin (p.move env i .begin).1 := by
  cases found : (p.coordinator i).active? with
  | some active =>
      obtain ⟨t, run⟩ := Storage.run_join_open env (s := p.state) found
      have begun := Storage.run_begin env i p.state
      rw [run] at begun
      rw [move, begun]
      exact .joined active found (State.coordinator_assigned ..) rfl (State.calls_reported ..)
  | none =>
      have begun := Storage.run_begin env i p.state
      rcases Storage.run_join_idle env (s := p.state) found with
        ⟨t, answer, run⟩ | ⟨reason, answer, run⟩
      · rw [run] at begun
        rw [move, begun]
        refine .opened found (State.coordinator_assigned ..) rfl ?_
        rw [State.calls_reported, State.calls_assigned, State.calls_called _ _ _ fun _ => rfl,
          answer]
        rfl
      · rw [run] at begun
        rw [move, begun]
        refine .refused _ found rfl rfl ?_
        rw [State.calls_called _ _ _ fun _ => rfl, answer]
        rfl

theorem leave_effect (p : Party σ ε) (who : Nat) (how : Leaving) (t : Transaction)
    (takes : p.Takes who t) (here : t.storage = i) :
    Effect i p (p.move env i (.leave who how)).2 (.leave who how)
      (p.move env i (.leave who how)).1 := by
  have moved : p.move env i (.leave who how) =
      (((leave env t how).run p.state).1,
        ⟨((leave env t how).run p.state).2, p.members.set who ⟨t, some how⟩⟩) := by
    rw [move, takes]
    rfl
  rw [moved]
  subst here
  cases held : (p.coordinator t.storage).holds t.id with
  | false =>
      obtain ⟨reply, after, run, state, calls, told⟩ :=
        run_leave_stale env held
      rw [run]
      exact .stale who how t reply takes held state rfl calls told
  | true =>
      by_cases noCommit : how = .commit
      · subst noCommit
        obtain ⟨depth, found⟩ : ∃ depth,
            (p.coordinator t.storage).active? = some ⟨t.id, depth⟩ := by
          unfold Coordinator.holds at held
          split at held
          · rename_i active found
            rw [found, ← eq_of_beq held]
            exact ⟨active.depth, rfl⟩
          · cases held
        by_cases others : 1 < depth
        · have run := Storage.run_commitId_pending env found others
          rw [leave, Engine.run_bind, Transaction.commit, run, Engine.run_pure]
          exact .pending who depth t takes found others (State.coordinator_assigned ..) rfl rfl
        · obtain ⟨result, after, run, ends⟩ :=
            Storage.run_commitId_last env found (Nat.not_lt.1 others)
          rw [leave, Engine.run_bind, Transaction.commit, run, Engine.run_pure]
          exact .committed who depth t _ takes found (Nat.not_lt.1 others) rfl ends
      · obtain ⟨reply, after, run, ends⟩ := run_leave_rollback env noCommit held
        rw [run]
        exact .rolledBack who how t reply takes noCommit held rfl ends

/-- A move changes a party in one of these ways. -/
theorem move_effect (p : Party σ ε) (here : ∀ m ∈ p.members, m.transaction.storage = i)
    (m : Move) : Effect i p (p.move env i m).2 m (p.move env i m).1 := by
  cases m with
  | begin => exact begin_effect env i p
  | leave who how =>
      by_cases takes : ∃ t, p.Takes who t
      · obtain ⟨t, takes⟩ := takes
        exact leave_effect env i p who how t takes (here _ (List.mem_of_getElem? takes))
      · have absent : ∀ t, ¬ p.Takes who t := fun t found => takes ⟨t, found⟩
        have moved : p.move env i (.leave who how) = (.gone, p) := by
          rw [move]
          split
          · rename_i t found
            exact (absent t found).elim
          · rfl
        rw [moved]
        exact .gone who how absent rfl

/-! ### What every run keeps -/

section

variable {i : StorageId} {p q : Party σ ε}

/-- What holds between moves: the coordinator counts those who still hold the open transaction,
nobody of whom has broken off, and whoever holds an ended one has a companion who did. -/
structure Sound (i : StorageId) (p : Party σ ε) : Prop where
  here : ∀ m ∈ p.members, m.transaction.storage = i
  bounded : ∀ m ∈ p.members, m.transaction.id ≤ (p.coordinator i).lastId
  depth : ∀ active, (p.coordinator i).active? = some active →
    active.depth = p.live active.id ∧ 1 ≤ active.depth
  unbroken : ∀ active, (p.coordinator i).active? = some active → ¬ p.BrokenOff active.id
  abandoned : ∀ m ∈ p.members, m.left? = none →
    (p.coordinator i).holds m.transaction.id = false → p.BrokenOff m.transaction.id

theorem holds_some {c : Coordinator} {active : ActiveTransaction}
    (found : c.active? = some active) (id : Nat) : c.holds id = decide (active.id = id) := by
  rw [Coordinator.holds, found]
  exact Bool.beq_eq_decide_eq _ _

theorem holds_none {c : Coordinator} (idle : c.active? = none) (id : Nat) :
    c.holds id = false := by
  rw [Coordinator.holds, idle]

theorem open_of_holds {c : Coordinator} {id : Nat} (held : c.holds id = true) :
    ∃ depth, c.active? = some ⟨id, depth⟩ := by
  cases found : c.active? with
  | none =>
      rw [holds_none found] at held
      cases held
  | some active =>
      rw [holds_some found, decide_eq_true_iff] at held
      exact ⟨active.depth, by rw [← held]⟩

private theorem Sound.open_bounded (sound : Sound i p) {active : ActiveTransaction}
    (found : (p.coordinator i).active? = some active) :
    active.id ≤ (p.coordinator i).lastId := by
  obtain ⟨depth, positive⟩ := sound.depth active found
  rw [depth] at positive
  obtain ⟨m, member, holder⟩ := List.countP_pos_iff.1 positive
  have same : m.transaction.id = active.id := by
    simp only [holdsOpen, Bool.and_eq_true, beq_iff_eq] at holder
    exact holder.1
  exact same ▸ sound.bounded m member

/-- What becomes of the number of holders when a participant leaves. -/
theorem live_left {who : Nat} {t : Transaction} {how : Leaving} (takes : p.Takes who t)
    (members : q.members = p.members.set who ⟨t, some how⟩) (id : Nat) :
    q.live id + (if t.id = id then 1 else 0) = p.live id := by
  obtain ⟨inside, here⟩ := List.getElem?_eq_some_iff.1 takes
  have holder : holdsOpen id p.members[who] = decide (t.id = id) := by
    rw [here]
    simp [holdsOpen, Bool.beq_eq_decide_eq]
  have counted : (if t.id = id then 1 else 0) ≤ p.live id := by
    split
    · rename_i same
      exact List.countP_pos_iff.2 ⟨_, List.getElem_mem inside, by rw [holder, decide_eq_true same]⟩
    · exact Nat.zero_le _
  have count : q.live id = p.live id - (if t.id = id then 1 else 0) := by
    unfold live
    rw [members, List.countP_set inside, holder]
    simp [holdsOpen]
  omega

private theorem live_joined {t : Transaction} (members : q.members = p.members ++ [⟨t, none⟩])
    (id : Nat) :
    q.live id = p.live id + (if t.id = id then 1 else 0) := by
  unfold live
  rw [members, List.countP_append]
  simp [holdsOpen, List.countP_cons]

theorem mem_left {who : Nat} {t : Transaction} {how : Leaving} (takes : p.Takes who t)
    (members : q.members = p.members.set who ⟨t, some how⟩) (m : Participant) :
    m ∈ q.members ↔ m = ⟨t, some how⟩ ∨
      ∃ other ≠ who, p.members[other]? = some m := by
  obtain ⟨inside, _⟩ := List.getElem?_eq_some_iff.1 takes
  rw [members, List.mem_iff_getElem?]
  constructor
  · rintro ⟨other, found⟩
    by_cases same : who = other
    · rw [List.getElem?_set, if_pos same, if_pos inside] at found
      exact .inl (Option.some.inj found).symm
    · rw [List.getElem?_set, if_neg same] at found
      exact .inr ⟨other, Ne.symm same, found⟩
  · rintro (rfl | ⟨other, different, found⟩)
    · exact ⟨who, by rw [List.getElem?_set, if_pos rfl, if_pos inside]⟩
    · exact ⟨other, by rw [List.getElem?_set, if_neg (Ne.symm different), found]⟩

/-- Leaving breaks a transaction off if it is no commit, and mends nothing. -/
theorem brokenOff_left {who : Nat} {t : Transaction} {how : Leaving} (takes : p.Takes who t)
    (members : q.members = p.members.set who ⟨t, some how⟩) (id : Nat) :
    q.BrokenOff id ↔ p.BrokenOff id ∨ t.id = id ∧ how ≠ .commit := by
  constructor
  · rintro ⟨m, member, same, broke⟩
    rcases (mem_left takes members m).1 member with rfl | ⟨other, _, found⟩
    · refine .inr ⟨same, fun commit => ?_⟩
      subst commit
      rcases broke with broke | broke <;> cases broke
    · exact .inl ⟨m, List.mem_of_getElem? found, same, broke⟩
  · rintro (⟨m, member, same, broke⟩ | ⟨same, noCommit⟩)
    · obtain ⟨other, found⟩ := List.mem_iff_getElem?.1 member
      have different : other ≠ who := by
        rintro rfl
        rw [takes] at found
        cases found
        rcases broke with broke | broke <;> cases broke
      exact ⟨m, (mem_left takes members m).2 (.inr ⟨other, different, found⟩), same, broke⟩
    · refine ⟨⟨t, some how⟩, (mem_left takes members _).2 (.inl rfl), same, ?_⟩
      cases how with
      | commit => exact (noCommit rfl).elim
      | rollback => exact .inl rfl
      | drop => exact .inr rfl

private theorem brokenOff_joined {t : Transaction} (members : q.members = p.members ++ [⟨t, none⟩])
    (id : Nat) : q.BrokenOff id ↔ p.BrokenOff id := by
  unfold BrokenOff
  rw [members]
  simp

private theorem sound_start (s : State σ ε) (idle : (s.coordinator i).active? = none) :
    Sound i (⟨s, []⟩ : Party σ ε) where
  here m member := absurd member List.not_mem_nil
  bounded m member := absurd member List.not_mem_nil
  depth active found := by
    change (s.coordinator i).active? = some active at found
    rw [idle] at found
    cases found
  unbroken active found := by
    change (s.coordinator i).active? = some active at found
    rw [idle] at found
    cases found
  abandoned m member := absurd member List.not_mem_nil

theorem Sound.left (sound : Sound i p) {who : Nat} {t : Transaction} {how : Leaving}
    (takes : p.Takes who t) (members : q.members = p.members.set who ⟨t, some how⟩)
    (lastId : (q.coordinator i).lastId = (p.coordinator i).lastId)
    (depth : ∀ active, (q.coordinator i).active? = some active →
      active.depth = q.live active.id ∧ 1 ≤ active.depth)
    (unbroken : ∀ active, (q.coordinator i).active? = some active → ¬ q.BrokenOff active.id)
    (abandoned : ∀ m ∈ q.members, m.left? = none →
      (q.coordinator i).holds m.transaction.id = false →
      (p.coordinator i).holds m.transaction.id = true → q.BrokenOff m.transaction.id) :
    Sound i q := by
  have known : ∀ m ∈ q.members, ∃ old ∈ p.members, old.transaction = m.transaction := by
    intro m member
    rcases (mem_left takes members m).1 member with rfl | ⟨other, _, found⟩
    · exact ⟨_, List.mem_of_getElem? takes, rfl⟩
    · exact ⟨m, List.mem_of_getElem? found, rfl⟩
  refine ⟨?_, ?_, depth, unbroken, ?_⟩
  · intro m member
    obtain ⟨old, present, same⟩ := known m member
    exact same ▸ sound.here old present
  · intro m member
    obtain ⟨old, present, same⟩ := known m member
    rw [lastId, ← same]
    exact sound.bounded old present
  · intro m member holds ended
    cases before : (p.coordinator i).holds m.transaction.id with
    | true => exact abandoned m member holds ended before
    | false =>
        rcases (mem_left takes members m).1 member with rfl | ⟨other, _, found⟩
        · cases holds
        · have broken := sound.abandoned m (List.mem_of_getElem? found) holds before
          exact (brokenOff_left takes members _).2 (.inl broken)

/-- A party stays sound when somebody joins the transaction that is open then: one more holds it, and
nothing that was open before has ended. -/
theorem Sound.joined (sound : Sound i p) {t : Transaction} (here : t.storage = i)
    (members : q.members = p.members ++ [⟨t, none⟩])
    (now : (q.coordinator i).active? = some ⟨t.id, p.live t.id + 1⟩)
    (lastId : (p.coordinator i).lastId ≤ (q.coordinator i).lastId)
    (bounded : t.id ≤ (q.coordinator i).lastId) (unbroken : ¬ p.BrokenOff t.id)
    (ended : ∀ m ∈ p.members, m.transaction.id ≠ t.id →
      (p.coordinator i).holds m.transaction.id = false) : Sound i q := by
  have member_iff (m : Participant) : m ∈ q.members ↔ m ∈ p.members ∨ m = ⟨t, none⟩ := by
    rw [members, List.mem_append, List.mem_singleton]
  constructor
  · intro m member
    rcases (member_iff m).1 member with old | rfl
    · exact sound.here m old
    · exact here
  · intro m member
    rcases (member_iff m).1 member with old | rfl
    · exact Nat.le_trans (sound.bounded m old) lastId
    · exact bounded
  · intro current same
    rw [now] at same
    cases same
    rw [live_joined members, if_pos rfl]
    exact ⟨rfl, Nat.le_add_left 1 _⟩
  · intro current same
    rw [now] at same
    cases same
    rwa [brokenOff_joined members]
  · intro m member holds gone
    rw [holds_some now, decide_eq_false_iff_not] at gone
    rw [brokenOff_joined members]
    rcases (member_iff m).1 member with old | rfl
    · exact sound.abandoned m old holds (ended m old (Ne.symm gone))
    · exact (gone rfl).elim

private theorem Sound.unused (sound : Sound i p) {id : Nat} (new : (p.coordinator i).lastId < id) :
    p.live id = 0 ∧ ¬ p.BrokenOff id := by
  have unknown : ∀ m ∈ p.members, m.transaction.id ≠ id := by
    intro m member same
    have bounded := sound.bounded m member
    omega
  refine ⟨List.countP_eq_zero.2 fun m member holder => ?_, fun ⟨m, member, same, _⟩ => ?_⟩
  · simp only [holdsOpen, Bool.and_eq_true, beq_iff_eq] at holder
    exact unknown m member holder.1
  · exact unknown m member same

/-- Nothing has become of the transaction when a begin is refused. -/
theorem Sound.refused (sound : Sound i p) (coordinator : q.coordinator i = p.coordinator i)
    (members : q.members = p.members) : Sound i q := by
  have broken : q.BrokenOff = p.BrokenOff := by
    funext id
    rw [BrokenOff, members, BrokenOff]
  have live : q.live = p.live := by
    funext id
    rw [Party.live, members, Party.live]
  constructor
  · rw [members]
    exact sound.here
  · rw [members, coordinator]
    exact sound.bounded
  · rw [coordinator, live]
    exact sound.depth
  · rw [coordinator, broken]
    exact sound.unbroken
  · rw [members, coordinator, broken]
    exact sound.abandoned

section

variable {who : Nat} {t : Transaction} {how : Leaving} (takes : p.Takes who t)
  (members : q.members = p.members.set who ⟨t, some how⟩)

include takes members

/-- Whoever leaves a transaction that had ended is not missed. -/
theorem Sound.left_ended (sound : Sound i p) (ended : (p.coordinator i).holds t.id = false)
    (coordinator : q.coordinator i = p.coordinator i) : Sound i q := by
  refine sound.left takes members (by rw [coordinator]) ?_ ?_ ?_
  · rw [coordinator]
    intro active found
    obtain ⟨depth, positive⟩ := sound.depth active found
    rw [holds_some found, decide_eq_false_iff_not] at ended
    have counted := live_left takes members active.id
    rw [if_neg (Ne.symm ended)] at counted
    omega
  · rw [coordinator]
    intro active found
    rw [holds_some found, decide_eq_false_iff_not] at ended
    rw [brokenOff_left takes members]
    rintro (broken | ⟨same, _⟩)
    · exact sound.unbroken active found broken
    · exact ended same.symm
  · rw [coordinator]
    intro m _ _ ended held
    rw [ended] at held
    cases held

/-- When one of several commits, one less holds the transaction. -/
theorem Sound.left_pending (sound : Sound i p) {depth : Nat} (commits : how = .commit)
    (found : (p.coordinator i).active? = some ⟨t.id, depth⟩) (others : 1 < depth)
    (coordinator : q.coordinator i =
      { p.coordinator i with active? := some ⟨t.id, depth - 1⟩ }) : Sound i q := by
  have now : (q.coordinator i).active? = some ⟨t.id, depth - 1⟩ := by
    rw [coordinator]
  obtain ⟨counted, _⟩ := sound.depth _ found
  refine sound.left takes members (by rw [coordinator]) ?_ ?_ ?_
  · intro active same
    rw [now] at same
    cases same
    have fewer := live_left takes members t.id
    rw [if_pos rfl] at fewer
    dsimp only at counted ⊢
    omega
  · intro active same
    rw [now] at same
    cases same
    rw [brokenOff_left takes members]
    rintro (broken | ⟨_, noCommit⟩)
    · exact sound.unbroken _ found broken
    · exact noCommit commits
  · intro m _ _ ended held
    rw [holds_some now] at ended
    rw [holds_some found] at held
    rw [held] at ended
    cases ended

private theorem Sound.left_ending (sound : Sound i p) {call : Bool → Event}
    (ends : Storage.EndsBy i call p.state q.state)
    (abandoned : ∀ m ∈ q.members, m.left? = none →
      (p.coordinator i).holds m.transaction.id = true → q.BrokenOff m.transaction.id) :
    Sound i q := by
  have now : (q.coordinator i).active? = none := by
    rw [Party.coordinator, ends.coordinator]
  refine sound.left takes members ?_ ?_ ?_ fun m member holds _ => abandoned m member holds
  · rw [Party.coordinator, ends.coordinator]
    rfl
  all_goals
    intro active same
    rw [now] at same
    cases same

private theorem Sound.nobody_left (sound : Sound i p) {depth : Nat}
    (found : (p.coordinator i).active? = some ⟨t.id, depth⟩) (last : depth ≤ 1) :
    ∀ m ∈ q.members, m.left? = none → m.transaction.id ≠ t.id := by
  intro m member holds same
  obtain ⟨counted, _⟩ := sound.depth _ found
  have fewer := live_left takes members t.id
  rw [if_pos rfl] at fewer
  have nobody : q.live t.id = 0 := by
    dsimp only at counted
    omega
  have holder := List.countP_eq_zero.1 nobody m member
  simp [holdsOpen, same, holds] at holder

end

private theorem sound_move {m : Move} {reply : Reply} (effect : Effect i p q m reply)
    (sound : Sound i p) : Sound i q := by
  cases effect with
  | joined active found coordinator members calls =>
      obtain ⟨depth, positive⟩ := sound.depth active found
      have last : (q.coordinator i).lastId = (p.coordinator i).lastId := by rw [coordinator]
      refine sound.joined rfl members ?_ (Nat.le_of_eq last.symm) ?_ (sound.unbroken active found) ?_
      · rw [coordinator, depth]
      · rw [last]
        exact sound.open_bounded found
      · intro m _ other
        rw [holds_some found, decide_eq_false_iff_not]
        exact Ne.symm other
  | opened idle coordinator members calls =>
      obtain ⟨nobody, unbroken⟩ := sound.unused (Nat.lt_succ_self (p.coordinator i).lastId)
      have last : (q.coordinator i).lastId = (p.coordinator i).lastId + 1 := by rw [coordinator]
      have given : (p.coordinator i).lastId + 1 ≤ (q.coordinator i).lastId :=
        Nat.le_of_eq last.symm
      refine sound.joined rfl members ?_ (Nat.le_of_succ_le given) given unbroken
        fun m _ _ => holds_none idle _
      rw [coordinator, nobody]
  | refused e idle coordinator members calls => exact sound.refused coordinator members
  | gone who how absent same => exact same ▸ sound
  | stale who how t reply takes ended state members calls told =>
      refine sound.left_ended takes members ended ?_
      rw [Party.coordinator, state]
      rfl
  | pending who depth t takes found others coordinator members calls =>
      exact sound.left_pending takes members rfl found others coordinator
  | committed who depth t reply takes found last members ends =>
      refine sound.left_ending takes members ends fun m member holds held => ?_
      rw [holds_some found, decide_eq_true_iff] at held
      exact absurd held.symm (sound.nobody_left takes members found last m member holds)
  | rolledBack who how t reply takes noCommit held members ends =>
      obtain ⟨depth, found⟩ := open_of_holds held
      refine sound.left_ending takes members ends fun m _ _ held => ?_
      rw [holds_some found, decide_eq_true_iff] at held
      exact (brokenOff_left takes members _).2 (.inr ⟨held, noCommit⟩)

end

/-! ### Who ends the physical transaction -/

/-- What a move does to the physical transaction, told by who took part and how they left. The last holder
that commits after all the others commits it, the first that leaves otherwise rolls it back, and either
call ends it, even if it fails. -/
structure Lawful (env : Setting σ) (i : StorageId) (p : Party σ ε) (m : Move) : Prop where
  single : ∃ made, (p.move env i m).2.state.calls = p.state.calls ++ made ∧ made.length ≤ 1
  commit_iff : (∃ succeeded, (p.move env i m).2.state.calls =
      p.state.calls ++ [.commit i succeeded]) ↔
    ∃ who t, m = .leave who .commit ∧ p.Takes who t ∧ p.OthersCommitted who t.id
  rollback_iff : (∃ succeeded, (p.move env i m).2.state.calls =
      p.state.calls ++ [.rollback i succeeded]) ↔
    ∃ who how t, m = .leave who how ∧ how ≠ .commit ∧ p.Takes who t ∧ ¬ p.BrokenOff t.id
  ends : (∃ succeeded, (p.move env i m).2.state.calls = p.state.calls ++ [.commit i succeeded] ∨
      (p.move env i m).2.state.calls = p.state.calls ++ [.rollback i succeeded]) →
    ((p.move env i m).2.coordinator i).active? = none
  late : ∀ who how t, m = .leave who how → p.Takes who t → p.BrokenOff t.id →
    (p.move env i m).2.state.calls = p.state.calls ∧
      (p.move env i m).2.state =
        { p.state with trail := (p.move env i m).2.state.trail } ∧
      (how ≠ .drop → (p.move env i m).1 = .left (.ok .alreadyEnded))
  begins : ∀ t, m = .begin → (p.move env i m).1 = .joined t →
    (∃ depth, (p.coordinator i).active? = some ⟨t.id, depth⟩) ∧
        (p.move env i m).2.state.calls = p.state.calls ∨
      (p.coordinator i).active? = none ∧
        (p.move env i m).2.state.calls = p.state.calls ++ [.begin i true] ∧
        ∀ other ∈ p.members, other.transaction.id ≠ t.id

section

variable {env : Setting σ} {i : StorageId} {p : Party σ ε}

theorem Sound.broken_iff (sound : Sound i p) {who : Nat} {t : Transaction}
    (takes : p.Takes who t) : p.BrokenOff t.id ↔ (p.coordinator i).holds t.id = false := by
  constructor
  · intro broken
    cases held : (p.coordinator i).holds t.id with
    | false => rfl
    | true =>
        obtain ⟨depth, found⟩ := open_of_holds held
        exact (sound.unbroken _ found broken).elim
  · exact sound.abandoned _ (List.mem_of_getElem? takes) rfl

/-- One holder is left exactly when all the others have committed and none has broken off. -/
theorem Sound.others_committed_iff (sound : Sound i p) {who depth : Nat} {t : Transaction}
    (takes : p.Takes who t) (found : (p.coordinator i).active? = some ⟨t.id, depth⟩) :
    p.OthersCommitted who t.id ↔ depth ≤ 1 := by
  obtain ⟨counted, positive⟩ := sound.depth _ found
  let q : Party σ ε := ⟨p.state, p.members.set who ⟨t, some .commit⟩⟩
  have fewer := live_left (q := q) takes rfl t.id
  rw [if_pos rfl] at fewer
  dsimp only at counted
  have nobody : depth ≤ 1 ↔ q.live t.id = 0 := by omega
  rw [nobody, live, List.countP_eq_zero]
  constructor
  · intro committed m member holder
    simp only [holdsOpen, Bool.and_eq_true, beq_iff_eq, Option.isNone_iff_eq_none] at holder
    rcases (mem_left (q := q) takes rfl m).1 member with rfl | ⟨other, different, present⟩
    · cases holder.2
    · have left := committed other m present holder.1 different
      rw [holder.2] at left
      cases left
  · intro left other m present same different
    have member := (mem_left (q := q) takes rfl m).2 (.inr ⟨other, different, present⟩)
    have holder := left m member
    cases how : m.left? with
    | none => simp [holdsOpen, same, how] at holder
    | some leaving =>
        cases leaving with
        | commit => rfl
        | rollback =>
            exact (sound.unbroken _ found
              ⟨m, List.mem_of_getElem? present, same, .inl how⟩).elim
        | drop =>
            exact (sound.unbroken _ found
              ⟨m, List.mem_of_getElem? present, same, .inr how⟩).elim

private theorem OthersCommitted.not_broken {who : Nat} {t : Transaction} (takes : p.Takes who t)
    (committed : p.OthersCommitted who t.id) : ¬ p.BrokenOff t.id := by
  rintro ⟨m, member, same, broke⟩
  obtain ⟨other, present⟩ := List.mem_iff_getElem?.1 member
  have different : other ≠ who := by
    rintro rfl
    rw [takes] at present
    cases present
    rcases broke with broke | broke <;> cases broke
  have left := committed other m present same different
  rw [left] at broke
  rcases broke with broke | broke <;> cases broke

private theorem Takes.unique {who : Nat} {t u : Transaction} (one : p.Takes who t)
    (two : p.Takes who u) : u = t := by
  rw [Takes] at one two
  rw [one] at two
  cases two
  rfl

/-- What a party is told about the open transaction: its depth counts the holders, and a holder's
transaction is open as long as nobody has broken it off. -/
structure Counted (i : StorageId) (p : Party σ ε) : Prop where
  depth : ∀ active, (p.coordinator i).active? = some active →
    active.depth = p.live active.id ∧ 1 ≤ active.depth
  held_iff : ∀ who t, p.Takes who t →
    ((p.coordinator i).holds t.id = true ↔ ¬ p.BrokenOff t.id)

theorem Sound.counted (sound : Sound i p) : Counted i p := by
  refine ⟨sound.depth, fun who t takes => ?_⟩
  rw [sound.broken_iff takes, Bool.not_eq_false]

/-- A move that makes no call to end a transaction is lawful if no rule asks for one. -/
theorem Lawful.of_made {m : Move} (made : List Event)
    (calls : (p.move env i m).2.state.calls = p.state.calls ++ made) (single : made.length ≤ 1)
    (commit_iff : (∃ succeeded, made = [.commit i succeeded]) ↔
      ∃ who t, m = .leave who .commit ∧ p.Takes who t ∧ p.OthersCommitted who t.id)
    (rollback_iff : (∃ succeeded, made = [.rollback i succeeded]) ↔
      ∃ who how t, m = .leave who how ∧ how ≠ .commit ∧ p.Takes who t ∧ ¬ p.BrokenOff t.id)
    (ends : (∃ succeeded, made = [.commit i succeeded] ∨ made = [.rollback i succeeded]) →
      ((p.move env i m).2.coordinator i).active? = none)
    (late : ∀ who how t, m = .leave who how → p.Takes who t → p.BrokenOff t.id →
      made = [] ∧
        (p.move env i m).2.state =
          { p.state with trail := (p.move env i m).2.state.trail } ∧
        (how ≠ .drop → (p.move env i m).1 = .left (.ok .alreadyEnded)))
    (begins : ∀ t, m = .begin → (p.move env i m).1 = .joined t →
      (∃ depth, (p.coordinator i).active? = some ⟨t.id, depth⟩) ∧ made = [] ∨
        (p.coordinator i).active? = none ∧ made = [.begin i true] ∧
          ∀ other ∈ p.members, other.transaction.id ≠ t.id) :
    Lawful env i p m := by
  have same : ∀ other, (p.move env i m).2.state.calls = p.state.calls ++ other ↔ made = other := by
    intro other
    rw [calls]
    exact List.append_right_inj p.state.calls
  have none : (p.move env i m).2.state.calls = p.state.calls ↔ made = [] := by
    rw [← same, List.append_nil]
  refine ⟨⟨made, calls, single⟩, ?_, ?_, ?_, ?_, ?_⟩
  · simpa only [same] using commit_iff
  · simpa only [same] using rollback_iff
  · simpa only [same] using ends
  · simpa only [none] using late
  · simpa only [same, none] using begins

private theorem Lawful.of_begin (made : List Event)
    (calls : (p.move env i .begin).2.state.calls = p.state.calls ++ made)
    (only : made = [] ∨ ∃ succeeded, made = [.begin i succeeded])
    (begins : ∀ t, (p.move env i .begin).1 = .joined t →
      (∃ depth, (p.coordinator i).active? = some ⟨t.id, depth⟩) ∧ made = [] ∨
        (p.coordinator i).active? = none ∧ made = [.begin i true] ∧
          ∀ other ∈ p.members, other.transaction.id ≠ t.id) :
    Lawful env i p .begin := by
  refine .of_made made calls ?_ ?_ ?_ ?_ (by simp) fun t _ => begins t
  all_goals rcases only with rfl | ⟨succeeded, rfl⟩ <;> simp

/-- What the rules ask for when the participant of a transaction leaves. -/
theorem Lawful.of_leave {who : Nat} {how : Leaving} {t : Transaction} (takes : p.Takes who t)
    (made : List Event)
    (calls : (p.move env i (.leave who how)).2.state.calls = p.state.calls ++ made)
    (single : made.length ≤ 1)
    (commit_iff : (∃ succeeded, made = [.commit i succeeded]) ↔
      how = .commit ∧ p.OthersCommitted who t.id)
    (rollback_iff : (∃ succeeded, made = [.rollback i succeeded]) ↔
      how ≠ .commit ∧ ¬ p.BrokenOff t.id)
    (ends : (∃ succeeded, made = [.commit i succeeded] ∨ made = [.rollback i succeeded]) →
      ((p.move env i (.leave who how)).2.coordinator i).active? = none)
    (late : p.BrokenOff t.id → made = [] ∧
      (p.move env i (.leave who how)).2.state =
        { p.state with trail := (p.move env i (.leave who how)).2.state.trail } ∧
      (how ≠ .drop → (p.move env i (.leave who how)).1 = .left (.ok .alreadyEnded))) :
    Lawful env i p (.leave who how) := by
  refine .of_made made calls single ?_ ?_ ends ?_ (by simp)
  · rw [commit_iff]
    constructor
    · rintro ⟨rfl, committed⟩
      exact ⟨who, t, rfl, takes, committed⟩
    · rintro ⟨_, u, leaves, one, committed⟩
      cases leaves
      exact ⟨rfl, takes.unique one ▸ committed⟩
  · rw [rollback_iff]
    constructor
    · rintro ⟨noCommit, unbroken⟩
      exact ⟨who, how, t, rfl, noCommit, takes, unbroken⟩
    · rintro ⟨_, _, u, leaves, noCommit, one, unbroken⟩
      cases leaves
      exact ⟨noCommit, takes.unique one ▸ unbroken⟩
  · rintro _ _ u leaves one broken
    cases leaves
    exact late (takes.unique one ▸ broken)

/-- Nothing is asked for when nobody leaves. -/
theorem Lawful.of_gone {who : Nat} {how : Leaving} (absent : ∀ t, ¬ p.Takes who t)
    (calls : (p.move env i (.leave who how)).2.state.calls = p.state.calls) :
    Lawful env i p (.leave who how) := by
  refine .of_made [] (by rw [calls, List.append_nil]) (by simp) ?_ ?_ (by simp) ?_ (by simp)
  · refine iff_of_false (by simp) ?_
    rintro ⟨_, t, leaves, takes, _⟩
    cases leaves
    exact absent t takes
  · refine iff_of_false (by simp) ?_
    rintro ⟨_, _, t, leaves, _, takes, _⟩
    cases leaves
    exact absent t takes
  · rintro _ _ t leaves takes
    cases leaves
    exact (absent t takes).elim

private theorem lawful_of_effect (sound : Sound i p) {m : Move}
    (effect : Effect i p (p.move env i m).2 m (p.move env i m).1) : Lawful env i p m := by
  generalize reply : (p.move env i m).1 = told at effect
  generalize after : (p.move env i m).2 = q at effect
  have calls_of : ∀ made, q.state.calls = p.state.calls ++ made →
      (p.move env i m).2.state.calls = p.state.calls ++ made := fun made calls => after ▸ calls
  cases effect with
  | joined active found coordinator members calls =>
      refine .of_begin [] (calls_of _ (by rw [calls, List.append_nil])) (.inl rfl) fun t joined => ?_
      rw [reply] at joined
      cases joined
      exact .inl ⟨⟨active.depth, found⟩, rfl⟩
  | opened idle coordinator members calls =>
      refine .of_begin _ (calls_of _ calls) (.inr ⟨true, rfl⟩) fun t joined => ?_
      rw [reply] at joined
      cases joined
      refine .inr ⟨idle, rfl, fun other member same => ?_⟩
      have bounded := sound.bounded other member
      dsimp only at same
      omega
  | refused e idle coordinator members calls =>
      refine .of_begin _ (calls_of _ calls) (.inr ⟨false, rfl⟩) fun t joined => ?_
      rw [reply] at joined
      cases joined
  | gone who how absent same =>
      refine .of_gone absent ?_
      rw [after, same]
  | stale who how t _ takes ended state members calls told =>
      have broken := (sound.broken_iff takes).2 ended
      refine .of_leave takes [] (calls_of _ (by rw [calls, List.append_nil])) (by simp)
        ?_ ?_ (by simp) fun _ => ?_
      · exact iff_of_false (by simp) fun ⟨_, committed⟩ => committed.not_broken takes broken
      · exact iff_of_false (by simp) fun ⟨_, unbroken⟩ => unbroken broken
      · rw [after, reply]
        exact ⟨rfl, state, told⟩
  | pending who depth t takes found others coordinator members calls =>
      refine .of_leave takes [] (calls_of _ (by rw [calls, List.append_nil])) (by simp)
        ?_ ?_ (by simp) fun broken => (sound.unbroken _ found broken).elim
      · refine iff_of_false (by simp) fun ⟨_, committed⟩ => ?_
        exact Nat.not_le.2 others ((sound.others_committed_iff takes found).1 committed)
      · exact iff_of_false (by simp) fun ⟨noCommit, _⟩ => noCommit rfl
  | committed who depth t _ takes found last members ends =>
      obtain ⟨coordinator, succeeded, calls⟩ := ends
      refine .of_leave takes _ (calls_of _ calls) (by simp) ?_ ?_ (fun _ => ?_)
        fun broken => (sound.unbroken _ found broken).elim
      · exact iff_of_true ⟨succeeded, rfl⟩
          ⟨rfl, (sound.others_committed_iff takes found).2 last⟩
      · exact iff_of_false (by simp) fun ⟨noCommit, _⟩ => noCommit rfl
      · rw [after, Party.coordinator, coordinator]
  | rolledBack who how t _ takes noCommit held members ends =>
      have unbroken := (sound.counted.held_iff who t takes).1 held
      obtain ⟨coordinator, succeeded, calls⟩ := ends
      refine .of_leave takes _ (calls_of _ calls) (by simp) ?_ ?_ (fun _ => ?_)
        fun broken => (unbroken broken).elim
      · exact iff_of_false (by simp) fun ⟨commit, _⟩ => noCommit commit
      · exact iff_of_true ⟨succeeded, rfl⟩ ⟨noCommit, unbroken⟩
      · rw [after, Party.coordinator, coordinator]

end

private theorem sound_run (s : State σ ε) (idle : (s.coordinator i).active? = none)
    (moves : List Move) :
    Sound i (run env i s moves) := by
  induction moves using List.reverseRecOn with
  | nil => exact sound_start s idle
  | append_singleton before m ih =>
      rw [run, List.foldl_append]
      exact sound_move (move_effect env i _ ih.here m) ih

/-- In every run, with any answers of the database, the physical transaction is committed exactly
when its last holder commits after all others have, and rolled back exactly when the first breaks it
off; whoever comes later changes nothing, and no id comes twice. -/
theorem commits_exactly_when_all_commit (s : State σ ε)
    (idle : (s.coordinator i).active? = none) (moves : List Move) :
    Counted i (run env i s moves) ∧ ∀ m, Lawful env i (run env i s moves) m := by
  have sound := sound_run env i s idle moves
  exact ⟨sound.counted, fun m => lawful_of_effect sound (move_effect env i _ sound.here m)⟩

def scripted : Setting Scripts where
  schema := ⟨fun _ => Catalog.unknownModel⟩
  provider := fun i => Scripts.provider i "main" .sqlite
  log := fun _ => {}
  now := SqlType.firstDay.atMidnight

/-- Of two participants the one that commits last commits for both, also when the first began. -/
theorem outer_commit_after_inner :
    (({ outside := {} } : State Scripts Record).coordinator 0).active? = none ∧
      Lawful scripted 0 (run scripted 0 ({ outside := {} } : State Scripts Record)
        [.begin, .begin, .leave 1 .commit]) (.leave 0 .commit) :=
  ⟨rfl, (commits_exactly_when_all_commit scripted 0 _ rfl _).2 _⟩

example : (run scripted 0 ({ outside := {} } : State Scripts Record)
    [.begin, .begin, .leave 1 .commit, .leave 0 .commit]).state.calls =
      [.begin 0 true, .commit 0 true] :=
  rfl

end Party

end EntityStore
