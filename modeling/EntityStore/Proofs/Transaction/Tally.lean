import EntityStore.Proofs.Transaction.UnitOfWork

/-!
Joining the work of others. Where the coordinator of a storage counts those who take part, and has
given away all their ids, steps of any kind leave it so; and whoever begins there is inside of the
open transaction, whether it was opened just then or joined.
-/

namespace EntityStore

variable {σ ε : Type} {env : Setting σ} {i : StorageId} {g h : Stage σ ε}

/-- Steps only add to what a storage has seen. -/
theorem Seen.grows (seen : Seen i g h) :
    ∃ made, h.state.dealings i = g.state.dealings i ++ made := by
  have quiet (dealings : h.state.dealings i = g.state.dealings i) :
      ∃ made, h.state.dealings i = g.state.dealings i ++ made :=
    ⟨[], by rw [dealings, List.append_nil]⟩
  cases seen with
  | still held coordinator dealings => exact quiet dealings
  | statement e statement held coordinator dealings => exact ⟨_, dealings⟩
  | joined active found held coordinator dealings => exact quiet dealings
  | opened idle held coordinator dealings => exact ⟨_, dealings⟩
  | refused idle held coordinator dealings => exact ⟨_, dealings⟩
  | stale t held past coordinator dealings => exact quiet dealings
  | pending t depth held found others coordinator dealings => exact quiet dealings
  | committed t depth succeeded held found last coordinator dealings => exact ⟨_, dealings⟩
  | rolledBack t succeeded held taking coordinator dealings => exact ⟨_, dealings⟩

theorem Steps.grows (steps : Steps env i g h) :
    ∃ made, h.state.dealings i = g.state.dealings i ++ made := by
  induction steps with
  | refl => exact ⟨[], by rw [List.append_nil]⟩
  | tail _ step ih =>
      obtain ⟨made, dealings⟩ := ih
      obtain ⟨more, added⟩ := step.seen.grows
      exact ⟨made ++ more, by rw [added, dealings, List.append_assoc]⟩

/-- As many take part in the open transaction as its depth says, and no id is yet to be given. -/
structure Tallied (i : StorageId) (g : Stage σ ε) : Prop where
  counted (active : ActiveTransaction) (found : (g.state.coordinator i).active? = some active) :
    active.depth = holders active.id g.held ∧ active.id ≤ (g.state.coordinator i).lastId
  known (t : Transaction) (member : t ∈ g.held) : t.id ≤ (g.state.coordinator i).lastId

theorem Tallied.holders_new (tallied : Tallied i g) :
    holders ((g.state.coordinator i).lastId + 1) g.held = 0 := by
  rw [holders, Multiset.countP_eq_zero]
  intro t member same
  have := tallied.known t member
  omega

private theorem Tallied.known_begun (tallied : Tallied i g) {t : Transaction}
    (held : h.held = t ::ₘ g.held)
    (given : t.id ≤ (h.state.coordinator i).lastId)
    (grown : (g.state.coordinator i).lastId ≤ (h.state.coordinator i).lastId) :
    ∀ u ∈ h.held, u.id ≤ (h.state.coordinator i).lastId := by
  intro u member
  rw [held] at member
  rcases Multiset.mem_cons.1 member with rfl | member
  · exact given
  · exact (tallied.known u member).trans grown

theorem Tallied.known_left (tallied : Tallied i g) {t : Transaction} (held : g.held = t ::ₘ h.held)
    (last : (h.state.coordinator i).lastId = (g.state.coordinator i).lastId) :
    ∀ u ∈ h.held, u.id ≤ (h.state.coordinator i).lastId := by
  intro u member
  rw [last]
  exact tallied.known u (held ▸ Multiset.mem_cons_of_mem member)

private theorem Tallied.ended (tallied : Tallied i g) {t : Transaction} (held : g.held = t ::ₘ h.held)
    (coordinator : h.state.coordinator i = { g.state.coordinator i with active? := none }) :
    Tallied i h where
  counted active found := by
    rw [coordinator] at found
    cases found
  known := tallied.known_left held (by rw [coordinator])

private theorem Seen.tallied (seen : Seen i g h) (tallied : Tallied i g) : Tallied i h := by
  have same (held : h.held = g.held)
      (coordinator : h.state.coordinator i = g.state.coordinator i) : Tallied i h :=
    ⟨by rw [coordinator, held]; exact tallied.counted,
      by rw [coordinator, held]; exact tallied.known⟩
  cases seen with
  | still held coordinator dealings => exact same held coordinator
  | statement e statement held coordinator dealings => exact same held coordinator
  | joined active found held coordinator dealings =>
      obtain ⟨depth, given⟩ := tallied.counted active found
      have last : (h.state.coordinator i).lastId = (g.state.coordinator i).lastId := by
        rw [coordinator]
      refine ⟨fun other taken => ?_, tallied.known_begun held (given.trans last.ge) last.ge⟩
      rw [coordinator] at taken ⊢
      cases taken
      refine ⟨?_, given⟩
      rw [held, holders_cons_same]
      · exact congrArg Nat.succ depth
      · rfl
  | opened idle held coordinator dealings =>
      have last : (h.state.coordinator i).lastId = (g.state.coordinator i).lastId + 1 :=
        congrArg Coordinator.lastId coordinator
      refine ⟨fun other taken => ?_,
        tallied.known_begun held last.ge ((Nat.le_succ _).trans last.ge)⟩
      rw [coordinator] at taken ⊢
      cases taken
      refine ⟨?_, Nat.le_refl _⟩
      rw [held, holders_cons_same]
      · exact congrArg Nat.succ tallied.holders_new.symm
      · rfl
  | refused idle held coordinator dealings => exact same held coordinator
  | stale t held past coordinator dealings =>
      refine ⟨fun active found => ?_, tallied.known_left held (by rw [coordinator])⟩
      rw [coordinator] at found ⊢
      have apart : t.id ≠ active.id := by
        rw [Party.holds_some found, decide_eq_false_iff_not] at past
        exact Ne.symm past
      rw [← holders_cons_other apart h.held, ← held]
      exact tallied.counted active found
  | pending t depth held found others coordinator dealings =>
      obtain ⟨counted, given⟩ := tallied.counted _ found
      refine ⟨fun active taken => ?_, tallied.known_left held (by rw [coordinator])⟩
      rw [coordinator] at taken ⊢
      cases taken
      rw [held, holders_cons_same rfl] at counted
      refine ⟨?_, given⟩
      dsimp only at counted ⊢
      omega
  | committed t depth succeeded held found last coordinator dealings =>
      exact tallied.ended held coordinator
  | rolledBack t succeeded held taking coordinator dealings => exact tallied.ended held coordinator

theorem Steps.tallied (steps : Steps env i g h) (tallied : Tallied i g) : Tallied i h := by
  induction steps with
  | refl => exact tallied
  | tail _ step ih => exact step.seen.tallied ih

/-- Whoever begins is inside of the open transaction, one more than those who are held. -/
theorem Storage.inside_joined {s opened : State σ ε} {t : Transaction}
    {held : Multiset Transaction} (tallied : Tallied i ⟨s, held⟩)
    (begun : (Storage.begin env i : Attempt σ ε _).run.run s = (.ok t, opened)) :
    Inside i t.id ⟨opened, held⟩ := by
  cases Party.effect_begun begun with
  | joined active found coordinator members calls =>
      obtain ⟨depth, given⟩ := tallied.counted active found
      refine ⟨?_, ?_⟩
      · exact (congrArg Coordinator.active? coordinator).trans (by rw [depth])
      · exact Nat.le_trans given (Nat.le_of_eq (congrArg Coordinator.lastId coordinator).symm)
  | opened idle coordinator members calls =>
      refine ⟨?_, ?_⟩
      · refine (congrArg Coordinator.active? coordinator).trans ?_
        exact congrArg (fun n => some (ActiveTransaction.mk _ (n + 1)))
          tallied.holders_new.symm
      · exact Nat.le_of_eq (congrArg Coordinator.lastId coordinator).symm

end EntityStore
