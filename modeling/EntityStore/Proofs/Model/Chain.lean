import EntityStore.Model.Entity

/-!
Chains of levels. A level of a chain has the rest of the chain as its own, so the levels above a
model lie in one line: any two of them are levels of one another, and all have the same root.
-/

namespace EntityStore

namespace EntityModel

def line (m : EntityModel) : List Level :=
  m.own :: m.above

private theorem mem_chainFrom {level : EntityModel} (own : Level) (above : List Level) :
    level ∈ chainFrom own above ↔ level.line <:+ own :: above := by
  induction above generalizing own with
  | nil =>
      rw [chainFrom, List.mem_singleton, List.suffix_cons_iff, List.suffix_nil]
      constructor
      · rintro rfl
        exact Or.inl rfl
      · rintro (same | absurd)
        · cases level
          cases same
          rfl
        · cases absurd
  | cons next rest ih =>
      have longer : level.line <:+ own :: next :: rest ↔
          level.line = own :: next :: rest ∨ level.line <:+ next :: rest :=
        List.suffix_cons_iff
      rw [chainFrom, List.mem_cons, ih, longer]
      constructor
      · rintro (rfl | below)
        · exact Or.inl rfl
        · exact Or.inr below
      · rintro (same | below)
        · cases level
          cases same
          exact Or.inl rfl
        · exact Or.inr below

theorem mem_chain {m level : EntityModel} : level ∈ m.chain ↔ level.line <:+ m.line :=
  mem_chainFrom m.own m.above

theorem self_mem_chain (m : EntityModel) : m ∈ m.chain :=
  mem_chain.2 List.suffix_rfl

theorem chain_antisymm {a b : EntityModel} (first : a ∈ b.chain) (second : b ∈ a.chain) :
    a = b := by
  have lines : a.line = b.line :=
    (mem_chain.1 first).eq_of_length_le (mem_chain.1 second).length_le
  cases a
  cases b
  cases lines
  rfl

theorem root_mem_chain (m : EntityModel) : m.root ∈ m.chain := by
  obtain ⟨own, above⟩ := m
  unfold root chain
  dsimp only
  induction above generalizing own with
  | nil => exact List.mem_singleton_self _
  | cons next rest ih =>
      rw [chainFrom, rootFrom]
      exact List.mem_cons_of_mem _ (ih next)

theorem root_of_mem_chain {m level : EntityModel} (member : level ∈ m.chain) :
    level.root = m.root := by
  obtain ⟨own, above⟩ := m
  unfold chain at member
  dsimp only at member
  induction above generalizing own with
  | nil =>
      rw [chainFrom, List.mem_singleton] at member
      rw [member]
  | cons next rest ih =>
      rw [chainFrom, List.mem_cons] at member
      rcases member with rfl | member
      · rfl
      · exact ih next member

theorem chain_eq_cons (m : EntityModel) : ∃ above, m.chain = m :: above := by
  obtain ⟨own, above⟩ := m
  cases above with
  | nil => exact ⟨[], rfl⟩
  | cons next rest => exact ⟨_, rfl⟩

theorem rootFrom_above (own : Level) (above : List Level) : (rootFrom own above).above = [] := by
  induction above generalizing own with
  | nil => rfl
  | cons next rest ih => exact ih next

/-- The root stands at the end of a chain, and nowhere else. -/
theorem chain_eq_append_root (m : EntityModel) :
    ∃ below, m.chain = below ++ [m.root] ∧ m.root ∉ below := by
  obtain ⟨own, above⟩ := m
  unfold root chain
  dsimp only
  induction above generalizing own with
  | nil => exact ⟨[], rfl, List.not_mem_nil⟩
  | cons next rest ih =>
      obtain ⟨below, same, absent⟩ := ih next
      refine ⟨⟨own, next :: rest⟩ :: below, ?_, ?_⟩
      · rw [chainFrom, rootFrom, same]
        rfl
      · intro member
        rw [rootFrom] at member
        rcases List.mem_cons.1 member with first | later
        · have single := rootFrom_above next rest
          rw [first] at single
          cases single
        · exact absent later

theorem isRoot_iff {m level : EntityModel} (member : level ∈ m.chain) :
    level.isRoot = true ↔ level = m.root := by
  constructor
  · intro alone
    rw [← root_of_mem_chain member]
    obtain ⟨own, above⟩ := level
    cases List.isEmpty_iff.1 alone
    rfl
  · rintro rfl
    exact List.isEmpty_iff.2 (rootFrom_above m.own m.above)

theorem levels_eq_cons (m : EntityModel) :
    ∃ below, m.levels = m.root :: below ∧ m.root ∉ below := by
  obtain ⟨below, same, absent⟩ := chain_eq_append_root m
  refine ⟨below.reverse, ?_, by simpa using absent⟩
  rw [levels, same, List.reverse_append]
  rfl

/-- The chain of a level is the rest of the chain that it is a level of. -/
theorem chain_split {m level : EntityModel} (member : level ∈ m.chain) :
    ∃ below, m.chain = below ++ level.chain := by
  obtain ⟨own, above⟩ := m
  unfold chain at member
  dsimp only at member
  induction above generalizing own with
  | nil =>
      rw [chainFrom, List.mem_singleton] at member
      exact ⟨[], by rw [member]; rfl⟩
  | cons next rest ih =>
      rw [chainFrom, List.mem_cons] at member
      rcases member with rfl | member
      · exact ⟨[], rfl⟩
      · obtain ⟨below, same⟩ := ih next member
        exact ⟨⟨own, next :: rest⟩ :: below, congrArg (List.cons _) same⟩

theorem levels_split {m level : EntityModel} (member : level ∈ m.chain) :
    ∃ below, m.levels = level.chain.tail.reverse ++ level :: below := by
  obtain ⟨below, same⟩ := chain_split member
  obtain ⟨above, own⟩ := chain_eq_cons level
  refine ⟨below.reverse, ?_⟩
  rw [levels, same, List.reverse_append, own, List.reverse_cons, List.append_assoc]
  rfl

theorem mem_levels {m level : EntityModel} : level ∈ m.levels ↔ level ∈ m.chain :=
  List.mem_reverse

theorem descendsFrom_of_mem_chain {m ancestor : EntityModel} (member : ancestor ∈ m.chain) :
    m.descendsFrom ancestor = true :=
  List.any_eq_true.2 ⟨ancestor, mem_levels.2 member, beq_self_eq_true ancestor.path⟩

theorem exists_of_descendsFrom {m ancestor : EntityModel} (descends : m.descendsFrom ancestor = true) :
    ∃ level ∈ m.chain, level.path = ancestor.path := by
  obtain ⟨level, member, same⟩ := List.any_eq_true.1 descends
  exact ⟨level, mem_levels.1 member, eq_of_beq same⟩

end EntityModel

end EntityStore
