/-!
Small maps kept as lists of pairs. A key stands at most once, at the place where it was first put.
-/

namespace EntityStore.Assoc

variable {κ α : Type} [BEq κ]

def put (key : κ) (value : α) : List (κ × α) → List (κ × α)
  | [] => [(key, value)]
  | (k, v) :: rest => if k == key then (k, value) :: rest else (k, v) :: put key value rest

/-- A key that was set is found with its value, and every other key as before. -/
theorem lookup_put {κ α : Type} [BEq κ] [LawfulBEq κ] (key other : κ) (value : α)
    (l : List (κ × α)) :
    (put key value l).lookup other = if other == key then some value else l.lookup other := by
  induction l with
  | nil => by_cases e : other = key <;> simp [put, e, beq_eq_false_iff_ne.2]
  | cons head rest ih =>
    obtain ⟨k, v⟩ := head
    by_cases h : k = key
    · subst h
      by_cases e : other = k
      · simp [put, e]
      · have e' : (other == k) = false := beq_eq_false_iff_ne.2 e
        simp [put, List.lookup_cons, e']
    · by_cases e : other = k
      · subst e
        simp [put, h]
      · have e' : (other == k) = false := beq_eq_false_iff_ne.2 e
        simp [put, List.lookup_cons, h, e', ih]

theorem lookup_without {κ α : Type} [BEq κ] [LawfulBEq κ] {key other : κ} (l : List (κ × α))
    (apart : other ≠ key) :
    (l.filter fun (k, _) => k != key).lookup other = l.lookup other := by
  induction l with
  | nil => rfl
  | cons head rest ih =>
    obtain ⟨k, v⟩ := head
    by_cases gone : k = key
    · rw [List.filter_cons_of_neg (by simpa using gone), ih, List.lookup_cons,
        beq_eq_false_iff_ne.2 (gone ▸ apart)]
    · rw [List.filter_cons_of_pos (by simpa using gone), List.lookup_cons, List.lookup_cons, ih]

theorem lookup_removed {κ α : Type} [BEq κ] [LawfulBEq κ] (key : κ) (l : List (κ × α)) :
    (l.filter fun (k, _) => k != key).lookup key = none := by
  rw [List.lookup_eq_none_iff]
  intro entry inside
  have kept : entry.1 ≠ key := bne_iff_ne.1 (List.mem_filter.1 inside).2
  exact bne_iff_ne.2 kept.symm

end EntityStore.Assoc

namespace EntityStore

def setAt {α : Type} (f : Nat → α) (i : Nat) (value : α) : Nat → α :=
  fun j => if j = i then value else f j

@[simp]
theorem setAt_self {α : Type} (f : Nat → α) (i : Nat) (value : α) : setAt f i value i = value := by
  simp [setAt]

theorem setAt_of_ne {α : Type} (f : Nat → α) {i j : Nat} (value : α) (h : j ≠ i) :
    setAt f i value j = f j := by
  simp [setAt, h]

end EntityStore
