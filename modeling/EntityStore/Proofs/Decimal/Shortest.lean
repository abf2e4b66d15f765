import Mathlib.Data.Nat.Cast.Order.Field
import EntityStore.Decimal.Notation
import EntityStore.Proofs.Decimal.Rounding

/-!
The shortest decimal of a double rounds to it. Every point that a grid offers lies in the interval of
the double, and a grid with seventeen significant digits is so fine that it offers one.
-/

namespace EntityStore.Decimal

variable {b : Binary}

/-! ### The first digit -/

private theorem pow_digitCount_le (steps : Nat) {n : Nat} (positive : 0 < n) :
    10 ^ digitCount steps n ≤ 10 * n := by
  induction steps generalizing n with
  | zero =>
      rw [digitCount, Nat.pow_zero]
      omega
  | succ steps ih =>
      rw [digitCount, if_neg (Nat.ne_of_gt positive), Nat.pow_succ]
      rcases Nat.eq_zero_or_pos (n / 10) with last | more
      · have none : digitCount steps 0 = 0 := by
          cases steps <;> rfl
        rw [last, none]
        omega
      · have rest := ih more
        have split := Nat.div_mul_le_self n 10
        omega

theorem pow_leading_of_count (steps : Nat) {n : Nat} (positive : 0 < n) {value : ℚ}
    (le : (n : ℚ) ≤ value) : (10 : ℚ) ^ ((digitCount steps n : Int) - 1) ≤ value := by
  have counted : ((10 ^ digitCount steps n : Nat) : ℚ) ≤ ((10 * n : Nat) : ℚ) :=
    Nat.cast_le.2 (pow_digitCount_le steps positive)
  push_cast at counted
  rw [zpow_sub_one₀ (by norm_num), zpow_natCast]
  linarith

private theorem two_pow_le_ten_pow {n m : Nat} (le : n ≤ 3 * m) : 2 ^ n ≤ 10 ^ m :=
  calc 2 ^ n ≤ 2 ^ (3 * m) := Nat.pow_le_pow_right (by norm_num) le
    _ = 8 ^ m := Nat.pow_mul 2 3 m
    _ ≤ 10 ^ m := Nat.pow_le_pow_left (by norm_num) m

/-- The first digit of a small magnitude is found among those of a great multiple. -/
theorem pow_leading_of_scaled (steps : Nat) {shift middle places : Nat} {e : Int} (same : shift = e)
    (positive : 0 < middle) (small : places ≤ 3 * shift) :
    (10 : ℚ) ^ ((digitCount steps (middle * Nat.pow 10 shift / Nat.pow 2 places) : Int) - 1 - e) ≤
      middle / 2 ^ places := by
  have enough : 2 ^ places ≤ middle * 10 ^ shift :=
    (two_pow_le_ten_pow small).trans (Nat.le_mul_of_pos_left _ positive)
  have whole : 0 < middle * 10 ^ shift / 2 ^ places := Nat.div_pos enough (Nat.pow_pos (by norm_num))
  have quotient : ((middle * 10 ^ shift / 2 ^ places : Nat) : ℚ) ≤ middle / 2 ^ places * 10 ^ shift := by
    have le := Nat.cast_div_le (α := ℚ) (m := middle * 10 ^ shift) (n := 2 ^ places)
    push_cast at le
    rw [div_mul_eq_mul_div]
    exact le
  have unit : (0 : ℚ) < 10 ^ shift := pow_pos (by norm_num) shift
  rw [← same, zpow_sub₀ (by norm_num), zpow_natCast, div_le_iff₀ unit]
  exact pow_leading_of_count steps whole quotient

/-- A positive magnitude is not below the power of ten that is taken for its first digit. -/
theorem pow_leading_le (normal : b.Normal) (positive : 0 < b.mantissa) :
    (10 : ℚ) ^ b.interval.leading ≤ b.value := by
  have middle : 0 < b.interval.middle := Nat.mul_pos (by norm_num) positive
  rw [← interval_middle]
  unfold Interval.leading
  split
  · next whole =>
      have same : ((b.interval.exponent.toNat : Nat) : Int) = b.interval.exponent :=
        Int.toNat_of_nonneg whole
      refine pow_leading_of_count 400 (Nat.mul_pos middle (Nat.pow_pos (by norm_num))) ?_
      rw [← same, zpow_natCast, same]
      show ((b.interval.middle * 2 ^ b.interval.exponent.toNat : Nat) : ℚ) ≤ _
      push_cast
      rfl
  · next below =>
      have value : (b.interval.middle : ℚ) * 2 ^ b.interval.exponent =
          b.interval.middle / 2 ^ (-b.interval.exponent).toNat := by
        have none : b.interval.exponent.toNat = 0 := by omega
        rw [zpow_eq_div, none, pow_zero, mul_one_div]
      rw [value]
      simp only
      split
      · next whole =>
          have quotient := Nat.cast_div_le (α := ℚ) (m := b.interval.middle)
            (n := 2 ^ (-b.interval.exponent).toNat)
          push_cast at quotient
          exact pow_leading_of_count 400 whole quotient
      · -- The least magnitude is far above one in units of `10 ^ (-400)`.
        have places : (-b.interval.exponent).toNat ≤ 3 * 400 := by
          have least := normal.least
          have exponent : b.interval.exponent = b.exponent - 2 := rfl
          omega
        obtain ⟨shift, whole⟩ : ∃ n : Nat, n = 400 := ⟨400, rfl⟩
        have same : (shift : Int) = 400 := by omega
        rw [← whole] at places ⊢
        exact pow_leading_of_scaled 800 same middle places

/-! ### The points of a grid -/

variable {i : Interval} {tie : Tie} {k : Int} {d : Nat}

private theorem candidate_contained (offered : i.candidate? tie k = some d) :
    i.contains d k = true := by
  unfold Interval.candidate? at offered
  simp only [Bool.and_eq_true, decide_eq_true_eq] at offered
  split at offered
  · next both =>
      have below := both.1.1
      have above := both.2
      split at offered
      · cases offered
        exact below
      · split at offered
        · cases offered
          exact above
        · cases tie with
          | up =>
              cases offered
              exact above
          | toEven =>
              cases offered
              split
              · exact below
              · exact above
  · split at offered
    · next lower =>
        cases offered
        exact lower.1
    · split at offered
      · next upper =>
          cases offered
          exact upper
      · cases offered

def Interval.below (i : Interval) (k : Int) : Nat :=
  (align i.middle i.exponent 1 k).1 / (align i.middle i.exponent 1 k).2

private theorem below_le (i : Interval) (k : Int) :
    (i.below k : ℚ) * 10 ^ k ≤ i.middle * 2 ^ i.exponent ∧
      (i.middle : ℚ) * 2 ^ i.exponent < ((i.below k + 1 : Nat) : ℚ) * 10 ^ k := by
  obtain ⟨scale, positive, value, unit⟩ := align_value i.middle 1 i.exponent k
  have two : 0 < 2 ^ (-i.exponent).toNat := Nat.pow_pos (by norm_num)
  have ten : 0 < 10 ^ k.toNat := Nat.pow_pos (by norm_num)
  have whole : 0 < (align i.middle i.exponent 1 k).2 := Nat.mul_pos (Nat.mul_pos one_pos ten) two
  have least := Nat.div_mul_le_self (align i.middle i.exponent 1 k).1 (align i.middle i.exponent 1 k).2
  have next := Nat.lt_mul_div_succ (align i.middle i.exponent 1 k).1 whole
  rw [Nat.mul_comm] at next
  have lower := (Nat.cast_le (α := ℚ)).2 least
  have upper := (Nat.cast_lt (α := ℚ)).2 next
  rw [Nat.cast_mul, value, unit, Nat.cast_one, one_mul, ← mul_assoc, mul_le_mul_iff_left₀ positive]
    at lower
  rw [Nat.cast_mul, value, unit, Nat.cast_one, one_mul, ← mul_assoc, mul_lt_mul_iff_left₀ positive]
    at upper
  exact ⟨lower, upper⟩

private theorem candidate_offered
    (inside : (i.contains (i.below k) k = true ∧ 0 < i.below k) ∨ i.contains (i.below k + 1) k = true) :
    ∃ d, i.candidate? tie k = some d := by
  have point : (align i.middle i.exponent 1 k).1 / (align i.middle i.exponent 1 k).2 = i.below k := rfl
  rw [← Option.isSome_iff_exists]
  unfold Interval.candidate?
  simp only [point, Bool.and_eq_true, decide_eq_true_eq]
  split
  · split
    · rfl
    · split
      · rfl
      · cases tie <;> rfl
  · split
    · rfl
    · next lower =>
        rw [if_pos (inside.resolve_left lower)]
        rfl

/-- A grid with seventeen digits of the double offers a point. -/
theorem grid_offers (normal : b.Normal) (positive : 0 < b.mantissa)
    (fine : (10 : ℚ) ^ (k + 16) ≤ b.value) : ∃ d, b.interval.candidate? tie k = some d := by
  have around := below_le b.interval k
  rw [interval_middle] at around
  obtain ⟨lower, upper⟩ := around
  have unit := two_pow_pos b.exponent
  have step : (0 : ℚ) < 10 ^ k := zpow_pos (by norm_num) k
  have many : (10 : ℚ) ^ 16 * 10 ^ k ≤ b.value := by
    rw [zpow_add₀ (by norm_num), mul_comm] at fine
    exact fine
  have some : 0 < b.interval.below k := by
    rw [Nat.pos_iff_ne_zero]
    intro none
    rw [none] at upper
    norm_num at upper
    linarith
  apply candidate_offered
  by_contra missed
  rw [not_or, not_and] at missed
  have left : (b.interval.below k : ℚ) * 10 ^ k ≤ b.value - b.gapBelow / 2 := by
    by_contra near
    refine missed.1 (contains_of_near positive (not_le.1 near) ?_) some
    linarith
  have right : b.value + 2 ^ b.exponent / 2 ≤ ((b.interval.below k + 1 : Nat) : ℚ) * 10 ^ k := by
    by_contra near
    refine missed.2 (contains_of_near positive ?_ (not_le.1 near))
    have gap := gapBelow_pos b
    linarith
  push_cast at right
  -- The step would be wider than half the distance of the neighbours.
  have wide : b.gapBelow / 2 + 2 ^ b.exponent / 2 ≤ 10 ^ k := by linarith
  have value : b.value = b.mantissa * 2 ^ b.exponent := rfl
  unfold Binary.gapBelow at wide
  split at wide
  · next power =>
      rw [value, power.1] at many
      push_cast at many
      linarith
  · have bounded : (b.mantissa : ℚ) < 2 ^ 53 := by exact_mod_cast normal.bounded
    rw [value] at many
    nlinarith

/-! ### The search -/

private theorem search_contained (leading : Int) (grids count : Nat)
    (offers : ∃ n, count ≤ n ∧ n < count + grids ∧ ∃ d, i.candidate? tie (leading - n) = some d) :
    i.contains (i.search tie leading grids count).digits (i.search tie leading grids count).exponent =
      true := by
  induction grids generalizing count with
  | zero =>
      obtain ⟨n, least, greatest, -⟩ := offers
      omega
  | succ grids ih =>
      rw [Interval.search]
      split
      · next d offered => exact candidate_contained offered
      · next none =>
          apply ih
          obtain ⟨n, least, greatest, d, offered⟩ := offers
          refine ⟨n, ?_, by omega, d, offered⟩
          rcases Nat.lt_or_eq_of_le least with more | same
          · exact more
          · subst same
            rw [none] at offered
            cases offered

private theorem trim_value (steps : Nat) (s : Scaled) : (s.trim steps).value = s.value := by
  induction steps generalizing s with
  | zero => rfl
  | succ steps ih =>
      rw [Scaled.trim]
      split
      · next zero =>
          rw [ih]
          have split : s.digits = s.digits / 10 * 10 := by omega
          have cast : (s.digits : ℚ) = (s.digits / 10 : Nat) * 10 := by exact_mod_cast split
          rw [Scaled.value, Scaled.value, cast, zpow_add_one₀ (by norm_num)]
          ring
      · rfl

/-- Seventeen digits suffice: the shortest decimal rounds to the double. -/
theorem shortest_rounds (tie : Tie) (normal : b.Normal) : RoundsTo (b.shortest tie).value b := by
  rcases Nat.eq_zero_or_pos b.mantissa with zero | positive
  · have none : b.value = 0 := by
      rw [Binary.value, zero, Nat.cast_zero, zero_mul]
    have shown : (b.shortest tie).value = 0 := by
      rw [Binary.shortest, if_pos zero, Scaled.value, Nat.cast_zero, zero_mul]
    rw [shown]
    constructor
    · intro c _
      rw [none, sub_self, abs_zero]
      exact abs_nonneg _
    · intro _ _ _ _
      rw [zero]
  · have nonzero : b.mantissa ≠ 0 := by omega
    rw [Binary.shortest, if_neg nonzero]
    simp only
    rw [trim_value]
    refine rounds_of_contains normal positive (search_contained _ 17 0 ⟨16, by omega, by omega, ?_⟩)
    apply grid_offers normal positive
    have leading := pow_leading_le normal positive
    rw [Nat.cast_ofNat, sub_add_cancel]
    exact leading

end EntityStore.Decimal
