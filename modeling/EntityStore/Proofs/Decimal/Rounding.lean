import Mathlib.Algebra.Order.Field.Power
import Mathlib.Tactic.FieldSimp
import Mathlib.Tactic.Linarith
import Mathlib.Tactic.NormNum
import Mathlib.Tactic.Ring
import EntityStore.Decimal.Shortest

/-!
Which doubles numbers round to. A number rounds to the nearest double, and from halfway between two to
the one with an even mantissa. The numbers between the two ends of a double's interval, and these ends
where the mantissa is even, are numbers that round to it.
-/

namespace EntityStore.Decimal

/-! ### Values -/

namespace Binary

def value (b : Binary) : ℚ :=
  b.mantissa * 2 ^ b.exponent

/-- Every magnitude of a finite double has this form, and each in one way. There is no greatest
exponent, as one that is too great is still rounded to before it is found to be so. -/
structure Normal (b : Binary) : Prop where
  bounded : b.mantissa < 2 ^ 53
  least : -1074 ≤ b.exponent
  leading : 2 ^ 52 ≤ b.mantissa ∨ b.exponent = -1074

end Binary

def Scaled.value (s : Scaled) : ℚ :=
  s.digits * 10 ^ s.exponent

/-- The double is the nearest one to the number, and has an even mantissa if there is another one. -/
structure RoundsTo (q : ℚ) (b : Binary) : Prop where
  nearest : ∀ c : Binary, c.Normal → |q - b.value| ≤ |q - c.value|
  even : ∀ c : Binary, c.Normal → c.value ≠ b.value → |q - b.value| = |q - c.value| →
    b.mantissa % 2 = 0

/-- The magnitude of a finite double. -/
theorem normal_of_finite {bits : UInt64} {negative : Bool} {b : Binary}
    (finite : Reading.ofBits bits = .finite negative b) : b.Normal := by
  have fraction : bits.toNat % Nat.pow 2 52 < 2 ^ 52 := Nat.mod_lt _ (by decide)
  unfold Reading.ofBits at finite
  simp only at finite
  split at finite
  · split at finite <;> cases finite
  · split at finite
    · cases finite
      have bounded : bits.toNat % Nat.pow 2 52 < 2 ^ 53 := by omega
      exact ⟨bounded, Int.le_refl _, Or.inr rfl⟩
    · next positive =>
        cases finite
        refine ⟨?_, ?_, Or.inl (Nat.le_add_right _ _)⟩
        · show 2 ^ 52 + bits.toNat % Nat.pow 2 52 < 2 ^ 53
          omega
        · show -1074 ≤ ((bits.toNat / Nat.pow 2 52 % Nat.pow 2 11 : Nat) : Int) - 1075
          omega

/-! ### Neighbours -/

variable {b c : Binary}

theorem two_pow_pos (e : Int) : (0 : ℚ) < 2 ^ e :=
  zpow_pos (by norm_num) e

theorem value_eq_multiple {e : Int} (le : e ≤ c.exponent) :
    ∃ n : Nat, c.value = n * 2 ^ e := by
  obtain ⟨shift, exponent⟩ := Int.eq_ofNat_of_zero_le (Int.sub_nonneg_of_le le)
  refine ⟨c.mantissa * 2 ^ shift, ?_⟩
  have sum : c.exponent = e + shift := by omega
  rw [Binary.value, sum, zpow_add₀ (by norm_num), zpow_natCast]
  push_cast
  ring

theorem value_le_finer (normal : c.Normal) {e : Int} (less : c.exponent < e) :
    c.value ≤ (2 ^ 53 - 1) * 2 ^ (e - 1) := by
  have mantissa : (c.mantissa : ℚ) ≤ 2 ^ 53 - 1 := by
    have bounded := normal.bounded
    have whole : c.mantissa ≤ 2 ^ 53 - 1 := by omega
    have cast : ((c.mantissa : Nat) : ℚ) ≤ ((2 ^ 53 - 1 : Nat) : ℚ) := Nat.cast_le.2 whole
    norm_num at cast ⊢
    exact cast
  have unit : (2 : ℚ) ^ c.exponent ≤ 2 ^ (e - 1) := zpow_le_zpow_right₀ (by norm_num) (by omega)
  exact mul_le_mul mantissa unit (two_pow_pos _).le (by norm_num)

theorem half_unit (e : Int) : (2 : ℚ) ^ (e - 1) = 2 ^ e / 2 := by
  rw [zpow_sub_one₀ (by norm_num)]
  ring

/-- The next greater double is one unit away at least. -/
theorem gap_above (first : b.Normal) (second : c.Normal) (less : b.value < c.value) :
    b.value + 2 ^ b.exponent ≤ c.value := by
  have unit := two_pow_pos b.exponent
  rcases le_or_gt b.exponent c.exponent with le | finer
  · obtain ⟨n, multiple⟩ := value_eq_multiple le
    rw [multiple, Binary.value] at less ⊢
    have above : (b.mantissa : ℚ) < n := lt_of_mul_lt_mul_right less unit.le
    have next : ((b.mantissa + 1 : Nat) : ℚ) ≤ n := Nat.cast_le.2 (Nat.cast_lt.1 above)
    push_cast at next
    nlinarith
  · -- A finer grid ends below the double.
    have bound := value_le_finer second finer
    have leading : (2 : ℚ) ^ 52 ≤ b.mantissa := by
      have least := second.least
      have whole := first.leading.resolve_right (by omega)
      exact_mod_cast whole
    rw [half_unit] at bound
    rw [Binary.value] at less
    nlinarith

def Binary.gapBelow (b : Binary) : ℚ :=
  if b.mantissa = 2 ^ 52 ∧ b.exponent ≠ -1074 then 2 ^ b.exponent / 2 else 2 ^ b.exponent

theorem gapBelow_pos (b : Binary) : 0 < b.gapBelow := by
  have unit := two_pow_pos b.exponent
  unfold Binary.gapBelow
  split <;> linarith

private theorem gap_below (first : b.Normal) (second : c.Normal) (less : c.value < b.value) :
    c.value + b.gapBelow ≤ b.value := by
  have unit := two_pow_pos b.exponent
  rcases le_or_gt b.exponent c.exponent with le | finer
  · obtain ⟨n, multiple⟩ := value_eq_multiple le
    have gap : b.gapBelow ≤ 2 ^ b.exponent := by
      unfold Binary.gapBelow
      split <;> linarith
    rw [multiple, Binary.value] at less ⊢
    have below : (n : ℚ) < b.mantissa := lt_of_mul_lt_mul_right less unit.le
    have next : ((n + 1 : Nat) : ℚ) ≤ b.mantissa := Nat.cast_le.2 (Nat.cast_lt.1 below)
    push_cast at next
    nlinarith
  · have bound := value_le_finer second finer
    have least := second.least
    have normal := first.leading.resolve_right (by omega)
    rw [half_unit] at bound
    show c.value + b.gapBelow ≤ b.mantissa * 2 ^ b.exponent
    unfold Binary.gapBelow
    split
    · next power =>
        rw [power.1]
        push_cast
        linarith
    · next other =>
        have more : 2 ^ 52 + 1 ≤ b.mantissa := by omega
        have cast : ((2 ^ 52 + 1 : Nat) : ℚ) ≤ b.mantissa := Nat.cast_le.2 more
        push_cast at cast
        nlinarith

/-! ### Halfway to the neighbours -/

/-- A number that is nearer to a double than halfway to its neighbours, or just halfway if the mantissa
is even. -/
structure Between (q : ℚ) (b : Binary) : Prop where
  lower : b.value - b.gapBelow / 2 ≤ q
  upper : q ≤ b.value + 2 ^ b.exponent / 2
  strict : b.mantissa % 2 ≠ 0 → b.value - b.gapBelow / 2 < q ∧ q < b.value + 2 ^ b.exponent / 2

private theorem Between.rounds {q : ℚ} (between : Between q b) (normal : b.Normal) : RoundsTo q b := by
  obtain ⟨lower, upper, strict⟩ := between
  have away (c : Binary) : c.value - q ≤ |q - c.value| ∧ q - c.value ≤ |q - c.value| := by
    constructor
    · rw [abs_sub_comm]
      exact le_abs_self _
    · exact le_abs_self _
  constructor
  · intro c other
    obtain ⟨above, below⟩ := away c
    rcases lt_trichotomy c.value b.value with less | same | greater
    · have gap := gap_below normal other less
      exact abs_le.2 ⟨by linarith, by linarith⟩
    · rw [same]
    · have gap := gap_above normal other greater
      exact abs_le.2 ⟨by linarith, by linarith⟩
  · intro c other different same
    by_contra odd
    obtain ⟨left, right⟩ := strict odd
    obtain ⟨above, below⟩ := away c
    suffices nearer : |q - b.value| < |q - c.value| from absurd same nearer.ne
    rcases lt_or_gt_of_ne different with less | greater
    · have gap := gap_below normal other less
      exact abs_lt.2 ⟨by linarith, by linarith⟩
    · have gap := gap_above normal other greater
      exact abs_lt.2 ⟨by linarith, by linarith⟩

/-! ### One double for each number -/

private theorem value_lt_of_finer (first : b.Normal) (second : c.Normal)
    (finer : b.exponent < c.exponent) :
    b.value < c.value := by
  have bound := value_le_finer first finer
  have unit := two_pow_pos c.exponent
  have leading : (2 : ℚ) ^ 52 ≤ c.mantissa := by
    have least := first.least
    have whole := second.leading.resolve_right (by omega)
    exact_mod_cast whole
  rw [half_unit] at bound
  change b.value < c.mantissa * 2 ^ c.exponent
  nlinarith

theorem eq_of_value (first : b.Normal) (second : c.Normal) (same : b.value = c.value) : b = c := by
  rcases lt_trichotomy b.exponent c.exponent with finer | equal | coarser
  · exact absurd same (value_lt_of_finer first second finer).ne
  · have unit := two_pow_pos c.exponent
    rw [Binary.value, Binary.value, equal] at same
    have mantissas : (b.mantissa : ℚ) = c.mantissa := mul_right_cancel₀ unit.ne' same
    cases b
    cases c
    rw [Nat.cast_inj] at mantissas
    simp only at mantissas equal
    rw [mantissas, equal]
  · exact absurd same (value_lt_of_finer second first coarser).ne'

private theorem exists_next (normal : b.Normal) (even : b.mantissa % 2 = 0) :
    ∃ c : Binary, c.Normal ∧ c.mantissa % 2 = 1 ∧ c.value = b.value + 2 ^ b.exponent := by
  have bounded := normal.bounded
  refine ⟨⟨b.mantissa + 1, b.exponent⟩, ⟨?_, normal.least, ?_⟩, ?_, ?_⟩
  · change b.mantissa + 1 < 2 ^ 53
    omega
  · change 2 ^ 52 ≤ b.mantissa + 1 ∨ b.exponent = -1074
    have leading := normal.leading
    omega
  · change (b.mantissa + 1) % 2 = 1
    omega
  · change ((b.mantissa + 1 : Nat) : ℚ) * 2 ^ b.exponent = b.mantissa * 2 ^ b.exponent + 2 ^ b.exponent
    push_cast
    ring

private theorem RoundsTo.not_lt {q : ℚ} (left : RoundsTo q b) (right : RoundsTo q c) (first : b.Normal)
    (second : c.Normal) : ¬ b.value < c.value := by
  intro less
  have tie : |q - b.value| = |q - c.value| :=
    le_antisymm (left.nearest c second) (right.nearest b first)
  have middle : q - b.value = c.value - q := by
    rcases abs_eq_abs.1 tie with same | opposite
    · linarith
    · linarith
  have even := left.even c second less.ne' tie
  have other := right.even b first less.ne tie.symm
  -- Of two neighbours only one is even, and what lies between two others is nearer.
  obtain ⟨next, normal, odd, value⟩ := exists_next first even
  have gap := gap_above first second less
  have unit := two_pow_pos b.exponent
  rcases lt_or_eq_of_le gap with between | neighbour
  · have nearest := right.nearest next normal
    have away : c.value - q ≤ |q - c.value| := by
      rw [abs_sub_comm]
      exact le_abs_self _
    have nearer : |q - next.value| < c.value - q := abs_lt.2 ⟨by linarith, by linarith⟩
    linarith
  · have same : next = c := eq_of_value normal second (value.trans neighbour)
    rw [same, other] at odd
    cases odd

theorem RoundsTo.unique {q : ℚ} (left : RoundsTo q b) (right : RoundsTo q c) (first : b.Normal)
    (second : c.Normal) : b = c := by
  apply eq_of_value first second
  rcases lt_trichotomy b.value c.value with less | same | greater
  · exact absurd less (left.not_lt right first second)
  · exact same
  · exact absurd greater (right.not_lt left second first)

/-! ### Comparisons of numbers with different bases -/

theorem zpow_eq_div (a : ℚ) (e : Int) : a ^ e = a ^ e.toNat / a ^ (-e).toNat := by
  rcases le_or_gt 0 e with whole | negative
  · have none : (-e).toNat = 0 := by omega
    have same : ((e.toNat : Nat) : Int) = e := Int.toNat_of_nonneg whole
    rw [none, pow_zero, div_one, ← zpow_natCast, same]
  · have none : e.toNat = 0 := by omega
    have same : (((-e).toNat : Nat) : Int) = -e := Int.toNat_of_nonneg (by omega)
    rw [none, pow_zero, one_div, ← zpow_natCast, same, zpow_neg, inv_inv]

theorem align_value (x d : Nat) (p k : Int) :
    ∃ scale : ℚ, 0 < scale ∧ ((align x p d k).1 : ℚ) = x * 2 ^ p * scale
      ∧ ((align x p d k).2 : ℚ) = d * 10 ^ k * scale := by
  have two : (0 : ℚ) < 2 ^ (-p).toNat := by positivity
  have ten : (0 : ℚ) < 10 ^ (-k).toNat := by positivity
  refine ⟨2 ^ (-p).toNat * 10 ^ (-k).toNat, mul_pos two ten, ?_, ?_⟩
  · rw [zpow_eq_div 2 p]
    show ((x * 2 ^ p.toNat * 10 ^ (-k).toNat : Nat) : ℚ) = _
    push_cast
    field_simp
  · rw [zpow_eq_div 10 k]
    show ((d * 10 ^ k.toNat * 2 ^ (-p).toNat : Nat) : ℚ) = _
    push_cast
    field_simp

private theorem align_le (x d : Nat) (p k : Int) :
    (align x p d k).1 ≤ (align x p d k).2 ↔ (x : ℚ) * 2 ^ p ≤ d * 10 ^ k := by
  obtain ⟨scale, positive, first, second⟩ := align_value x d p k
  rw [← Nat.cast_le (α := ℚ), first, second, mul_le_mul_iff_left₀ positive]

private theorem align_lt (x d : Nat) (p k : Int) :
    (align x p d k).1 < (align x p d k).2 ↔ (x : ℚ) * 2 ^ p < d * 10 ^ k := by
  obtain ⟨scale, positive, first, second⟩ := align_value x d p k
  rw [← Nat.cast_lt (α := ℚ), first, second, mul_lt_mul_iff_left₀ positive]

/-- Whether a decimal lies in an interval, told by its value. -/
theorem contains_iff (i : Interval) (d : Nat) (k : Int) :
    i.contains d k = true ↔
      if i.closed then i.low * 2 ^ i.exponent ≤ (d : ℚ) * 10 ^ k ∧ (d : ℚ) * 10 ^ k ≤ i.high * 2 ^ i.exponent
      else i.low * 2 ^ i.exponent < (d : ℚ) * 10 ^ k ∧ (d : ℚ) * 10 ^ k < i.high * 2 ^ i.exponent := by
  have least := align_le i.low d i.exponent k
  have low := align_lt i.low d i.exponent k
  have greatest : (align i.high i.exponent d k).2 ≤ (align i.high i.exponent d k).1 ↔
      (d : ℚ) * 10 ^ k ≤ i.high * 2 ^ i.exponent := by
    rw [← not_lt, ← not_lt, align_lt]
  have high : (align i.high i.exponent d k).2 < (align i.high i.exponent d k).1 ↔
      (d : ℚ) * 10 ^ k < i.high * 2 ^ i.exponent := by
    rw [← not_le, ← not_le, align_le]
  have point : (align i.high i.exponent d k).2 = (align i.low i.exponent d k).2 := rfl
  rw [point] at greatest high
  unfold Interval.contains
  cases i.closed with
  | true =>
      simp only [if_true, Bool.and_eq_true, decide_eq_true_eq]
      rw [least, greatest]
  | false =>
      simp only [Bool.false_eq_true, if_false, Bool.and_eq_true, decide_eq_true_eq]
      rw [low, high]

/-! ### The interval of a double -/

theorem quarter_unit (e : Int) : (2 : ℚ) ^ (e - 2) = 2 ^ e / 4 := by
  rw [zpow_sub₀ (by norm_num)]
  norm_num

theorem interval_middle (b : Binary) :
    (b.interval.middle : ℚ) * 2 ^ b.interval.exponent = b.value := by
  show ((4 * b.mantissa : Nat) : ℚ) * 2 ^ (b.exponent - 2) = b.mantissa * 2 ^ b.exponent
  rw [quarter_unit]
  push_cast
  ring

theorem interval_high (b : Binary) :
    (b.interval.high : ℚ) * 2 ^ b.interval.exponent = b.value + 2 ^ b.exponent / 2 := by
  show ((4 * b.mantissa + 2 : Nat) : ℚ) * 2 ^ (b.exponent - 2) = b.mantissa * 2 ^ b.exponent + _
  rw [quarter_unit]
  push_cast
  ring

theorem interval_low (positive : 0 < b.mantissa) :
    (b.interval.low : ℚ) * 2 ^ b.interval.exponent = b.value - b.gapBelow / 2 := by
  show ((if b.mantissa = 2 ^ 52 ∧ b.exponent ≠ -1074 then 4 * b.mantissa - 1
      else 4 * b.mantissa - 2 : Nat) : ℚ) * 2 ^ (b.exponent - 2) = b.mantissa * 2 ^ b.exponent - _
  rw [quarter_unit, Binary.gapBelow]
  split
  · rw [Nat.cast_sub (by omega)]
    push_cast
    ring
  · rw [Nat.cast_sub (by omega)]
    push_cast
    ring

theorem rounds_of_contains (normal : b.Normal) (positive : 0 < b.mantissa) {d : Nat} {k : Int}
    (inside : b.interval.contains d k = true) : RoundsTo (Scaled.value ⟨d, k⟩) b := by
  rw [contains_iff, interval_high, interval_low positive] at inside
  refine Between.rounds ?_ normal
  have closed : b.interval.closed = (b.mantissa % 2 == 0) := rfl
  rw [closed] at inside
  by_cases even : b.mantissa % 2 = 0
  · rw [even] at inside
    exact ⟨inside.1, inside.2, fun odd => absurd even odd⟩
  · rw [if_neg (by simpa using even)] at inside
    exact ⟨inside.1.le, inside.2.le, fun _ => inside⟩

theorem contains_of_near (positive : 0 < b.mantissa) {d : Nat} {k : Int}
    (lower : b.value - b.gapBelow / 2 < d * 10 ^ k) (upper : d * 10 ^ k < b.value + 2 ^ b.exponent / 2) :
    b.interval.contains d k = true := by
  rw [contains_iff, interval_high, interval_low positive]
  split
  · exact ⟨lower.le, upper.le⟩
  · exact ⟨lower, upper⟩

end EntityStore.Decimal
