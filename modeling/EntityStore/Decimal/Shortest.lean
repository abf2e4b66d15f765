import EntityStore.Decimal.Double

/-!
The shortest decimal that reads back as a given double. A finite double is an integer times a power
of two; the reals that round to it form an interval, which contains its ends exactly when the
integer is even. The shortest decimal is the first grid of decimals, from one significant digit
upwards, with a point in that interval, and of two such points the nearer to the double itself.
-/

namespace EntityStore.Decimal

inductive Tie
  | toEven
  | up
  deriving DecidableEq, Repr

structure Scaled where
  digits : Nat
  exponent : Int
  deriving DecidableEq, Repr

/-- The reals that round to a double, in quarters of the unit `2 ^ exponent`: the lower end, the
double and the upper end. Below a power of two the neighbour is only half as far away. -/
structure Interval where
  low : Nat
  middle : Nat
  high : Nat
  exponent : Int
  closed : Bool

def Binary.interval (b : Binary) : Interval where
  low :=
    if b.mantissa = Nat.pow 2 52 ∧ b.exponent ≠ -1074 then 4 * b.mantissa - 1
    else 4 * b.mantissa - 2
  middle := 4 * b.mantissa
  high := 4 * b.mantissa + 2
  exponent := b.exponent - 2
  closed := b.mantissa % 2 == 0

/-- Two magnitudes brought to one denominator: `x * 2 ^ p` and `d * 10 ^ k` compare as the two
results do. -/
def align (x : Nat) (p : Int) (d : Nat) (k : Int) : Nat × Nat :=
  (x * Nat.pow 2 p.toNat * Nat.pow 10 (-k).toNat, d * Nat.pow 10 k.toNat * Nat.pow 2 (-p).toNat)

def Interval.contains (i : Interval) (d : Nat) (k : Int) : Bool :=
  let (low, point) := align i.low i.exponent d k
  let (high, _) := align i.high i.exponent d k
  if i.closed then low ≤ point && point ≤ high else low < point && point < high

def digitCount (steps n : Nat) : Nat :=
  match steps with
  | 0 => 0
  | steps + 1 => if n = 0 then 0 else digitCount steps (n / 10) + 1

/-- The power of ten of the first digit of a positive magnitude: the greatest `e` with `10 ^ e` not
above it. -/
def Interval.leading (i : Interval) : Int :=
  if 0 ≤ i.exponent then
    (digitCount 400 (i.middle * Nat.pow 2 i.exponent.toNat) : Int) - 1
  else
    let whole := i.middle / Nat.pow 2 (-i.exponent).toNat
    if 0 < whole then (digitCount 400 whole : Int) - 1
    else
      -- The magnitude is below one: scale it by a power of ten that makes it at least one.
      let scaled := i.middle * Nat.pow 10 400 / Nat.pow 2 (-i.exponent).toNat
      (digitCount 800 scaled : Int) - 1 - 400

/-- The point that a grid of unit `10 ^ k` offers: of the two neighbours of the double on that grid
the one in the interval, and of two in the interval the nearer. -/
def Interval.candidate? (i : Interval) (tie : Tie) (k : Int) : Option Nat :=
  let (value, unit) := align i.middle i.exponent 1 k
  let below := value / unit
  let rest := value % unit
  let belowIn := i.contains below k && 0 < below
  let aboveIn := i.contains (below + 1) k
  if belowIn && aboveIn then
    if 2 * rest < unit then some below
    else if unit < 2 * rest then some (below + 1)
    else match tie with
      | .up => some (below + 1)
      | .toEven => some (if below % 2 = 0 then below else below + 1)
  else if belowIn then some below
  else if aboveIn then some (below + 1)
  else none

/-- The first of the grids with `count`, `count + 1`, … significant digits that offers a point. -/
def Interval.search (i : Interval) (tie : Tie) (leading : Int) : Nat → Nat → Scaled
  | 0, count => ⟨i.middle, (leading : Int) - count⟩
  | grids + 1, count =>
    let k := leading - count
    match i.candidate? tie k with
    | some d => ⟨d, k⟩
    | none => i.search tie leading grids (count + 1)

def Scaled.trim : Nat → Scaled → Scaled
  | 0, s => s
  | steps + 1, s =>
    if s.digits ≠ 0 ∧ s.digits % 10 = 0 then trim steps ⟨s.digits / 10, s.exponent + 1⟩ else s

/-- The shortest decimal that reads back as the magnitude; seventeen digits always suffice. -/
def Binary.shortest (tie : Tie) (b : Binary) : Scaled :=
  if b.mantissa = 0 then ⟨0, 0⟩
  else
    let i := b.interval
    (i.search tie i.leading 17 0).trim 20

end EntityStore.Decimal
