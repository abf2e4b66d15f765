/-!
Doubles: floating point numbers of sixty-four bits, held by their bits. So zero keeps its sign, and
what is not a number keeps the bits it came with. `Double.reading` is what the bits stand for.
-/

namespace EntityStore

namespace Decimal

structure Binary where
  mantissa : Nat
  exponent : Int
  deriving DecidableEq, Repr

/-- What the bits of a double stand for. -/
inductive Reading
  | nan
  | infinite (negative : Bool)
  | finite (negative : Bool) (magnitude : Binary)
  deriving DecidableEq, Repr

/-- Reads the sign, exponent and fraction fields. -/
def Reading.ofBits (bits : UInt64) : Reading :=
  let word : Nat := bits.toNat
  let negative := word / Nat.pow 2 63 == 1
  let field : Nat := word / Nat.pow 2 52 % Nat.pow 2 11
  let fraction : Nat := word % Nat.pow 2 52
  if field = 2047 then
    if fraction = 0 then .infinite negative else .nan
  else if field = 0 then .finite negative ⟨fraction, -1074⟩
  else .finite negative ⟨Nat.pow 2 52 + fraction, (field : Int) - 1075⟩

end Decimal

structure Double where
  bits : UInt64
  deriving DecidableEq, Repr

namespace Double

open Decimal (Reading)

def zero : Double := ⟨0⟩

def reading (x : Double) : Reading :=
  .ofBits x.bits

def isNaN (x : Double) : Bool :=
  x.reading == .nan

def isZero (x : Double) : Bool :=
  match x.reading with
  | .finite _ magnitude => magnitude.mantissa == 0
  | _ => false

def same (x y : Double) : Bool :=
  !x.isNaN && (x == y || (x.isZero && y.isZero))

/-- The quotient of a number by a power of two, rounded to the nearest and from halfway to the
even. -/
def roundedShift (n places : Nat) : Nat :=
  let unit := Nat.pow 2 places
  let below := n / unit
  let rest := n % unit
  if 2 * rest < unit then below
  else if unit < 2 * rest then below + 1
  else below + below % 2

/-- The bits of the double nearest to a positive number below two to the power of 1023. A mantissa
that is rounded up to the next power of two carries into the exponent. -/
def magnitudeBits (n : Nat) : Nat :=
  let top := n.log2
  let mantissa := if top ≤ 52 then n * Nat.pow 2 (52 - top) else roundedShift n (top - 52)
  (top + 1022) * Nat.pow 2 52 + mantissa

def ofInt64 (n : Int64) : Double :=
  let magnitude := n.toInt.natAbs
  if magnitude = 0 then zero
  else ⟨UInt64.ofNat ((if n.toInt < 0 then Nat.pow 2 63 else 0) + magnitudeBits magnitude)⟩

end Double

end EntityStore
