import EntityStore.Decimal.Shortest

/-!
How doubles are written. Messages write the shortest decimal positionally, whatever its size, and
a whole number without a point. JSON keeps a point, turns to an exponent for magnitudes below
`10 ^ (-5)` and from `10 ^ 16` on, and has no spelling for infinities and for what is not a number.
-/

namespace EntityStore.Decimal

def digitsOf (n : Nat) : List Char :=
  Nat.toDigits 10 n

/-- A decimal without an exponent. `point` asks for a point even in a whole number. -/
def Scaled.positional (s : Scaled) (point : Bool) : String :=
  let ds := digitsOf s.digits
  if 0 ≤ s.exponent then
    String.ofList (if s.digits = 0 then ds else ds ++ List.replicate s.exponent.toNat '0')
      ++ (if point then ".0" else "")
  else
    let places := (-s.exponent).toNat
    let padded := List.replicate (places + 1 - ds.length) '0' ++ ds
    let whole := padded.length - places
    String.ofList (padded.take whole ++ '.' :: padded.drop whole)

/-- A decimal with one digit before the point and an explicitly signed exponent. -/
def Scaled.scientific (s : Scaled) : String :=
  let ds := digitsOf s.digits
  let power := s.exponent + ds.length - 1
  let mantissa := match ds with
    | [] => ['0']
    | [d] => [d]
    | d :: rest => d :: '.' :: rest
  let sign := if power < 0 then "-" else "+"
  String.ofList mantissa ++ "e" ++ sign ++ String.ofList (digitsOf power.natAbs)

def Scaled.leading (s : Scaled) : Int :=
  s.exponent + (digitsOf s.digits).length - 1

private def signText (negative : Bool) : String :=
  if negative then "-" else ""

/-- A double in a message. -/
def plain (x : Double) : String :=
  match x.reading with
  | .nan => "NaN"
  | .infinite negative => signText negative ++ "inf"
  | .finite negative b => signText negative ++ (b.shortest .up).positional false

/-- A double in JSON. -/
def json (x : Double) : String :=
  match x.reading with
  | .nan | .infinite _ => "null"
  | .finite negative b =>
    let s := b.shortest .toEven
    signText negative
      ++ (if -5 ≤ s.leading ∧ s.leading < 16 then s.positional true else s.scientific)

end EntityStore.Decimal
