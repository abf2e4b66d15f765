import EntityStore.Calendar.Basic
import EntityStore.Text.Blank

/-!
Reading dates and times from text. White space may stand in front of any number. A year with a sign
has any number of digits and one without at most four; every other number has one or two. The
fraction may be left out and keeps nine digits, and second 60 is read as a leap second. Nothing may
follow.
-/

namespace EntityStore

namespace Calendar

open Text (skipBlanks)

def valueOf (digits : List Char) : Nat :=
  digits.foldl (fun n c => 10 * n + (c.toNat - '0'.toNat)) 0

def readDigits (width : Nat) (cs : List Char) : Option (List Char × List Char) :=
  let digits := (cs.take width).takeWhile Char.isDigit
  if digits.isEmpty then none else some (digits, cs.drop digits.length)

def readNumber (width : Nat) (cs : List Char) : Option (Nat × List Char) :=
  (readDigits width (skipBlanks cs)).map fun (digits, rest) => (valueOf digits, rest)

def readYear (cs : List Char) : Option (Int × List Char) :=
  match skipBlanks cs with
  | '-' :: rest =>
    (readDigits rest.length rest).map fun (digits, rest) => (-(valueOf digits : Int), rest)
  | '+' :: rest => (readDigits rest.length rest).map fun (digits, rest) => (valueOf digits, rest)
  | cs => (readDigits 4 cs).map fun (digits, rest) => (valueOf digits, rest)

def expect (c : Char) : List Char → Option (List Char)
  | d :: rest => if d = c then some rest else none
  | [] => none

def readDate (cs : List Char) : Option (Date × List Char) := do
  let (year, cs) ← readYear cs
  let cs ← expect '-' cs
  let (month, cs) ← readNumber 2 cs
  let cs ← expect '-' cs
  let (day, cs) ← readNumber 2 cs
  let date ← Date.ofParts? year month day
  return (date, cs)

/-- The nanoseconds of a fraction, which is zero when it is left out; digits after the ninth are
skipped. -/
def readFraction (cs : List Char) : Option (Nat × List Char) :=
  match cs with
  | '.' :: rest => do
    let (digits, rest) ← readDigits 9 rest
    return (valueOf digits * Nat.pow 10 (9 - digits.length), rest.dropWhile Char.isDigit)
  | cs => some (0, cs)

def readTime (cs : List Char) : Option (TimeOfDay × List Char) := do
  let (hour, cs) ← readNumber 2 cs
  let cs ← expect ':' cs
  let (minute, cs) ← readNumber 2 cs
  let cs ← expect ':' cs
  let (second, cs) ← readNumber 2 cs
  let (nanosecond, cs) ← readFraction cs
  let time ←
    if second = 60 then TimeOfDay.ofParts? hour minute 59 (1000000000 + nanosecond)
    else TimeOfDay.ofParts? hour minute second nanosecond
  return (time, cs)

def ended {α : Type} : α × List Char → Option α
  | (a, []) => some a
  | _ => none

/-- A date and a time, with `separate` passing over what stands between them. -/
def readDateTime (separate : List Char → Option (List Char)) (cs : List Char) :
    Option (DateTime × List Char) := do
  let (date, cs) ← readDate cs
  let cs ← separate cs
  let (time, cs) ← readTime cs
  return (⟨date, time⟩, cs)

end Calendar

open Calendar

def Date.ofText? (s : String) : Option Date :=
  (readDate s.toList).bind ended

def DateTime.ofText? (s : String) : Option DateTime :=
  ((readDateTime (fun cs => some (Text.skipBlanks cs)) s.toList).bind ended)
    <|> ((readDateTime (expect 'T') s.toList).bind ended)

end EntityStore
