import EntityStore.Calendar.Basic

/-!
How dates and times are written. Years from 0 to 9999 have four digits and no sign; any other year
has a sign and at least four digits. A leap second is written as the second after the one that it
follows, so at the end of a minute as second 60, and the fraction has no, three, six or nine digits,
the fewest that keep it.
-/

namespace EntityStore

def paddedDigits (width n : Nat) : String :=
  let ds := Nat.toDigits 10 n
  String.ofList (List.replicate (width - ds.length) '0' ++ ds)

def yearText (year : Int) : String :=
  if 0 ≤ year ∧ year ≤ 9999 then paddedDigits 4 year.toNat
  else (if year < 0 then "-" else "+") ++ paddedDigits 4 year.natAbs

def Date.text (d : Date) : String :=
  yearText d.year ++ "-" ++ paddedDigits 2 d.month ++ "-" ++ paddedDigits 2 d.day

/-- The fraction of a second with its point. -/
def fractionText (nanosecond : Nat) : String :=
  if nanosecond = 0 then ""
  else if nanosecond % 1000000 = 0 then "." ++ paddedDigits 3 (nanosecond / 1000000)
  else if nanosecond % 1000 = 0 then "." ++ paddedDigits 6 (nanosecond / 1000)
  else "." ++ paddedDigits 9 nanosecond

def TimeOfDay.text (t : TimeOfDay) : String :=
  paddedDigits 2 t.hour ++ ":" ++ paddedDigits 2 t.minute ++ ":"
    ++ paddedDigits 2 (t.second + t.nanosecond / 1000000000)
    ++ fractionText (t.nanosecond % 1000000000)

def DateTime.textWith (separator : String) (t : DateTime) : String :=
  t.date.text ++ separator ++ t.time.text

def DateTime.text (t : DateTime) : String :=
  t.textWith " "

def DateTime.isoText (t : DateTime) : String :=
  t.textWith "T"

end EntityStore
