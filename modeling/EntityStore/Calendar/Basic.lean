/-!
Dates of the proleptic Gregorian calendar and times of day without a zone. A leap second is kept
in the second that it follows, with a nanosecond count of a thousand million or more. Clocks have it
behind second 59 only, where a time is made from its parts; a time whose nanoseconds are set may have
it behind any second.
-/

namespace EntityStore

def isLeapYear (year : Int) : Bool :=
  year % 4 == 0 && (year % 100 != 0 || year % 400 == 0)

def daysInMonth (year : Int) (month : Nat) : Nat :=
  if month = 2 then (if isLeapYear year then 29 else 28)
  else if month = 4 ∨ month = 6 ∨ month = 9 ∨ month = 11 then 30
  else 31

/-- A day of the calendar, in the years that can be kept. -/
structure Date where
  year : Int
  month : Nat
  day : Nat
  yearInRange : -262143 ≤ year ∧ year ≤ 262142
  monthInRange : 1 ≤ month ∧ month ≤ 12
  dayInRange : 1 ≤ day ∧ day ≤ daysInMonth year month
  deriving DecidableEq, Repr

structure TimeOfDay where
  hour : Nat
  minute : Nat
  second : Nat
  nanosecond : Nat
  hourInRange : hour < 24
  minuteInRange : minute < 60
  secondInRange : second < 60
  nanosecondInRange : nanosecond < 2000000000
  deriving DecidableEq, Repr

structure DateTime where
  date : Date
  time : TimeOfDay
  deriving DecidableEq, Repr

/-- The day with these parts, if the calendar has it. -/
def Date.ofParts? (year : Int) (month day : Nat) : Option Date :=
  if h : (-262143 ≤ year ∧ year ≤ 262142) ∧ (1 ≤ month ∧ month ≤ 12)
      ∧ (1 ≤ day ∧ day ≤ daysInMonth year month) then
    some ⟨year, month, day, h.1, h.2.1, h.2.2⟩
  else none

def TimeOfDay.Regular (t : TimeOfDay) : Prop :=
  t.nanosecond < 1000000000 ∨ t.second = 59

instance (t : TimeOfDay) : Decidable t.Regular :=
  inferInstanceAs (Decidable (_ ∨ _))

/-- The time with these parts, if the clock has it. -/
def TimeOfDay.ofParts? (hour minute second nanosecond : Nat) : Option TimeOfDay :=
  if h : hour < 24 ∧ minute < 60 ∧ second < 60
      ∧ (nanosecond < 1000000000 ∨ second = 59) ∧ nanosecond < 2000000000 then
    some ⟨hour, minute, second, nanosecond, h.1, h.2.1, h.2.2.1, h.2.2.2.2⟩
  else none

def TimeOfDay.midnight : TimeOfDay :=
  ⟨0, 0, 0, 0, by decide, by decide, by decide, by decide⟩

def Date.atMidnight (date : Date) : DateTime :=
  ⟨date, .midnight⟩

end EntityStore
