/-!
# The calendar

Days of the proleptic Gregorian calendar, numbered from 1970-01-01. The numbering counts years from
March, so that the day added in a leap year comes last, and groups them by four hundred, after which
the calendar repeats: `Date.dayNumber` and `Date.ofDayNumber` pass through the same two stages in
opposite order.
-/

namespace Courier.Time

/-- A day by year, month and day of the month. -/
structure Date where
  /-- The year; the one before year 1 is year 0. -/
  year : Int
  /-- The month, from 1. -/
  month : Nat
  /-- The day of the month, from 1. -/
  day : Nat
  deriving DecidableEq, Repr

/-- A year with 366 days. -/
def isLeap (year : Int) : Bool :=
  year % 4 == 0 && (year % 100 != 0 || year % 400 == 0)

/-- How many days a month has. -/
def monthLength (year : Int) (month : Nat) : Nat :=
  if month = 2 then if isLeap year then 29 else 28
  else if month = 4 ∨ month = 6 ∨ month = 9 ∨ month = 11 then 30
  else 31

/-- A day that the calendar has. -/
def Date.Valid (d : Date) : Prop :=
  1 ≤ d.month ∧ d.month ≤ 12 ∧ 1 ≤ d.day ∧ d.day ≤ monthLength d.year d.month

instance (d : Date) : Decidable d.Valid :=
  inferInstanceAs (Decidable (_ ∧ _ ∧ _ ∧ _))

/-- How many days four hundred years have. -/
def cycleDays : Nat := 146097

/-- How many days lie between 1 March of year 0 and 1970-01-01. -/
def epochOffset : Nat := 719468

/-- The first day of a year that starts in March, counted within its four hundred years. -/
def yearStart (yearOfCycle : Nat) : Nat :=
  365 * yearOfCycle + yearOfCycle / 4 - yearOfCycle / 100

/-- The first day of a month, counted from March as month 0 within the year. -/
def monthStart (month : Nat) : Nat :=
  (153 * month + 2) / 5

/-- The number of a day, from 1970-01-01 as day 0. -/
def Date.dayNumber (d : Date) : Int :=
  let year := if d.month ≤ 2 then d.year - 1 else d.year
  let yearOfCycle := (year % 400).toNat
  let month := (d.month + 9) % 12
  let dayOfCycle := yearStart yearOfCycle + monthStart month + (d.day - 1)
  year / 400 * cycleDays + dayOfCycle - epochOffset

/-- The day with a number. -/
def Date.ofDayNumber (n : Int) : Date :=
  let shifted := n + epochOffset
  let dayOfCycle := (shifted % cycleDays).toNat
  let yearOfCycle :=
    (dayOfCycle - dayOfCycle / 1460 + dayOfCycle / 36524 - dayOfCycle / 146096) / 365
  let dayOfYear := dayOfCycle - yearStart yearOfCycle
  let month := (5 * dayOfYear + 2) / 153
  let day := dayOfYear - monthStart month + 1
  let year := shifted / cycleDays * 400 + yearOfCycle
  if month < 10 then ⟨year, month + 3, day⟩ else ⟨year + 1, month - 9, day⟩

end Courier.Time
