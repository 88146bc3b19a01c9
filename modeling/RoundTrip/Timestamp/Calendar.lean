/-!
The proleptic Gregorian calendar: dates and the count of days since 1970-01-01.

Both directions count years from March, so that a leap day is the last day of its year, and split
the days into eras of 400 years.
-/

namespace RoundTrip

structure Date where
  year : Int
  month : Nat
  day : Nat
  deriving DecidableEq, Repr

namespace Date

def isLeap (year : Int) : Bool := year % 4 = 0 ∧ (year % 100 ≠ 0 ∨ year % 400 = 0)

def monthLength (year : Int) (month : Nat) : Nat :=
  if month = 2 then (if isLeap year then 29 else 28)
  else if month = 4 ∨ month = 6 ∨ month = 9 ∨ month = 11 then 30
  else 31

def isValid (d : Date) : Bool :=
  1 ≤ d.month ∧ d.month ≤ 12 ∧ 1 ≤ d.day ∧ d.day ≤ monthLength d.year d.month

/-- Days from 0000-03-01 to 1970-01-01. -/
def epochShift : Int := 719468

def eraDays : Int := 146097

def daysBeforeMonth (month : Int) : Int := (153 * month + 2) / 5

def daysBeforeYear (year : Int) : Int := 365 * year + year / 4 - year / 100

def toDays (d : Date) : Int :=
  let year := if d.month ≤ 2 then d.year - 1 else d.year
  let month : Int := if d.month ≤ 2 then d.month + 9 else d.month - 3
  let yearOfEra := year % 400
  year / 400 * eraDays + daysBeforeYear yearOfEra + daysBeforeMonth month + d.day - 1 - epochShift

def ofDays (days : Int) : Date :=
  let n := days + epochShift
  let dayOfEra := n % eraDays
  let yearOfEra := (dayOfEra - dayOfEra / 1460 + dayOfEra / 36524 - dayOfEra / 146096) / 365
  let dayOfYear := dayOfEra - daysBeforeYear yearOfEra
  let month := (5 * dayOfYear + 2) / 153
  let year := yearOfEra + n / eraDays * 400
  { year := if month < 10 then year else year + 1
    month := (if month < 10 then month + 3 else month - 9).toNat
    day := (dayOfYear - daysBeforeMonth month + 1).toNat }

end Date

end RoundTrip
