/-!
# Days and dates

Dates of the Gregorian calendar, extended to all years, and days counted from the first of January
1970, from where moments count seconds in universal time. This is what date libraries document for
the proleptic calendar: no leap seconds, the weeks of ISO 8601, and a bounded range of years.
-/

namespace PhpScript

namespace Calendar

/-- A day by its year, month and day of the month. -/
structure Date where
  year : Int
  month : Nat
  day : Nat
deriving DecidableEq, Inhabited

def isLeapYear (year : Int) : Bool :=
  year % 4 = 0 && (year % 100 ≠ 0 || year % 400 = 0)

def monthLengths (isLeap : Bool) : List Nat :=
  [31, if isLeap then 29 else 28, 31, 30, 31, 30, 31, 31, 30, 31, 30, 31]

def monthLength (year : Int) (month : Nat) : Nat :=
  (monthLengths (isLeapYear year)).getD (month - 1) 31

/-- The days from 1970 to the start of a year. -/
def daysToYear (year : Int) : Int :=
  let before := year - 1
  365 * before + before / 4 - before / 100 + before / 400 - 719162

/-- The days from the start of a year to that of a month. -/
def daysToMonth (year : Int) (month : Nat) : Nat :=
  ((monthLengths (isLeapYear year)).take (month - 1)).foldl (· + ·) 0

/-- The day with a date. -/
def dayOf (date : Date) : Int :=
  daysToYear date.year + daysToMonth date.year date.month + (date.day - 1 : Nat)

/-- The year that holds a day. The mean length of years gives a year that is off by one at most. -/
def yearOf (day : Int) : Int :=
  let estimate := (400 * (day + 719162)) / 146097 + 1
  if day < daysToYear estimate then estimate - 1
  else if daysToYear (estimate + 1) ≤ day then estimate + 1
  else estimate

/-- The month and the day, both counted from one, of a day counted from the beginning of a year
whose months from `month` on have the given lengths. -/
def monthAndDay (month : Nat) : List Nat → Nat → Nat × Nat
  | [], day => (month, day + 1)
  | length :: rest, day =>
    if day < length || rest.isEmpty then (month, day + 1)
    else monthAndDay (month + 1) rest (day - length)

def date (day : Int) : Date :=
  let year := yearOf day
  let (month, dayOfMonth) :=
    monthAndDay 1 (monthLengths (isLeapYear year)) (day - daysToYear year).toNat
  ⟨year, month, dayOfMonth⟩

def dayOfYear (day : Int) : Nat := (day - daysToYear (yearOf day)).toNat

/-- The day of the week, counted from Sunday, which is zero. -/
def weekday (day : Int) : Nat := ((day + 4) % 7).toNat

def weekdayFromMonday (day : Int) : Nat := ((day + 3) % 7).toNat

/-- The year and the number of a day's week. A week belongs to the year that holds its Thursday. -/
def week (day : Int) : Int × Nat :=
  let thursday := day - weekdayFromMonday day + 3
  (yearOf thursday, dayOfYear thursday / 7 + 1)

/-- The years of which dates are known, up to `lastYear`. -/
def firstYear : Int := -262143

def lastYear : Int := 262142

def secondsPerDay : Int := 86400

end Calendar

/-- A point in time: seconds since the beginning of 1970, and microseconds of the next one. -/
structure Moment where
  seconds : Int
  microseconds : Nat := 0
deriving DecidableEq, Inhabited

namespace Moment

def day (moment : Moment) : Int := moment.seconds / Calendar.secondsPerDay

def secondOfDay (moment : Moment) : Nat := (moment.seconds % Calendar.secondsPerDay).toNat

def date (moment : Moment) : Calendar.Date := Calendar.date moment.day

def hour (moment : Moment) : Nat := moment.secondOfDay / 3600

def minute (moment : Moment) : Nat := moment.secondOfDay / 60 % 60

def second (moment : Moment) : Nat := moment.secondOfDay % 60

/-- The moment of a number of seconds; outside the years that dates can have it is the beginning of
1970. -/
def ofSeconds (seconds : Int) : Moment :=
  let day := seconds / Calendar.secondsPerDay
  if Calendar.daysToYear Calendar.firstYear ≤ day
      && day < Calendar.daysToYear (Calendar.lastYear + 1) then ⟨seconds, 0⟩
  else ⟨0, 0⟩

/-- One microsecond later. -/
def next (moment : Moment) : Moment :=
  if moment.microseconds < 999999 then { moment with microseconds := moment.microseconds + 1 }
  else ⟨moment.seconds + 1, 0⟩

end Moment

end PhpScript
