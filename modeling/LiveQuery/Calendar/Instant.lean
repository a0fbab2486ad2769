set_option autoImplicit false

namespace LiveQuery

/-- A second since the epoch and the nanoseconds within it. From a thousand million on the
nanoseconds count into a leap second that follows this one. -/
structure Instant where
  seconds : Int
  nanos : Nat
  nanos_lt : nanos < 2 * 1000000000
  deriving DecidableEq

namespace Instant

def nanosPerSecond : Nat := 1000000000

/-- Seconds first, nanoseconds second. -/
def compare (a b : Instant) : Ordering :=
  (Ord.compare a.seconds b.seconds).then (Ord.compare a.nanos b.nanos)

end Instant

/-- A day of the Gregorian calendar; `valid` tells whether it exists. -/
structure Date where
  year : Int
  month : Nat
  day : Nat
  deriving DecidableEq

namespace Date

def isLeapYear (year : Int) : Bool :=
  year % 4 = 0 && (year % 100 != 0 || year % 400 = 0)

def daysInMonth (year : Int) (month : Nat) : Nat :=
  match month with
  | 2 => if isLeapYear year then 29 else 28
  | 4 | 6 | 9 | 11 => 30
  | _ => 31

def valid (date : Date) : Bool :=
  1 ≤ date.month && date.month ≤ 12 && 1 ≤ date.day &&
    date.day ≤ daysInMonth date.year date.month

/-- Days since 1970-01-01. Years are counted from March, so that a leap day ends its year. -/
def toDays (date : Date) : Int :=
  let year := if date.month ≤ 2 then date.year - 1 else date.year
  let era := year / 400
  let yearOfEra := year % 400
  let monthFromMarch : Int := ((date.month : Int) + 9) % 12
  let dayOfYear := (153 * monthFromMarch + 2) / 5 + date.day - 1
  let dayOfEra := yearOfEra * 365 + yearOfEra / 4 - yearOfEra / 100 + dayOfYear
  era * 146097 + dayOfEra - 719468

/-- The day that lies so many days after 1970-01-01. -/
def ofDays (days : Int) : Date :=
  let shifted := days + 719468
  let era := shifted / 146097
  let dayOfEra := shifted % 146097
  let yearOfEra := (dayOfEra - dayOfEra / 1460 + dayOfEra / 36524 - dayOfEra / 146096) / 365
  let dayOfYear := dayOfEra - (365 * yearOfEra + yearOfEra / 4 - yearOfEra / 100)
  let monthFromMarch := (5 * dayOfYear + 2) / 153
  let day := dayOfYear - (153 * monthFromMarch + 2) / 5 + 1
  let month := if monthFromMarch < 10 then monthFromMarch + 3 else monthFromMarch - 9
  let year := yearOfEra + era * 400
  ⟨if month ≤ 2 then year + 1 else year, month.toNat, day.toNat⟩

end Date

/-- A time of day to the second. Second 60 is a leap second. -/
structure TimeOfDay where
  hour : Nat
  minute : Nat
  second : Nat
  deriving DecidableEq

namespace TimeOfDay

def valid (time : TimeOfDay) : Bool := time.hour < 24 && time.minute < 60 && time.second ≤ 60

end TimeOfDay

namespace Instant

def secondsPerDay : Int := 86400

/-- The years that a date may lie in. -/
def firstYear : Int := -262143
def lastYear : Int := 262142

/-- The instant at a local date and time, `offset` seconds ahead of UTC. Second 60 continues
second 59. -/
def ofFields? (date : Date) (time : TimeOfDay) (nanos : Nat) (offset : Int) : Option Instant :=
  if date.valid && time.valid && firstYear ≤ date.year && date.year ≤ lastYear then
    let leap := time.second = 60
    let second := if leap then 59 else time.second
    let seconds :=
      date.toDays * secondsPerDay + (time.hour * 3600 + time.minute * 60 + second : Nat)
    let nanos := if leap then nanos + nanosPerSecond else nanos
    if inRange : nanos < 2 * 1000000000 then some ⟨seconds - offset, nanos, inRange⟩ else none
  else none

def date (instant : Instant) : Date := Date.ofDays (instant.seconds / secondsPerDay)

/-- The time of day in UTC; within a leap second the second is one more. -/
def timeOfDay (instant : Instant) : TimeOfDay :=
  let seconds := (instant.seconds % secondsPerDay).toNat
  { hour := seconds / 3600
    minute := seconds / 60 % 60
    second := seconds % 60 + instant.nanos / nanosPerSecond }

def subsecondNanos (instant : Instant) : Nat := instant.nanos % nanosPerSecond

end Instant

end LiveQuery
