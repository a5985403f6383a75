namespace Listing.Calendar

structure Date where
  year : Int
  month : Nat
  day : Nat
  deriving DecidableEq, Repr

def isLeap (year : Int) : Bool := (year % 4 = 0 && year % 100 ≠ 0) || year % 400 = 0

def daysIn (year : Int) (month : Nat) : Nat :=
  if month = 2 then if isLeap year then 29 else 28
  else if month = 4 ∨ month = 6 ∨ month = 9 ∨ month = 11 then 30
  else 31

def leastYear : Int := -262143

def greatestYear : Int := 262142

def date? (year : Int) (month day : Nat) : Option Date :=
  if leastYear ≤ year ∧ year ≤ greatestYear ∧ 1 ≤ month ∧ month ≤ 12 ∧ 1 ≤ day ∧
      day ≤ daysIn year month then
    some ⟨year, month, day⟩
  else none

/-- Days from the first of March of the year 0 to the first of January 2000. -/
def epoch : Int := 730425

/-- Years are taken to begin in March, so that a leap day is the last day of one. -/
def Date.toDays (d : Date) : Int :=
  let year : Int := if d.month ≤ 2 then d.year - 1 else d.year
  let month : Nat := (d.month + 9) % 12
  let dayOfYear : Nat := (153 * month + 2) / 5 + d.day - 1
  365 * year + year / 4 - year / 100 + year / 400 + dayOfYear - epoch

def Date.ofDays (days : Int) : Date :=
  let n := days + epoch
  let era := n / 146097
  let dayOfEra := (n % 146097).toNat
  let yearOfEra :=
    (dayOfEra - dayOfEra / 1460 + dayOfEra / 36524 - dayOfEra / 146096) / 365
  let dayOfYear := dayOfEra - (365 * yearOfEra + yearOfEra / 4 - yearOfEra / 100)
  let month := (5 * dayOfYear + 2) / 153
  let day := dayOfYear - (153 * month + 2) / 5 + 1
  let year : Int := era * 400 + yearOfEra
  if month < 10 then ⟨year, month + 3, day⟩ else ⟨year + 1, month - 9, day⟩

def Date.ofDays? (days : Int) : Option Date :=
  let d := Date.ofDays days
  if leastYear ≤ d.year ∧ d.year ≤ greatestYear then some d else none

/-- A second of a day. A leap second is the one before it with a thousand million nanoseconds
more. -/
structure Time where
  second : Nat
  nano : Nat
  deriving DecidableEq, Repr

def Time.midnight : Time := ⟨0, 0⟩

def secondsOfDay : Nat := 86400

def nanosPerSecond : Nat := 1000000000

def Time.of (hour minute second nano : Nat) : Time :=
  let start := 3600 * hour + 60 * minute
  if second = 60 then ⟨start + 59, nano + nanosPerSecond⟩ else ⟨start + second, nano⟩

structure Moment where
  day : Int
  time : Time
  deriving DecidableEq, Repr

namespace Moment

def ofDate (d : Date) : Moment := ⟨d.toDays, .midnight⟩

def back (m : Moment) (seconds : Int) : Moment :=
  let s := (m.time.second : Int) - seconds
  ⟨m.day + s / secondsOfDay, ⟨(s % secondsOfDay).toNat, m.time.nano⟩⟩

/-- Whole microseconds from the start of 2000, rounded toward it. -/
def toMicros (m : Moment) : Int :=
  ((m.day * secondsOfDay + m.time.second) * nanosPerSecond + m.time.nano).tdiv 1000

def ofMicros (micros : Int) : Moment :=
  let seconds := micros / 1000000
  ⟨seconds / secondsOfDay,
    ⟨(seconds % secondsOfDay).toNat, (micros % 1000000).toNat * 1000⟩⟩

end Moment

end Listing.Calendar
