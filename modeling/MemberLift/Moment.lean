import MemberLift.Text.Basic

/-!
Moments of universal time, and the two ways in which they are written: a stamp for names of files,
and a text for reports.
-/
namespace MemberLift

structure Moment where
  year : Nat
  month : Nat
  day : Nat
  hour : Nat
  minute : Nat
  second : Nat
  nanosecond : Nat
  deriving DecidableEq, Repr

namespace Moment

def daysOfEra : Nat := 146097

/-- The days from the first of March of the year zero to the first of January of the year 1970. -/
def daysBeforeEpoch : Nat := 719468

/-- The year, month and day a number of days after the epoch.  Years are counted from March on, so
that a leap day is the last of its year. -/
def dateOf (days : Nat) : Nat × Nat × Nat :=
  let shifted := days + daysBeforeEpoch
  let era := shifted / daysOfEra
  let dayOfEra := shifted % daysOfEra
  let yearOfEra :=
    (dayOfEra - dayOfEra / 1460 + dayOfEra / 36524 - dayOfEra / 146096) / 365
  let dayOfYear := dayOfEra - (365 * yearOfEra + yearOfEra / 4 - yearOfEra / 100)
  let monthFromMarch := (5 * dayOfYear + 2) / 153
  let day := dayOfYear - (153 * monthFromMarch + 2) / 5 + 1
  let month := if monthFromMarch < 10 then monthFromMarch + 3 else monthFromMarch - 9
  let year := yearOfEra + 400 * era
  (if month ≤ 2 then year + 1 else year, month, day)

-- the last day of a February in a leap year
example : dateOf 19782 = (2024, 2, 29) := by decide

def ofNanoseconds (n : Nat) : Moment :=
  let seconds := n / 1000000000
  let (year, month, day) := dateOf (seconds / 86400)
  { year, month, day
    hour := seconds / 3600 % 24
    minute := seconds / 60 % 60
    second := seconds % 60
    nanosecond := n % 1000000000 }

/-- A number with at least as many digits as asked for. -/
def padded (digits n : Nat) : Text :=
  let t := Text.ofNat n
  List.replicate (digits - t.length) '0' ++ t

def stamp (m : Moment) : Text :=
  padded 4 m.year ++ padded 2 m.month ++ padded 2 m.day ++ '_' :: padded 2 m.hour ++
    padded 2 m.minute ++ padded 2 m.second ++ '_' :: padded 3 (m.nanosecond / 1000000)

def fraction (nanosecond : Nat) : Text :=
  if nanosecond = 0 then []
  else if nanosecond % 1000000 = 0 then '.' :: padded 3 (nanosecond / 1000000)
  else if nanosecond % 1000 = 0 then '.' :: padded 6 (nanosecond / 1000)
  else '.' :: padded 9 nanosecond

def text (m : Moment) : Text :=
  padded 4 m.year ++ '-' :: padded 2 m.month ++ '-' :: padded 2 m.day ++ 'T' :: padded 2 m.hour ++
    ':' :: padded 2 m.minute ++ ':' :: padded 2 m.second ++ fraction m.nanosecond ++ ['Z']

end Moment

end MemberLift
