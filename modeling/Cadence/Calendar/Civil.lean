import Cadence.Calendar.Month

/-!
# Years, months and days

The proleptic Gregorian calendar as arithmetic on day numbers.  Day `0` is the first of January of
the year 1, a Monday; day numbers and years go below zero without a gap.

* `startOfYear` is the day number of the first of January: `365` days a year, and one more for each
  leap year that has passed.
* `yearOf` undoes it by division into cycles of 400, 100, 4 and 1 years, so that a year holds
  exactly the days from its own start to the next one's.
* `Civil.dayNumber` and `Civil.ofDayNumber` pass between a day number and a year, month and day.
-/

namespace Cadence

/-- Every fourth year is a leap year, but of the centuries only every fourth. -/
def isLeapYear (year : Int) : Bool :=
  year % 4 = 0 && (year % 100 ≠ 0 || year % 400 = 0)

def yearLength (year : Int) : Nat := if isLeapYear year then 366 else 365

def startOfYear (year : Int) : Int :=
  let passed := year - 1
  365 * passed + passed / 4 - passed / 100 + passed / 400

def yearOf (dayNumber : Int) : Int :=
  let inCycle := dayNumber % 146097
  -- The last day of the 400 years, and of every four, belongs to the period that it closes.
  let centuries := min 3 (inCycle / 36524)
  let inCentury := inCycle - 36524 * centuries
  let inFour := inCentury % 1461
  400 * (dayNumber / 146097) + 100 * centuries + 4 * (inCentury / 1461) + min 3 (inFour / 365) + 1

/-- A day as it is written: a year, a month and a day of the month. -/
structure Civil where
  year : Int
  month : Month
  day : Nat
deriving DecidableEq, Repr

namespace Civil

def IsValid (date : Civil) : Prop :=
  1 ≤ date.day ∧ date.day ≤ date.month.length (isLeapYear date.year)

instance (date : Civil) : Decidable date.IsValid :=
  inferInstanceAs (Decidable (_ ∧ _))

def dayNumber (date : Civil) : Int :=
  startOfYear date.year + date.month.daysBefore (isLeapYear date.year) + date.day - 1

def ofDayNumber (dayNumber : Int) : Civil :=
  let year := yearOf dayNumber
  let (month, before) := Month.locate (isLeapYear year) (dayNumber - startOfYear year).toNat
  { year, month, day := before + 1 }

end Civil

end Cadence
