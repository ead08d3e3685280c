import Cadence.Calendar.Civil
import Cadence.Calendar.Weekday

/-!
# Dates

A date is a day number within the calendar that the library serves, which runs from the first of
January of the year -262143 to the last of December of the year 262142.  Moving past either end
fails, so the arithmetic of dates is arithmetic of integers with a bound.
-/

namespace Cadence

def firstYear : Int := -262143

def lastYear : Int := 262142

def firstDay : Int := startOfYear firstYear

def lastDay : Int := startOfYear (lastYear + 1) - 1

/-- A date of the calendar, as a day number. -/
@[ext] structure Date where
  dayNumber : Int
  inCalendar : firstDay ≤ dayNumber ∧ dayNumber ≤ lastDay
deriving DecidableEq

namespace Date

/-- The date with the given day number, if the calendar reaches it. -/
def ofDayNumber? (dayNumber : Int) : Option Date :=
  if inCalendar : firstDay ≤ dayNumber ∧ dayNumber ≤ lastDay then some ⟨dayNumber, inCalendar⟩
  else none

/-- The date with the given year, month and day, if there is one. -/
def ofCivil? (date : Civil) : Option Date :=
  if date.IsValid then ofDayNumber? date.dayNumber else none

/-- The date with the given year, month number and day, if there is one. -/
def ofYearMonthDay? (year : Int) (month day : Nat) : Option Date := do
  ofCivil? { year, month := ← Month.ofNumber? month, day }

def civil (date : Date) : Civil := Civil.ofDayNumber date.dayNumber

def year (date : Date) : Int := date.civil.year

def month (date : Date) : Month := date.civil.month

def day (date : Date) : Nat := date.civil.day

/-- The weekday.  Day `0` is a Monday. -/
def weekday (date : Date) : Weekday := .ofIndex (date.dayNumber % 7).toNat

/-- The date `days` days later, if the calendar reaches it. -/
def addDays? (date : Date) (days : Nat) : Option Date :=
  ofDayNumber? (date.dayNumber + days)

/-- The day before, if the calendar reaches it. -/
def pred? (date : Date) : Option Date := ofDayNumber? (date.dayNumber - 1)

/-- The first of the month that follows the one of the date, if the calendar reaches it. -/
def firstOfNextMonth? (date : Date) : Option Date :=
  if date.month.number = 12 then ofYearMonthDay? (date.year + 1) 1 1
  else ofYearMonthDay? date.year (date.month.number + 1) 1

/-- The number of days of the month that the date lies in, as the day before the next month. -/
def daysInMonth (date : Date) : Nat :=
  match date.firstOfNextMonth? >>= pred? with
  | some last => last.day
  -- No month follows the last December of the calendar.
  | none => 31

/-- How many days `later` lies after `earlier`; negative if it lies before. -/
def daysBetween (earlier later : Date) : Int := later.dayNumber - earlier.dayNumber

instance : LT Date where
  lt a b := a.dayNumber < b.dayNumber

instance : LE Date where
  le a b := a.dayNumber ≤ b.dayNumber

instance (a b : Date) : Decidable (a < b) :=
  inferInstanceAs (Decidable (a.dayNumber < b.dayNumber))

instance (a b : Date) : Decidable (a ≤ b) :=
  inferInstanceAs (Decidable (a.dayNumber ≤ b.dayNumber))

theorem lt_iff {a b : Date} : a < b ↔ a.dayNumber < b.dayNumber := Iff.rfl

theorem le_iff {a b : Date} : a ≤ b ↔ a.dayNumber ≤ b.dayNumber := Iff.rfl

theorem ofDayNumber?_eq_some_iff {n : Int} {date : Date} :
    ofDayNumber? n = some date ↔ date.dayNumber = n := by
  unfold ofDayNumber?
  split
  · simp only [Option.some.injEq, Date.ext_iff]
    exact eq_comm
  · simp only [reduceCtorEq, false_iff]
    rintro rfl
    exact absurd date.inCalendar ‹_›

@[simp] theorem ofDayNumber?_dayNumber (date : Date) :
    ofDayNumber? date.dayNumber = some date :=
  ofDayNumber?_eq_some_iff.2 rfl

theorem addDays?_eq_some_iff {date later : Date} {days : Nat} :
    date.addDays? days = some later ↔ later.dayNumber = date.dayNumber + days :=
  ofDayNumber?_eq_some_iff

end Date

end Cadence
