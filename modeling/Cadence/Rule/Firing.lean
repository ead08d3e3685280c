import Cadence.Calendar.Date
import Cadence.Rule.Basic

/-!
# The days on which a rule fires

`Rule.firesOn` tests one date.  Intervals count from the anchor of the series, a date that the
series itself never shows: days for a daily rule, blocks of seven days for a weekly one.  Dates
before the anchor take part in the same count, so the test is periodic on both sides.

Two points are open to choice and make up the `FiringOptions`: whether the interval of a weekly rule
gates its weeks or is for display alone, and what a rule for February 29 does in common years.
-/

namespace Cadence

/-- What the interval of a weekly rule does. -/
inductive WeeklyInterval where
  /-- Nothing: the rule fires every week. -/
  | ignore
  /-- The rule fires in every so many blocks of seven days from the anchor. -/
  | everyNthWeek
deriving DecidableEq, Repr

/-- When a rule for February 29 fires in a common year. -/
inductive LeapDay where
  | skip
  | february28
  | march1
deriving DecidableEq, Repr

namespace WeeklyInterval

def all : List WeeklyInterval := [.ignore, .everyNthWeek]

def name : WeeklyInterval → String
  | .ignore => "ignore"
  | .everyNthWeek => "every_nth_week"

def ofName? (name : String) : Option WeeklyInterval := all.find? (·.name == name)

@[simp] theorem ofName?_name (choice : WeeklyInterval) : ofName? choice.name = some choice := by
  cases choice <;> decide

end WeeklyInterval

namespace LeapDay

def all : List LeapDay := [.skip, .february28, .march1]

def name : LeapDay → String
  | .skip => "skip"
  | .february28 => "feb28"
  | .march1 => "mar1"

def ofName? (name : String) : Option LeapDay := all.find? (·.name == name)

@[simp] theorem ofName?_name (choice : LeapDay) : ofName? choice.name = some choice := by
  cases choice <;> decide

end LeapDay

/-- The points of a rule's meaning that are open to choice. -/
structure FiringOptions where
  weeklyInterval : WeeklyInterval := .ignore
  leapDay : LeapDay := .skip
deriving DecidableEq, Repr

/-- Whether a day of a month of the given length is the one that the ordinal selects among the dates
with its weekday. -/
def Ordinal.selects (ordinal : Ordinal) (monthLength day : Nat) : Bool :=
  match ordinal with
  -- The last one is the fifth if the month has five of them.
  | .last => monthLength < day + 7
  | ordinal => (day + 6) / 7 = ordinal.number

/-- Whether the date takes the place of February 29 in a common year. -/
def LeapDay.substitutes (policy : LeapDay) (month : Month) (day : Nat) : Bool :=
  match policy with
  | .skip => false
  | .february28 => month = .february && day = 28
  | .march1 => month = .march && day = 1

namespace Rule

/-- Whether the rule fires on `date` in a series with the given anchor. -/
def firesOn (rule : Rule) (options : FiringOptions) (anchor date : Date) : Bool :=
  let days := anchor.daysBetween date
  match rule with
  | .daily interval => days % interval.value = 0
  | .weekdays => date.weekday.isWorkday
  | .weekly interval selected =>
    selected.contains date.weekday &&
      match options.weeklyInterval with
      | .ignore => true
      -- The quotient is rounded down, so the days before the anchor make up blocks as well.
      | .everyNthWeek => days / 7 % interval.value = 0
  | .dayOfMonth day => date.day = day
  | .weekdayOfMonth ordinal weekday =>
    date.weekday = weekday && ordinal.selects date.daysInMonth date.day
  | .anniversary month day =>
    date.month = month && date.day = day ||
      month = .february && day = 29 && !isLeapYear date.year &&
        options.leapDay.substitutes date.month date.day

end Rule

end Cadence
