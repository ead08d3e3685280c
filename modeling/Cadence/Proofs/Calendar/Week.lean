import Cadence.Calendar.Date
import Cadence.Proofs.Calendar.WeekdaySet

/-!
# Weekdays of dates

The weekday of a date is its day number modulo seven, so the number of days from one weekday forward
to another is the distance of any two dates with these weekdays, modulo seven.
-/

namespace Cadence

namespace Weekday

/-- The number of days, up to six, from a weekday forward to another. -/
def daysUntil (start day : Weekday) : Nat := (day.index + 7 - start.index) % 7

/-- The weekday so many days after a weekday. -/
def later (start : Weekday) (days : Nat) : Weekday := ofIndex (start.index + days)

variable {start day : Weekday}

theorem daysUntil_lt : start.daysUntil day < 7 := Nat.mod_lt _ (by decide)

end Weekday

namespace Date

variable {start date : Date} {day : Weekday}

theorem index_weekday (date : Date) : (date.weekday.index : Int) = date.dayNumber % 7 := by
  rw [weekday, Weekday.index_ofIndex]
  omega

theorem weekday_eq_iff : date.weekday = day ↔ date.dayNumber % 7 = day.index := by
  rw [← index_weekday]
  constructor
  · rintro rfl
    rfl
  · exact fun same => Weekday.index_injective (Int.ofNat_inj.mp same)

theorem daysUntil_weekday (start date : Date) :
    (start.weekday.daysUntil date.weekday : Int) = start.daysBetween date % 7 := by
  have startIndex := index_weekday start
  have dateIndex := index_weekday date
  rw [Weekday.daysUntil, daysBetween]
  omega

theorem weekday_of_daysUntil
    (distance : date.dayNumber = start.dayNumber + start.weekday.daysUntil day) :
    date.weekday = day := by
  have startIndex := index_weekday start
  have bound := day.index_lt
  rw [weekday_eq_iff, distance, Weekday.daysUntil]
  omega

theorem weekday_eq_later {days : Nat} (distance : date.dayNumber = start.dayNumber + days) :
    date.weekday = start.weekday.later (days % 7) := by
  have startIndex := index_weekday start
  rw [weekday_eq_iff, distance, Weekday.later, Weekday.index_ofIndex]
  omega

end Date

end Cadence
