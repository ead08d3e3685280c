import Cadence.Proofs.Calendar.Next
import Mathlib.Data.List.Sort

/-!
# The dates of a month

`Date.inMonth` lists the dates of a month, and `Date.weekdayInMonth` those of them that fall on a
weekday.  The latter lie seven days apart from the first week of the month to its last one
(`Date.day_weekdayInMonth`), which is all that rules for a weekday of the month count on.
-/

namespace Cadence

namespace Date

variable {date : Date} {year : Int} {month : Month} {weekday : Weekday}

/-! ## Within a month -/

/-- The dates of a month, in order. -/
def inMonth (year : Int) (month : Month) : List Date :=
  (List.range (month.length (isLeapYear year))).filterMap fun before =>
    ofCivil? { year, month, day := before + 1 }

/-- The dates of a month that fall on a weekday, in order. -/
def weekdayInMonth (year : Int) (month : Month) (weekday : Weekday) : List Date :=
  (inMonth year month).filter (·.weekday = weekday)

theorem mem_inMonth : date ∈ inMonth year month ↔ date.year = year ∧ date.month = month := by
  simp only [inMonth, List.mem_filterMap, List.mem_range, ofCivil?_eq_some_iff]
  constructor
  · rintro ⟨before, _, civil⟩
    rw [Date.year, Date.month, civil]
    exact ⟨rfl, rfl⟩
  · rintro ⟨rfl, rfl⟩
    obtain ⟨positive, within⟩ := date.day_bounds
    exact ⟨date.day - 1, by omega, by rw [Nat.sub_add_cancel positive]; rfl⟩

/-- Within a month dates are in the order of their days. -/
theorem lt_iff_day_lt {later : Date} (sameYear : date.year = later.year)
    (sameMonth : date.month = later.month) : date < later ↔ date.day < later.day := by
  have number := date.dayNumber_eq
  have laterNumber := later.dayNumber_eq
  rw [sameYear, sameMonth] at number
  rw [lt_iff]
  omega

theorem inMonth_sorted (year : Int) (month : Month) : (inMonth year month).Pairwise (· < ·) := by
  refine List.Pairwise.filterMap _ ?_ List.pairwise_lt_range
  intro before after lt date found later foundLater
  have civil := ofCivil?_eq_some_iff.mp found
  have laterCivil := ofCivil?_eq_some_iff.mp foundLater
  rw [lt_iff_day_lt]
  · rw [Date.day, Date.day, civil, laterCivil]
    exact Nat.succ_lt_succ lt
  · rw [Date.year, Date.year, civil, laterCivil]
  · rw [Date.month, Date.month, civil, laterCivil]

theorem mem_weekdayInMonth :
    date ∈ weekdayInMonth year month weekday ↔
      (date.year = year ∧ date.month = month) ∧ date.weekday = weekday := by
  rw [weekdayInMonth, List.mem_filter, mem_inMonth, decide_eq_true_eq]

theorem weekdayInMonth_sorted (year : Int) (month : Month) (weekday : Weekday) :
    (weekdayInMonth year month weekday).Pairwise (· < ·) :=
  (inMonth_sorted year month).filter _

/-- Every civil date of the calendar's years is a date. -/
theorem exists_civil {civil : Civil} (valid : civil.IsValid)
    (inRange : firstYear ≤ civil.year ∧ civil.year ≤ lastYear) :
    ∃ date : Date, date.civil = civil := by
  have start := Civil.startOfYear_le_dayNumber valid
  have stop := Civil.dayNumber_lt_startOfYear valid
  have first : firstDay ≤ startOfYear civil.year := startOfYear_mono inRange.1
  have last : startOfYear (civil.year + 1) - 1 ≤ lastDay :=
    Int.sub_le_sub_right (startOfYear_mono (Int.add_le_add_right inRange.2 1)) 1
  obtain ⟨date, reached⟩ := @exists_dayNumber civil.dayNumber (by omega) (by omega)
  exact ⟨date, (civil_eq_iff valid).mpr reached⟩

theorem days_weekdayInMonth_sorted :
    ((weekdayInMonth year month weekday).map day).Pairwise (· < ·) := by
  rw [List.pairwise_map]
  refine (weekdayInMonth_sorted year month weekday).imp_of_mem ?_
  intro date later member laterMember lt
  obtain ⟨⟨rfl, rfl⟩, _⟩ := mem_weekdayInMonth.mp member
  obtain ⟨⟨sameYear, sameMonth⟩, _⟩ := mem_weekdayInMonth.mp laterMember
  exact (lt_iff_day_lt sameYear.symm sameMonth.symm).mp lt

theorem days_weekdayInMonth (inRange : firstYear ≤ year ∧ year ≤ lastYear) (month : Month)
    (weekday : Weekday) :
    ∃ before < 7, (weekdayInMonth year month weekday).map day =
      (List.range ((month.length (isLeapYear year) + 6 - before) / 7)).map fun i =>
        before + 7 * i + 1 := by
  have long := month.le_length (isLeapYear year)
  obtain ⟨first, civil⟩ := @exists_civil ⟨year, month, 1⟩
    ⟨Nat.le_refl 1, Nat.le_trans (show 1 ≤ 28 by decide) long⟩ inRange
  have start : (Civil.mk year month 1).dayNumber = first.dayNumber := by
    rw [← civil, Date.civil, Civil.dayNumber_ofDayNumber]
  have short := @Weekday.daysUntil_lt first.weekday weekday
  generalize beforeEq : first.weekday.daysUntil weekday = before at short
  refine ⟨before, short, days_weekdayInMonth_sorted.eq_of_mem_iff ?_ fun n => ?_⟩
  · rw [List.pairwise_map]
    exact List.pairwise_lt_range.imp fun lt => by omega
  simp only [List.mem_map, List.mem_range, mem_weekdayInMonth]
  constructor
  · rintro ⟨date, ⟨⟨rfl, rfl⟩, rfl⟩, rfl⟩
    have number := date.dayNumber_eq
    have residue := daysUntil_weekday first date
    obtain ⟨positive, within⟩ := date.day_bounds
    rw [daysBetween, beforeEq] at residue
    exact ⟨(date.day - 1) / 7, by omega, by omega⟩
  · rintro ⟨i, bound, rfl⟩
    obtain ⟨date, civil⟩ := @exists_civil ⟨year, month, before + 7 * i + 1⟩
      ⟨Nat.le_add_left 1 _, by simp only; omega⟩ inRange
    have number := Civil.dayNumber_in_month year month (before + 7 * i)
    rw [← civil, Date.civil, Civil.dayNumber_ofDayNumber, start] at number
    have residue : first.daysBetween date % 7 = first.weekday.daysUntil weekday := by
      rw [daysBetween, beforeEq]
      omega
    refine ⟨date, ⟨?_, weekday_of_emod residue⟩, congrArg Civil.day civil⟩
    exact ⟨congrArg Civil.year civil, congrArg Civil.month civil⟩

/-- The dates of a month with a weekday lie seven days apart, the first of them in the first seven
days of the month and the last of them in the last seven. -/
theorem day_weekdayInMonth (inRange : firstYear ≤ year ∧ year ≤ lastYear) {dates : List Date}
    (all : weekdayInMonth year month weekday = dates) :
    ∃ before < 7, 7 * dates.length + before < month.length (isLeapYear year) + 7 ∧
      month.length (isLeapYear year) ≤ 7 * dates.length + before ∧
      ∀ (i : Nat) (bound : i < dates.length), dates[i].day = before + 7 * i + 1 := by
  obtain ⟨before, short, days⟩ := days_weekdayInMonth inRange month weekday
  rw [all] at days
  have length := congrArg List.length days
  rw [List.length_map, List.length_map, List.length_range] at length
  refine ⟨before, short, by omega, by omega, fun i bound => ?_⟩
  have same := List.getElem_of_eq days (by rwa [List.length_map])
  simpa using same

end Date

end Cadence
