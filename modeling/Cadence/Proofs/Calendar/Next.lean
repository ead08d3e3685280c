import Cadence.Proofs.Calendar.Civil
import Cadence.Proofs.Calendar.Week
import Cadence.Rule.Firing

/-!
# The next year, month and weekday

How many days pass at most before a year, a leap year or a month starts, and before a weekday comes.

* `exists_startOfYear_after` and `exists_leapYear_after`: a year starts within 366 days and a leap
  year within 2921, eight years of which only the first is a leap year.
* `exists_firstOfMonth_after` and `Civil.dayNumber_in_month`: a month starts within 31 days, and the
  days of the month count on from there.
* `Date.daysInMonth_eq`: the day before the next month has the length of the month for its number,
  and so has the default at the end of the calendar.
* `Ordinal.exists_week`: an ordinal selects seven days in a row of every month.
* `Date.exists_weekday_within`: seven days in a row have every weekday.
-/

namespace Cadence

/-! ## Years -/

theorem exists_startOfYear_after (n : Int) :
    ∃ year, n < startOfYear year ∧ startOfYear year ≤ n + 366 := by
  have before := startOfYear_yearOf_le n
  have after := lt_startOfYear_yearOf n
  have length := startOfYear_succ (yearOf n)
  have short := yearLength_le (yearOf n)
  exact ⟨yearOf n + 1, after, by omega⟩

theorem startOfYear_mono {year later : Int} (le : year ≤ later) :
    startOfYear year ≤ startOfYear later := by
  rcases Int.lt_or_eq_of_le le with lt | rfl
  · have := startOfYear_of_lt lt
    omega
  · exact Int.le_refl _

theorem startOfYear_four_mul (fours : Int) :
    startOfYear (4 * fours) = 1461 * fours - 366 - (fours - 1) / 25 + (fours - 1) / 100 := by
  simp only [startOfYear]
  omega

theorem isLeapYear_four_mul {fours : Int} :
    isLeapYear (4 * fours) = true ↔ fours % 25 ≠ 0 ∨ fours % 100 = 0 := by
  simp only [isLeapYear, Bool.and_eq_true, Bool.or_eq_true, decide_eq_true_eq]
  omega

theorem exists_leapYear_after (n : Int) :
    ∃ year, isLeapYear year = true ∧ n < startOfYear year ∧ startOfYear year ≤ n + 2921 := by
  -- The day lies in the four years before the next one that four divides.
  obtain ⟨fours, before, after⟩ :
      ∃ fours, startOfYear (4 * fours) ≤ n ∧ n < startOfYear (4 * (fours + 1)) := by
    refine ⟨yearOf n / 4, ?_, ?_⟩
    · exact Int.le_trans (startOfYear_mono (by omega)) (startOfYear_yearOf_le n)
    · exact Int.lt_of_lt_of_le (lt_startOfYear_yearOf n) (startOfYear_mono (by omega))
  by_cases leap : isLeapYear (4 * (fours + 1)) = true
  · refine ⟨_, leap, after, ?_⟩
    rw [startOfYear_four_mul] at before ⊢
    omega
  · -- That year is a common century, and four years after one of these a leap year comes.
    rw [isLeapYear_four_mul] at leap
    refine ⟨4 * (fours + 2), isLeapYear_four_mul.mpr (by omega), ?_, ?_⟩
    · exact Int.lt_of_lt_of_le after (startOfYear_mono (by omega))
    · rw [startOfYear_four_mul] at before ⊢
      omega

/-! ## Months -/

namespace Month

variable {month : Month}

theorem length_le (leap : Bool) (month : Month) : month.length leap ≤ 31 := by
  cases leap <;> cases month <;> decide

theorem le_length (leap : Bool) (month : Month) : 28 ≤ month.length leap := by
  cases leap <;> cases month <;> decide

/-- Every month but the last is followed by one that starts where it stops. -/
theorem exists_next (other : month ≠ .december) :
    ∃ next : Month, ofNumber? (month.number + 1) = some next ∧
      ∀ leap, next.daysBefore leap = month.daysBefore leap + month.length leap := by
  cases month with
  | december => contradiction
  | _ => exact ⟨_, rfl, by decide⟩

theorem number_eq_twelve_iff : month.number = 12 ↔ month = .december := by
  cases month <;> decide

theorem daysBefore_december (year : Int) :
    december.daysBefore (isLeapYear year) + 31 = yearLength year := by
  unfold yearLength
  cases isLeapYear year <;> decide

end Month

theorem Civil.dayNumber_in_month (year : Int) (month : Month) (before : Nat) :
    (Civil.mk year month (before + 1)).dayNumber = (Civil.mk year month 1).dayNumber + before := by
  simp only [dayNumber]
  omega

theorem exists_firstOfMonth_after (n : Int) :
    ∃ year month, n < (Civil.mk year month 1).dayNumber ∧
      (Civil.mk year month 1).dayNumber ≤ n + 31 := by
  obtain ⟨⟨year, month, day⟩, ⟨positive, within⟩, rfl⟩ := Civil.exists_dayNumber n
  have short := month.length_le (isLeapYear year)
  by_cases last : month = .december
  · -- After December the year starts anew.
    subst last
    have stop := Month.daysBefore_december year
    have january : Month.january.daysBefore (isLeapYear (year + 1)) = 0 :=
      Month.daysBefore_of_early (.inl rfl)
    refine ⟨year + 1, .january, ?_⟩
    simp only [Civil.dayNumber, startOfYear_succ, january] at positive within ⊢
    simp only [Month.length] at within
    omega
  · obtain ⟨next, _, starts⟩ := Month.exists_next last
    refine ⟨year, next, ?_⟩
    simp only [Civil.dayNumber, starts] at positive within ⊢
    omega

namespace Ordinal

variable {ordinal : Ordinal} {monthLength day : Nat}

theorem selects_last : last.selects monthLength day = true ↔ monthLength < day + 7 :=
  decide_eq_true_iff

theorem selects_of_ne_last (other : ordinal ≠ .last) :
    ordinal.selects monthLength day = true ↔ (day + 6) / 7 = ordinal.number := by
  cases ordinal with
  | last => contradiction
  | first | second | third | fourth => exact decide_eq_true_iff

theorem number_of_ne_last (other : ordinal ≠ .last) :
    1 ≤ ordinal.number ∧ ordinal.number ≤ 4 := by
  revert other
  cases ordinal <;> decide

/-- An ordinal selects seven days in a row of every month. -/
theorem exists_week (ordinal : Ordinal) {monthLength : Nat} (long : 28 ≤ monthLength) :
    ∃ before, before + 7 ≤ monthLength ∧ ∀ day, day ≤ monthLength →
      (ordinal.selects monthLength day = true ↔ before < day ∧ day ≤ before + 7) := by
  by_cases last : ordinal = .last
  · subst last
    refine ⟨monthLength - 7, by omega, fun day within => ?_⟩
    rw [selects_last]
    omega
  · have range := number_of_ne_last last
    refine ⟨7 * (ordinal.number - 1), by omega, fun day _ => ?_⟩
    rw [selects_of_ne_last last]
    omega

end Ordinal

/-! ## Dates -/

namespace Date

theorem exists_dayNumber {n : Int} (first : firstDay ≤ n) (last : n ≤ lastDay) :
    ∃ date : Date, date.dayNumber = n :=
  ⟨⟨n, first, last⟩, rfl⟩

theorem day_bounds (date : Date) :
    1 ≤ date.day ∧ date.day ≤ date.month.length (isLeapYear date.year) :=
  Civil.isValid_ofDayNumber date.dayNumber

theorem dayNumber_eq (date : Date) :
    date.dayNumber + 1 = (Civil.mk date.year date.month 1).dayNumber + date.day := by
  obtain ⟨positive, within⟩ := date.day_bounds
  have civil : Civil.mk date.year date.month (date.day - 1 + 1) = date.civil := by
    rw [Nat.sub_add_cancel positive]
    rfl
  have number := Civil.dayNumber_in_month date.year date.month (date.day - 1)
  rw [civil, Date.civil, Civil.dayNumber_ofDayNumber] at number
  omega

theorem year_le_lastYear (date : Date) : date.year ≤ lastYear := by
  have start : startOfYear date.year ≤ date.dayNumber := startOfYear_yearOf_le date.dayNumber
  have stop : date.dayNumber ≤ startOfYear (lastYear + 1) - 1 := date.inCalendar.2
  have lt : date.year < lastYear + 1 := lt_of_startOfYear_lt (by omega)
  omega

/-- The next month starts where the month stops. -/
theorem firstOfNextMonth?_eq (date : Date) :
    date.firstOfNextMonth? = ofDayNumber? ((Civil.mk date.year date.month 1).dayNumber +
      date.month.length (isLeapYear date.year)) := by
  have first (year : Int) (month : Month) : (Civil.mk year month 1).IsValid :=
    ⟨Nat.le_refl 1, Nat.le_trans (show 1 ≤ 28 by decide) (month.le_length _)⟩
  unfold firstOfNextMonth?
  split
  · next last =>
    rw [Month.number_eq_twelve_iff] at last
    have stop := Month.daysBefore_december date.year
    have january : Month.january.daysBefore (isLeapYear (date.year + 1)) = 0 :=
      Month.daysBefore_of_early (.inl rfl)
    show ofCivil? ⟨date.year + 1, .january, 1⟩ = _
    rw [ofCivil?, if_pos (first _ _), last]
    simp only [Civil.dayNumber, startOfYear_succ, january, Month.length]
    congr 1
    omega
  · next last =>
    rw [Month.number_eq_twelve_iff] at last
    obtain ⟨next, number, starts⟩ := Month.exists_next last
    rw [ofYearMonthDay?, number]
    show ofCivil? ⟨date.year, next, 1⟩ = _
    rw [ofCivil?, if_pos (first _ _)]
    simp only [Civil.dayNumber, starts]
    congr 1
    omega

theorem month_eq_december_of_last (date : Date)
    (last : lastDay < (Civil.mk date.year date.month 1).dayNumber +
      date.month.length (isLeapYear date.year)) : date.month = .december := by
  by_contra other
  obtain ⟨next, _, starts⟩ := Month.exists_next other
  have within := Month.daysBefore_add_length_le date.year next
  have long := next.le_length (isLeapYear date.year)
  have inYear := startOfYear_mono (Int.add_le_add_right date.year_le_lastYear 1)
  rw [startOfYear_succ] at inYear
  simp only [lastDay, Civil.dayNumber, starts] at last within
  omega

/-- The day before the next month is the last of its month, so its number is the month's length. -/
theorem daysInMonth_eq (date : Date) :
    date.daysInMonth = date.month.length (isLeapYear date.year) := by
  obtain ⟨positive, within⟩ := date.day_bounds
  have number := date.dayNumber_eq
  have after := date.inCalendar.1
  unfold daysInMonth
  rw [firstOfNextMonth?_eq]
  by_cases inCalendar : (Civil.mk date.year date.month 1).dayNumber +
      date.month.length (isLeapYear date.year) ≤ lastDay
  · obtain ⟨first, firstNumber⟩ := @exists_dayNumber _ (by omega) inCalendar
    obtain ⟨last, lastNumber⟩ := @exists_dayNumber (first.dayNumber - 1) (by omega) (by omega)
    have civil :
        last.civil = ⟨date.year, date.month, date.month.length (isLeapYear date.year)⟩ := by
      rw [civil_eq_iff ⟨Nat.le_trans positive within, Nat.le_refl _⟩, lastNumber, firstNumber]
      simp only [Civil.dayNumber]
      omega
    rw [← firstNumber, ofDayNumber?_dayNumber, Option.bind_eq_bind, Option.bind_some, pred?,
      ← lastNumber, ofDayNumber?_dayNumber]
    exact congrArg Civil.day civil
  · have last := date.month_eq_december_of_last (by omega)
    rw [ofDayNumber?, dif_neg (by omega), Option.bind_eq_bind, Option.bind_none, last]
    rfl

theorem weekday_of_emod {start date : Date} {day : Weekday}
    (distance : start.daysBetween date % 7 = start.weekday.daysUntil day) :
    date.weekday = day := by
  have startIndex := index_weekday start
  have bound := day.index_lt
  rw [daysBetween, Weekday.daysUntil] at distance
  rw [weekday_eq_iff]
  omega

/-- Seven days in a row have every weekday. -/
theorem exists_weekday_within (start : Date) (day : Weekday)
    (room : start.dayNumber + 6 ≤ lastDay) :
    ∃ date : Date, start ≤ date ∧ date.dayNumber ≤ start.dayNumber + 6 ∧ date.weekday = day := by
  have short := @Weekday.daysUntil_lt start.weekday day
  have after := start.inCalendar
  obtain ⟨date, reached⟩ :=
    @exists_dayNumber (start.dayNumber + start.weekday.daysUntil day) (by omega) (by omega)
  exact ⟨date, le_iff.mpr (by omega), by omega, weekday_of_daysUntil reached⟩

theorem exists_weekday_after (anchor : Date) (day : Weekday)
    (room : anchor.dayNumber + 7 ≤ lastDay) :
    ∃ date : Date, anchor < date ∧ date.dayNumber ≤ anchor.dayNumber + 7 ∧ date.weekday = day := by
  have start := anchor.inCalendar
  obtain ⟨tomorrow, next⟩ := @exists_dayNumber (anchor.dayNumber + 1) (by omega) (by omega)
  obtain ⟨date, after, near, onDay⟩ := exists_weekday_within tomorrow day (by omega)
  rw [le_iff] at after
  exact ⟨date, lt_iff.mpr (by omega), by omega, onDay⟩

end Date

end Cadence
