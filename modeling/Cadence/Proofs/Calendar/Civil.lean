import Cadence.Calendar.Date

/-!
# Day numbers and civil dates

Years fill the day numbers without gap or overlap, months fill a year, and days a month, so a day
number and its civil date determine each other.

* `startOfYear_yearOf_le` and `lt_startOfYear_yearOf`: the year of a day number holds it, and by
  `yearOf_eq_of_bounds` no other year does.
* `Month.locate_daysBefore` and `Month.exists_daysBefore`: the same for the months of a year.
* `Civil.dayNumber_ofDayNumber` and `Civil.ofDayNumber_dayNumber`: the round trip, both ways.
* `Civil.ofDayNumber_add_cycle`: after 400 years months, days and leap years come again.
* `Date.month_day_iff`: the dates with a given month and day, as day numbers.
-/

namespace Cadence

/-! ## Years -/

theorem startOfYear_succ (year : Int) :
    startOfYear (year + 1) = startOfYear year + yearLength year := by
  simp only [startOfYear, yearLength, isLeapYear, Bool.and_eq_true, Bool.or_eq_true,
    decide_eq_true_eq]
  split <;> omega

theorem startOfYear_of_lt {year later : Int} (lt : year < later) :
    startOfYear year + 365 ≤ startOfYear later := by
  simp only [startOfYear]
  omega

/-- Years start a year apart, so one that starts less than that after another does not follow it. -/
theorem le_of_startOfYear_lt {year later : Int}
    (lt : startOfYear year < startOfYear later + 365) : year ≤ later := by
  refine Int.not_lt.mp fun after => ?_
  have := startOfYear_of_lt after
  omega

theorem lt_of_startOfYear_lt {year later : Int} (lt : startOfYear year < startOfYear later) :
    year < later := by
  have le : year ≤ later := le_of_startOfYear_lt (by omega)
  have different : year ≠ later := by
    rintro rfl
    exact Int.lt_irrefl _ lt
  omega

theorem yearLength_le (year : Int) : yearLength year ≤ 366 := by
  unfold yearLength
  split <;> decide

theorem yearLength_of_leap {year : Int} (leap : isLeapYear year = true) :
    yearLength year = 366 :=
  if_pos leap

theorem yearLength_of_common {year : Int} (common : ¬ isLeapYear year = true) :
    yearLength year = 365 :=
  if_neg common

section Cycles

variable {eras centuries fours years : Int} (centuriesBound : 0 ≤ centuries ∧ centuries ≤ 3)
  (foursBound : 0 ≤ fours ∧ fours ≤ 24) (yearsBound : 0 ≤ years ∧ years ≤ 3)

include centuriesBound foursBound yearsBound

theorem startOfYear_cycles :
    startOfYear (400 * eras + 100 * centuries + 4 * fours + years + 1) =
      146097 * eras + 36524 * centuries + 1461 * fours + 365 * years := by
  simp only [startOfYear]
  omega

theorem isLeapYear_cycles :
    isLeapYear (400 * eras + 100 * centuries + 4 * fours + years + 1) = true ↔
      years = 3 ∧ (fours < 24 ∨ centuries = 3) := by
  simp only [isLeapYear, Bool.and_eq_true, Bool.or_eq_true, decide_eq_true_eq]
  omega

end Cycles

/-- A day number divides into cycles of 400, 100, 4 and 1 years, which make up its year, and the
days that have passed of that year. -/
theorem exists_cycles (n : Int) :
    ∃ eras centuries fours years rest : Int,
      (0 ≤ centuries ∧ centuries ≤ 3) ∧ (0 ≤ fours ∧ fours ≤ 24) ∧ (0 ≤ years ∧ years ≤ 3) ∧
      yearOf n = 400 * eras + 100 * centuries + 4 * fours + years + 1 ∧
      n = 146097 * eras + 36524 * centuries + 1461 * fours + 365 * years + rest ∧
      0 ≤ rest ∧ (rest < 365 ∨ rest = 365 ∧ years = 3 ∧ (fours < 24 ∨ centuries = 3)) := by
  generalize era : n % 146097 = inEra
  generalize centuriesEq : min 3 (inEra / 36524) = centuries
  generalize centuryEq : inEra - 36524 * centuries = inCentury
  generalize yearsEq : min 3 (inCentury % 1461 / 365) = years
  -- Only the last of the four centuries has a day more than the others.
  have inCenturyBound : 0 ≤ inCentury ∧
      (inCentury < 36524 ∨ inCentury = 36524 ∧ centuries = 3) := by omega
  refine ⟨n / 146097, centuries, inCentury / 1461, years, inCentury % 1461 - 365 * years, ?_, ?_,
    ?_, ?_, ?_, ?_, ?_⟩
  · omega
  · omega
  · omega
  · simp only [yearOf, era, centuriesEq, centuryEq, yearsEq]
  · omega
  · omega
  · omega

theorem startOfYear_yearOf_le (n : Int) : startOfYear (yearOf n) ≤ n := by
  obtain ⟨eras, centuries, fours, years, rest, centuriesBound, foursBound, yearsBound, year, days,
    passed, _⟩ := exists_cycles n
  rw [year, startOfYear_cycles centuriesBound foursBound yearsBound]
  omega

theorem lt_startOfYear_yearOf (n : Int) : n < startOfYear (yearOf n + 1) := by
  obtain ⟨eras, centuries, fours, years, rest, centuriesBound, foursBound, yearsBound, year, days,
    _, within⟩ := exists_cycles n
  rw [startOfYear_succ, year, startOfYear_cycles centuriesBound foursBound yearsBound]
  by_cases leap :
      isLeapYear (400 * eras + 100 * centuries + 4 * fours + years + 1) = true
  · rw [yearLength_of_leap leap]
    omega
  · rw [yearLength_of_common leap]
    rw [isLeapYear_cycles centuriesBound foursBound yearsBound] at leap
    omega

theorem yearOf_eq_of_bounds {year n : Int} (start : startOfYear year ≤ n)
    (stop : n < startOfYear (year + 1)) : yearOf n = year := by
  have lower := startOfYear_yearOf_le n
  have upper := lt_startOfYear_yearOf n
  -- Each of the two years starts before the other one ends.
  have before := lt_of_startOfYear_lt (Int.lt_of_le_of_lt lower stop)
  have after := lt_of_startOfYear_lt (Int.lt_of_le_of_lt start upper)
  omega

/-! ## Months -/

namespace Month

variable {leap : Bool} {month : Month} {before dayOfYear : Nat}

/-- The number of days of some months in a row. -/
def totalLength (leap : Bool) : List Month → Nat
  | [] => 0
  | month :: months => month.length leap + totalLength leap months

theorem daysBefore_eq_totalLength (leap : Bool) (month : Month) :
    month.daysBefore leap = totalLength leap (all.takeWhile (· ≠ month)) := by
  cases leap <;> cases month <;> decide

theorem daysBefore_add_length_le (year : Int) (month : Month) :
    month.daysBefore (isLeapYear year) + month.length (isLeapYear year) ≤ yearLength year := by
  unfold yearLength
  cases isLeapYear year <;> cases month <;> decide

theorem length_of_ne_february (other : month ≠ .february) :
    month.length leap = month.length false := by
  cases month with
  | february => contradiction
  | _ => rfl

theorem daysBefore_of_early (early : month = .january ∨ month = .february) :
    month.daysBefore leap = month.daysBefore false := by
  rcases early with rfl | rfl <;> rfl

theorem le_daysBefore_of_late (late : ¬ (month = .january ∨ month = .february)) :
    59 ≤ month.daysBefore false := by
  revert late
  cases month <;> decide

/-- From March on the days that are left of the year do not depend on its length. -/
theorem daysBefore_of_late (year : Int) (late : ¬ (month = .january ∨ month = .february)) :
    month.daysBefore (isLeapYear year) + 365 = month.daysBefore false + yearLength year := by
  unfold yearLength
  revert late
  cases isLeapYear year <;> cases month <;> decide

theorem locateIn_append (earlier later : List Month) (within : before < month.length leap) :
    locateIn leap (earlier ++ month :: later) (totalLength leap earlier + before) =
      (month, before) := by
  induction earlier with
  | nil => simp [locateIn, totalLength, within]
  | cons first earlier ih =>
    have beyond : ¬ first.length leap + totalLength leap earlier + before < first.length leap := by
      omega
    rw [List.cons_append, totalLength, locateIn, if_neg beyond, Nat.add_assoc,
      Nat.add_sub_cancel_left, ih]

theorem exists_split {months : List Month} (within : dayOfYear < totalLength leap months) :
    ∃ earlier month later before, months = earlier ++ month :: later ∧
      before < month.length leap ∧ dayOfYear = totalLength leap earlier + before := by
  induction months generalizing dayOfYear with
  | nil => simp [totalLength] at within
  | cons first months ih =>
    rw [totalLength] at within
    by_cases here : dayOfYear < first.length leap
    · exact ⟨[], first, months, dayOfYear, rfl, here, by simp [totalLength]⟩
    · obtain ⟨earlier, month, later, before, split, bound, days⟩ :=
        @ih (dayOfYear - first.length leap) (by omega)
      refine ⟨first :: earlier, month, later, before, by rw [split, List.cons_append], bound, ?_⟩
      rw [totalLength]
      omega

theorem exists_all_eq (month : Month) :
    ∃ later, all = all.takeWhile (· ≠ month) ++ month :: later := by
  cases month <;> exact ⟨_, rfl⟩

theorem locate_daysBefore (within : before < month.length leap) :
    locate leap (month.daysBefore leap + before) = (month, before) := by
  obtain ⟨later, split⟩ := exists_all_eq month
  rw [locate, daysBefore_eq_totalLength]
  conv => lhs; arg 2; rw [split]
  exact locateIn_append _ later within

theorem exists_daysBefore {year : Int} (within : dayOfYear < yearLength year) :
    ∃ month before, before < length (isLeapYear year) month ∧
      dayOfYear = month.daysBefore (isLeapYear year) + before := by
  have total : totalLength (isLeapYear year) all = yearLength year := by
    unfold yearLength
    cases isLeapYear year <;> decide
  rw [← total] at within
  obtain ⟨earlier, month, later, before, split, bound, days⟩ := exists_split within
  -- No month comes twice, so the months before this one are those up to its first place.
  have first : month ∉ earlier := by
    have nodup : all.Nodup := by decide
    rw [split, List.nodup_append] at nodup
    exact fun member => nodup.2.2 month member month List.mem_cons_self rfl
  have earlierEq : all.takeWhile (· ≠ month) = earlier := by
    rw [split, List.takeWhile_append_of_pos, List.takeWhile_cons_of_neg (by simp), List.append_nil]
    intro other member
    rw [decide_eq_true_eq]
    rintro rfl
    exact first member
  exact ⟨month, before, bound, by rw [daysBefore_eq_totalLength, earlierEq, days]⟩

end Month

/-! ## Civil dates -/

namespace Civil

variable {date : Civil}

theorem startOfYear_le_dayNumber (valid : date.IsValid) :
    startOfYear date.year ≤ date.dayNumber := by
  have positive := valid.1
  rw [dayNumber]
  omega

theorem dayNumber_lt_startOfYear (valid : date.IsValid) :
    date.dayNumber < startOfYear (date.year + 1) := by
  have within := valid.2
  have inYear := Month.daysBefore_add_length_le date.year date.month
  rw [dayNumber, startOfYear_succ]
  omega

/-- The day number of a civil date gives the date back. -/
theorem ofDayNumber_dayNumber (valid : date.IsValid) : ofDayNumber date.dayNumber = date := by
  have year : yearOf date.dayNumber = date.year :=
    yearOf_eq_of_bounds (startOfYear_le_dayNumber valid) (dayNumber_lt_startOfYear valid)
  obtain ⟨positive, within⟩ := valid
  have dayOfYear : (date.dayNumber - startOfYear date.year).toNat =
      date.month.daysBefore (isLeapYear date.year) + (date.day - 1) := by
    rw [dayNumber]
    omega
  have located := Month.locate_daysBefore (Nat.sub_one_lt_of_le positive within)
  simp only [ofDayNumber, year, dayOfYear, located, Nat.sub_add_cancel positive]

/-- Every day number is that of a civil date. -/
theorem exists_dayNumber (n : Int) : ∃ date : Civil, date.IsValid ∧ date.dayNumber = n := by
  have lower := startOfYear_yearOf_le n
  have upper := lt_startOfYear_yearOf n
  rw [startOfYear_succ] at upper
  obtain ⟨month, before, bound, sum⟩ :=
    @Month.exists_daysBefore (n - startOfYear (yearOf n)).toNat (yearOf n) (by omega)
  refine ⟨⟨yearOf n, month, before + 1⟩, ⟨Nat.succ_pos before, bound⟩, ?_⟩
  simp only [dayNumber]
  omega

theorem isValid_ofDayNumber (n : Int) : (ofDayNumber n).IsValid := by
  obtain ⟨date, valid, rfl⟩ := exists_dayNumber n
  rwa [ofDayNumber_dayNumber valid]

theorem dayNumber_of_early (early : date.month = .january ∨ date.month = .february) :
    date.dayNumber = startOfYear date.year + (date.month.daysBefore false + date.day - 1) := by
  rw [dayNumber, Month.daysBefore_of_early early]
  omega

/-- From March on a date has the same distance from the end of every year. -/
theorem dayNumber_of_late (late : ¬ (date.month = .january ∨ date.month = .february)) :
    date.dayNumber =
      startOfYear (date.year + 1) + (date.month.daysBefore false + date.day - 366) := by
  have fromEnd := Month.daysBefore_of_late date.year late
  rw [dayNumber, startOfYear_succ]
  omega

theorem dayNumber_ofDayNumber (n : Int) : (ofDayNumber n).dayNumber = n := by
  obtain ⟨date, valid, rfl⟩ := exists_dayNumber n
  rw [ofDayNumber_dayNumber valid]

end Civil

/-! ## The cycle of 400 years -/

theorem startOfYear_add_cycle (year : Int) :
    startOfYear (year + 400) = startOfYear year + 146097 := by
  simp only [startOfYear]
  omega

theorem isLeapYear_add_cycle (year : Int) : isLeapYear (year + 400) = isLeapYear year := by
  rw [Bool.eq_iff_iff]
  simp only [isLeapYear, Bool.and_eq_true, Bool.or_eq_true, decide_eq_true_eq]
  omega

theorem yearOf_add_cycle (n : Int) : yearOf (n + 146097) = yearOf n + 400 := by
  have era : (n + 146097) / 146097 = n / 146097 + 1 := by omega
  simp only [yearOf, Int.add_emod_right, era]
  omega

/-- The calendar repeats after 400 years, but for the year. -/
theorem Civil.ofDayNumber_add_cycle (n : Int) :
    ofDayNumber (n + 146097) = { ofDayNumber n with year := (ofDayNumber n).year + 400 } := by
  have dayOfYear : n + 146097 - startOfYear (yearOf n + 400) = n - startOfYear (yearOf n) := by
    rw [startOfYear_add_cycle]
    omega
  simp only [ofDayNumber, yearOf_add_cycle, isLeapYear_add_cycle, dayOfYear]

/-! ## Dates of the calendar -/

namespace Date

variable {date : Date}

theorem civil_eq_iff {civil : Civil} (valid : civil.IsValid) :
    date.civil = civil ↔ date.dayNumber = civil.dayNumber := by
  constructor
  · rintro rfl
    exact (Civil.dayNumber_ofDayNumber date.dayNumber).symm
  · intro same
    rw [Date.civil, same, Civil.ofDayNumber_dayNumber valid]

theorem civil_injective : Function.Injective civil := by
  intro date other same
  rw [Date.ext_iff, ← Civil.dayNumber_ofDayNumber date.dayNumber,
    ← Civil.dayNumber_ofDayNumber other.dayNumber]
  exact congrArg Civil.dayNumber same

theorem civil_eq_mk_iff {year : Int} {month : Month} {day : Nat} :
    date.civil = ⟨year, month, day⟩ ↔
      date.year = year ∧ date.month = month ∧ date.day = day := by
  constructor
  · intro same
    rw [Date.year, Date.month, Date.day, same]
    exact ⟨rfl, rfl, rfl⟩
  · rintro ⟨rfl, rfl, rfl⟩
    rfl

theorem ofCivil?_eq_some_iff {civil : Civil} :
    ofCivil? civil = some date ↔ date.civil = civil := by
  unfold ofCivil?
  split
  · next valid => rw [ofDayNumber?_eq_some_iff, civil_eq_iff valid]
  · next invalid =>
    simp only [reduceCtorEq, false_iff]
    rintro rfl
    exact invalid (Civil.isValid_ofDayNumber date.dayNumber)

/-- The dates with a month and a day are those of the years in which the month has that day. -/
theorem month_day_iff {month : Month} {day : Nat} :
    date.month = month ∧ date.day = day ↔
      ∃ year, (Civil.mk year month day).IsValid ∧
        date.dayNumber = (Civil.mk year month day).dayNumber := by
  constructor
  · rintro ⟨rfl, rfl⟩
    have valid := Civil.isValid_ofDayNumber date.dayNumber
    exact ⟨date.year, valid, (Civil.dayNumber_ofDayNumber date.dayNumber).symm⟩
  · rintro ⟨year, valid, same⟩
    have civil := (civil_eq_iff valid).mpr same
    rw [Date.month, Date.day, civil]
    exact ⟨rfl, rfl⟩

theorem leapDay_iff :
    date.month = .february ∧ date.day = 29 ↔
      ∃ year, isLeapYear year = true ∧ date.dayNumber = startOfYear year + 59 := by
  rw [month_day_iff]
  refine exists_congr fun year => ?_
  have position : (Civil.mk year .february 29).dayNumber = startOfYear year + 59 :=
    Civil.dayNumber_of_early (.inr rfl)
  rw [position]
  refine and_congr_left' ?_
  cases leap : isLeapYear year <;> simp [Civil.IsValid, Month.length, leap]

end Date

end Cadence
