import Cadence.Proofs.Calendar.Next
import Cadence.Proofs.Occurrence.Annual

/-!
# How far away the next date is

A sound rule never runs out of dates.  Its form and the options fix a number of days within which it
fires after every anchor (`Rule.gapBound`), so a query that looks that far and has no ending gives a
date.  The longest gap is that of the leap day, which misses seven years in a row around a century
that is no leap year.

* `Rule.FiresWithin` and its lemmas, one for each form of a rule.
* `Rule.exists_yearly_offset`: a yearly rule fires at one distance from the starts of all years, the
  leap day as well unless it is skipped, since its substitutes lie at its own distance from the end
  of the year before or from its start.
* `Rule.firesOn_of_not_isSound`: an unsound rule never fires, whatever the options.
-/

namespace Cadence

namespace Rule

variable {rule : Rule} {options : FiringOptions} {anchor date : Date} {interval : Count}
  {days : WeekdaySet} {weekday : Weekday} {month : Month} {day within more : Nat}

/-- A number of days within which a sound rule fires after any anchor. -/
def gapBound (options : FiringOptions) : Rule → Nat
  | .daily interval => interval.value
  | .weekly interval _ =>
    match options.weeklyInterval with
    | .ignore => 366
    | .everyNthWeek => 7 * interval.value
  | .anniversary month day =>
    if month = .february ∧ day = 29 ∧ options.leapDay = .skip then 2921 else 366
  | .weekdays | .dayOfMonth _ | .weekdayOfMonth _ _ => 366

/-- The rule fires within so many days after the anchor. -/
def FiresWithin (rule : Rule) (options : FiringOptions) (anchor : Date) (within : Nat) : Prop :=
  ∃ date, anchor < date ∧ date.dayNumber ≤ anchor.dayNumber + within ∧
    rule.firesOn options anchor date = true

theorem FiresWithin.mono (fires : rule.FiresWithin options anchor within) (le : within ≤ more) :
    rule.FiresWithin options anchor more := by
  obtain ⟨date, after, near, onDate⟩ := fires
  exact ⟨date, after, by omega, onDate⟩

/-! ## Daily and weekly rules -/

theorem daily_firesWithin (room : anchor.dayNumber + interval.value ≤ lastDay) :
    (daily interval).FiresWithin options anchor interval.value := by
  have positive := interval.positive
  have start := anchor.inCalendar
  obtain ⟨date, reached⟩ :=
    @Date.exists_dayNumber (anchor.dayNumber + interval.value) (by omega) room
  have distance : anchor.daysBetween date = interval.value := by
    rw [Date.daysBetween]
    omega
  refine ⟨date, Date.lt_iff.mpr (by omega), by omega, ?_⟩
  rw [daily_firesOn, distance, Int.emod_self]

theorem weekdays_firesWithin (room : anchor.dayNumber + 7 ≤ lastDay) :
    weekdays.FiresWithin options anchor 7 := by
  obtain ⟨date, after, near, onMonday⟩ := anchor.exists_weekday_after .monday room
  refine ⟨date, after, near, ?_⟩
  rw [firesOn, onMonday]
  rfl

theorem ungated_firesWithin (ungated : options.weeklyInterval = .ignore)
    (selected : weekday ∈ days) (room : anchor.dayNumber + 7 ≤ lastDay) :
    (weekly interval days).FiresWithin options anchor 7 := by
  obtain ⟨date, after, near, onDay⟩ := anchor.exists_weekday_after weekday room
  refine ⟨date, after, near, weekly_firesOn.mpr ⟨onDay ▸ selected, fun gated => ?_⟩⟩
  rw [ungated] at gated
  contradiction

theorem gated_firesWithin (gated : options.weeklyInterval = .everyNthWeek)
    (selected : weekday ∈ days) (room : anchor.dayNumber + 7 * interval.value ≤ lastDay) :
    (weekly interval days).FiresWithin options anchor (7 * interval.value) := by
  have positive := interval.positive
  have start := anchor.inCalendar
  -- The block of the anchor still has the weekday, unless it is that of the anchor itself.
  obtain ⟨offset, after, near, residue, onBlock⟩ :
      ∃ offset : Nat, 1 ≤ offset ∧ offset ≤ 7 * interval.value ∧
        (offset : Int) % 7 = anchor.weekday.daysUntil weekday ∧
        (offset : Int) / 7 % interval.value = 0 := by
    have short := @Weekday.daysUntil_lt anchor.weekday weekday
    by_cases same : anchor.weekday.daysUntil weekday = 0
    · refine ⟨7 * interval.value, by omega, Nat.le_refl _, by omega, ?_⟩
      rw [show ((7 * interval.value : Nat) : Int) / 7 = interval.value by omega, Int.emod_self]
    · refine ⟨anchor.weekday.daysUntil weekday, by omega, by omega, by omega, ?_⟩
      rw [Int.ediv_eq_zero_of_lt (by omega) (by omega), Int.zero_emod]
  obtain ⟨date, reached⟩ :=
    @Date.exists_dayNumber (anchor.dayNumber + offset) (by omega) (by omega)
  have distance : anchor.daysBetween date = offset := by
    rw [Date.daysBetween]
    omega
  have onDay : date.weekday = weekday := Date.weekday_of_emod (by rw [distance, residue])
  refine ⟨date, Date.lt_iff.mpr (by omega), by omega, ?_⟩
  rw [gated_firesOn gated, onDay, distance]
  exact ⟨selected, onBlock⟩

/-! ## Yearly rules -/

/-- In a common year a rule for the leap day fires on the day that takes its place. -/
theorem leapDay_firesOn_substitute {year : Int} (common : isLeapYear year = false)
    (positive : 1 ≤ day) (inMonth : day ≤ month.length false)
    (substitutes : options.leapDay.substitutes month day = true)
    (reached : date.dayNumber = (Civil.mk year month day).dayNumber) :
    (anniversary .february 29).firesOn options anchor date = true := by
  have valid : (Civil.mk year month day).IsValid := ⟨positive, by rwa [common]⟩
  have civil : date.civil = Civil.mk year month day := (Date.civil_eq_iff valid).mpr reached
  rw [leapDay_firesOn, Date.year, Date.month, Date.day, civil]
  exact .inr ⟨common, substitutes⟩

/-- Unless it is skipped, the leap day or what takes its place lies at one distance from the starts
of all years. -/
theorem exists_leapDay_offset (kept : options.leapDay ≠ .skip) :
    ∃ offset : Int, ∀ (anchor date : Date) (year : Int),
      date.dayNumber = startOfYear year + offset →
        (anniversary .february 29).firesOn options anchor date = true := by
  have onLeapDay : ∀ {anchor date : Date} {year : Int}, isLeapYear year = true →
      date.dayNumber = startOfYear year + 59 →
        (anniversary .february 29).firesOn options anchor date = true :=
    fun leap reached => leapDay_firesOn.mpr (.inl (Date.leapDay_iff.mpr ⟨_, leap, reached⟩))
  cases policy : options.leapDay with
  | skip => contradiction
  | february28 =>
    -- The last day of February lies 307 days before the end of its year.
    refine ⟨-307, fun anchor date year reached => ?_⟩
    have length := startOfYear_succ (year - 1)
    rw [Int.sub_add_cancel] at length
    cases leap : isLeapYear (year - 1) with
    | true =>
      rw [yearLength_of_leap leap] at length
      exact onLeapDay leap (by omega)
    | false =>
      rw [yearLength_of_common (Bool.eq_false_iff.mp leap)] at length
      have position : (Civil.mk (year - 1) .february 28).dayNumber = startOfYear (year - 1) + 58 :=
        Civil.dayNumber_of_early (.inr rfl)
      have onDay : date.dayNumber = (Civil.mk (year - 1) .february 28).dayNumber := by omega
      refine leapDay_firesOn_substitute leap (by decide) (by decide) ?_ onDay
      rw [policy]
      rfl
  | march1 =>
    -- The leap day and the first of March are both the sixtieth day of their year.
    refine ⟨59, fun anchor date year reached => ?_⟩
    cases leap : isLeapYear year with
    | true => exact onLeapDay leap reached
    | false =>
      have length := startOfYear_succ year
      rw [yearLength_of_common (Bool.eq_false_iff.mp leap)] at length
      have late : ¬ (Month.march = .january ∨ Month.march = .february) := by decide
      have position : (Civil.mk year .march 1).dayNumber = startOfYear (year + 1) + -306 :=
        Civil.dayNumber_of_late late
      have onDay : date.dayNumber = (Civil.mk year .march 1).dayNumber := by omega
      refine leapDay_firesOn_substitute leap (by decide) (by decide) ?_ onDay
      rw [policy]
      rfl

theorem exists_yearly_offset (positive : 1 ≤ day) (inMonth : day ≤ month.longest)
    (kept : ¬ (month = .february ∧ day = 29 ∧ options.leapDay = .skip)) :
    ∃ offset : Int, ∀ (anchor date : Date) (year : Int),
      date.dayNumber = startOfYear year + offset →
        (anniversary month day).firesOn options anchor date = true := by
  by_cases common : month = .february ∧ day = 29
  · obtain ⟨rfl, rfl⟩ := common
    exact exists_leapDay_offset fun skip => kept ⟨rfl, rfl, skip⟩
  · obtain ⟨offset, _, _, annual⟩ := exists_annual_offset positive inMonth common
    refine ⟨offset, fun anchor date year reached => ?_⟩
    exact (anniversary_firesOn common).mpr ((annual date).mpr ⟨year, reached⟩)

theorem anniversary_firesWithin (positive : 1 ≤ day) (inMonth : day ≤ month.longest)
    (kept : ¬ (month = .february ∧ day = 29 ∧ options.leapDay = .skip))
    (room : anchor.dayNumber + 366 ≤ lastDay) :
    (anniversary month day).FiresWithin options anchor 366 := by
  have start := anchor.inCalendar
  obtain ⟨offset, yearly⟩ := exists_yearly_offset positive inMonth kept
  obtain ⟨year, after, near⟩ := exists_startOfYear_after (anchor.dayNumber - offset)
  obtain ⟨date, reached⟩ := @Date.exists_dayNumber (startOfYear year + offset) (by omega) (by omega)
  exact ⟨date, Date.lt_iff.mpr (by omega), by omega, yearly anchor date year reached⟩

theorem leapDay_firesWithin (room : anchor.dayNumber + 2921 ≤ lastDay) :
    (anniversary .february 29).FiresWithin options anchor 2921 := by
  have start := anchor.inCalendar
  obtain ⟨year, leap, after, near⟩ := exists_leapYear_after (anchor.dayNumber - 59)
  obtain ⟨date, reached⟩ := @Date.exists_dayNumber (startOfYear year + 59) (by omega) (by omega)
  refine ⟨date, Date.lt_iff.mpr (by omega), by omega, leapDay_firesOn.mpr (.inl ?_)⟩
  exact Date.leapDay_iff.mpr ⟨year, leap, reached⟩

/-! ## Monthly rules -/

/-- Every month has the days that its longest form has in January. -/
theorem dayOfMonth_firesWithin (positive : 1 ≤ day) (inMonth : day ≤ longestMonth)
    (room : anchor.dayNumber + 366 ≤ lastDay) :
    (dayOfMonth day).FiresWithin options anchor 366 := by
  have common : ¬ (Month.january = .february ∧ day = 29) := by simp
  have kept : ¬ (Month.january = .february ∧ day = 29 ∧ options.leapDay = .skip) := by simp
  obtain ⟨date, after, near, fires⟩ :=
    @anniversary_firesWithin options anchor .january day positive inMonth kept room
  refine ⟨date, after, near, ?_⟩
  rw [anniversary_firesOn common] at fires
  exact dayOfMonth_firesOn.mpr fires.2

theorem weekdayOfMonth_firesWithin {ordinal : Ordinal}
    (room : anchor.dayNumber + 366 ≤ lastDay) :
    (weekdayOfMonth ordinal weekday).FiresWithin options anchor 366 := by
  have start := anchor.inCalendar
  obtain ⟨year, month, after, near⟩ := exists_firstOfMonth_after anchor.dayNumber
  have short := month.length_le (isLeapYear year)
  obtain ⟨before, fits, week⟩ := ordinal.exists_week (month.le_length (isLeapYear year))
  -- The week of the month that the ordinal selects has the weekday.
  obtain ⟨first, opens⟩ :=
    @Date.exists_dayNumber ((Civil.mk year month 1).dayNumber + before) (by omega) (by omega)
  obtain ⟨date, late, early, onDay⟩ := first.exists_weekday_within weekday (by omega)
  rw [Date.le_iff] at late
  obtain ⟨passed, reached⟩ := Int.eq_ofNat_of_zero_le
    (show 0 ≤ date.dayNumber - (Civil.mk year month 1).dayNumber by omega)
  have valid : (Civil.mk year month (passed + 1)).IsValid := ⟨Nat.succ_pos _, by simp only; omega⟩
  have civil : date.civil = Civil.mk year month (passed + 1) := by
    rw [Date.civil_eq_iff valid, Civil.dayNumber_in_month]
    omega
  have selects := (week (passed + 1) valid.2).mpr (by omega)
  refine ⟨date, Date.lt_iff.mpr (by omega), by omega, ?_⟩
  rw [weekdayOfMonth_firesOn, Date.year, Date.month, Date.day, civil]
  exact ⟨onDay, selects⟩

/-! ## Any rule -/

theorem firesWithin_gapBound (sound : rule.IsSound)
    (room : anchor.dayNumber + rule.gapBound options ≤ lastDay) :
    rule.FiresWithin options anchor (rule.gapBound options) := by
  cases rule with
  | daily interval => exact daily_firesWithin room
  | weekdays =>
    simp only [gapBound] at room
    exact (weekdays_firesWithin (by omega)).mono (show 7 ≤ 366 by decide)
  | weekly interval days =>
    obtain ⟨weekday, selected⟩ := WeekdaySet.exists_mem_of_ne_empty sound
    cases gate : options.weeklyInterval with
    | ignore =>
      simp only [gapBound, gate] at room ⊢
      exact (ungated_firesWithin gate selected (by omega)).mono (by decide)
    | everyNthWeek =>
      simp only [gapBound, gate] at room ⊢
      exact gated_firesWithin gate selected (by omega)
  | dayOfMonth day => exact dayOfMonth_firesWithin sound.1 sound.2 room
  | weekdayOfMonth ordinal weekday => exact weekdayOfMonth_firesWithin room
  | anniversary month day =>
    by_cases skipped : month = .february ∧ day = 29 ∧ options.leapDay = .skip
    · simp only [gapBound, if_pos skipped] at room ⊢
      obtain ⟨rfl, rfl, _⟩ := skipped
      exact leapDay_firesWithin room
    · simp only [gapBound, if_neg skipped] at room ⊢
      exact anniversary_firesWithin sound.1 sound.2 skipped room

theorem firesOn_of_not_isSound (unsound : ¬ rule.IsSound) :
    rule.firesOn options anchor date = false := by
  have bounds := date.day_bounds
  have longest := Month.length_le_longest (isLeapYear date.year) date.month
  rw [Bool.eq_false_iff]
  intro fires
  apply unsound
  cases rule with
  | weekly interval days =>
    rintro rfl
    exact WeekdaySet.not_mem_empty (weekly_firesOn.mp fires).1
  | dayOfMonth day =>
    rw [dayOfMonth_firesOn] at fires
    have short := longest_le_longestMonth date.month
    exact ⟨by omega, by omega⟩
  | anniversary month day =>
    by_cases common : month = .february ∧ day = 29
    · obtain ⟨rfl, rfl⟩ := common
      exact ⟨by decide, by decide⟩
    · obtain ⟨rfl, rfl⟩ := (anniversary_firesOn common).mp fires
      exact ⟨bounds.1, Nat.le_trans bounds.2 longest⟩
  | daily _ | weekdays | weekdayOfMonth _ _ => trivial

end Rule

/-- A sound rule has a date within its bound after every anchor, so a query that looks that far and
may give a date gives one; any other rule has no date at all, however a query asks for it. -/
theorem Query.sound_rules_recur (query : Query) :
    (query.rule.IsSound → query.ending = .never → 1 ≤ query.limit →
        query.rule.gapBound query.options ≤ query.horizon →
        query.anchor.dayNumber + query.rule.gapBound query.options ≤ lastDay → query.dates ≠ []) ∧
      (¬ query.rule.IsSound → query.dates = []) := by
  constructor
  · intro sound never positive reaches room
    obtain ⟨date, after, near, fires⟩ := Rule.firesWithin_gapBound sound room
    have allowed : 0 < query.allowance := by
      rw [allowance_eq, never]
      exact positive
    rw [ne_eq, dates_eq_nil_iff allowed]
    intro none
    have admitted : query.admits date = true := by
      rw [admits_eq_true_iff, never]
      exact ⟨by simp, fires⟩
    rw [none date after (by omega)] at admitted
    contradiction
  · intro unsound
    have silent : query.series = [] := by
      rw [List.eq_nil_iff_forall_not_mem]
      intro date member
      obtain ⟨_, _, admitted⟩ := mem_series.mp member
      rw [admits_eq_true_iff, Rule.firesOn_of_not_isSound unsound] at admitted
      exact absurd admitted.2 (by decide)
    rw [dates_eq_take_series, silent, List.take_nil]

/-- After February 29, 1896, the leap day of 1904 is the next one, 2921 days away; a rule for
February 30 has no date in that time. -/
theorem Query.leapDay_recurs_after_1896 :
    let anchor : Date := ⟨692193, by decide⟩
    let query (day : Nat) : Query :=
      { rule := .anniversary .february day, anchor, limit := 1, horizon := 2921 }
    anchor.civil = ⟨1896, .february, 29⟩ ∧ (query 29).rule.IsSound ∧
      (query 29).rule.gapBound {} = 2921 ∧ anchor.dayNumber + 2921 ≤ lastDay ∧
      (query 29).dates ≠ [] ∧ ¬ (query 30).rule.IsSound ∧ (query 30).dates = [] := by
  intro anchor query
  have civil : anchor.civil = ⟨1896, .february, 29⟩ := by decide +kernel
  have sound : (query 29).rule.IsSound := ⟨by decide, by decide⟩
  have room : anchor.dayNumber + 2921 ≤ lastDay := by decide
  have unsound : ¬ (query 30).rule.IsSound := fun sound => absurd sound.2 (by decide)
  refine ⟨civil, sound, rfl, room, ?_, unsound, (sound_rules_recur (query 30)).2 unsound⟩
  exact (sound_rules_recur (query 29)).1 sound rfl (by decide) (by decide) room

end Cadence
