import Cadence.Proofs.Calendar.Civil
import Cadence.Proofs.Occurrence.Enumeration
import Cadence.Proofs.Rule.Firing

/-!
# The next date of an annual rule

A yearly rule for a day that every year has fires once a year, so its next date is a year away at
most.  That is 365 days, or 366 if a leap day falls into them, and the default horizon reaches 365
days: it falls one day short exactly if the anchor stands on the rule's own day and a leap day comes
before the next one.

* `exists_annual_offset` puts the dates of such a rule at one distance from the starts of all years.
* `no_annual_date_iff` says after which dates 365 days pass without one.
-/

namespace Cadence

variable {month : Month} {day limit : Nat} {anchor : Date}

/-- A February 29 lies within the 365 days after the date. -/
def LeapDayFollows (date : Date) : Prop :=
  ∃ leapDay : Date, date < leapDay ∧ leapDay.dayNumber ≤ date.dayNumber + 365 ∧
    leapDay.month = .february ∧ leapDay.day = 29

theorem Month.le_length_of_common (within : day ≤ month.longest)
    (common : ¬ (month = .february ∧ day = 29)) (leap : Bool) : day ≤ month.length leap := by
  by_cases february : month = .february
  · subst february
    have other : day ≠ 29 := fun same => common ⟨rfl, same⟩
    have short : day ≤ 28 := Nat.le_of_lt_succ (Nat.lt_of_le_of_ne within other)
    cases leap with
    | false => exact short
    | true => exact within
  · rw [Month.length_of_ne_february february]
    rwa [Month.longest, Month.length_of_ne_february february] at within

/-- Each date of the rule lies at the same distance from the start of a year: after it in January
and February, and before it from March on.  So the leap day of that year, if it has one, comes after
the date and before the next one. -/
theorem exists_annual_offset (positive : 1 ≤ day) (within : day ≤ month.longest)
    (common : ¬ (month = .february ∧ day = 29)) :
    ∃ offset : Int, -306 ≤ offset ∧ offset ≤ 58 ∧
      ∀ date : Date, date.month = month ∧ date.day = day ↔
        ∃ year, date.dayNumber = startOfYear year + offset := by
  have everyYear := Month.le_length_of_common within common
  have valid : ∀ year, (Civil.mk year month day).IsValid := fun year => ⟨positive, everyYear _⟩
  by_cases early : month = .january ∨ month = .february
  · have bound : month.daysBefore false + day ≤ 59 := by
      have short := everyYear false
      rcases early with rfl | rfl
      · exact Nat.le_trans (Nat.add_le_add_left short _) (by decide)
      · exact Nat.add_le_add_left short _
    refine ⟨month.daysBefore false + day - 1, by omega, by omega, fun date => ?_⟩
    rw [Date.month_day_iff]
    refine exists_congr fun year => ?_
    rw [and_iff_right (valid year), Civil.dayNumber_of_early early]
  · have lower := Month.le_daysBefore_of_late early
    have upper : month.daysBefore false + month.length false ≤ 365 :=
      Month.daysBefore_add_length_le 1 month
    have short := everyYear false
    refine ⟨month.daysBefore false + day - 366, by omega, by omega, fun date => ?_⟩
    rw [Date.month_day_iff]
    -- The year counted from is the one after that of the date.
    constructor
    · rintro ⟨year, _, same⟩
      exact ⟨year + 1, by rw [same, Civil.dayNumber_of_late early]⟩
    · rintro ⟨year, same⟩
      refine ⟨year - 1, valid (year - 1), ?_⟩
      rw [Civil.dayNumber_of_late early, same, Int.sub_add_cancel]

/-- The 365 days after a date have no date of the rule exactly if it stands on the rule's day
itself and a leap day follows. -/
theorem no_annual_date_iff (positive : 1 ≤ day) (within : day ≤ month.longest)
    (common : ¬ (month = .february ∧ day = 29)) (room : anchor.dayNumber + 366 ≤ lastDay) :
    (∀ date, anchor < date → date.dayNumber ≤ anchor.dayNumber + 365 →
        ¬ (date.month = month ∧ date.day = day)) ↔
      (anchor.month = month ∧ anchor.day = day) ∧ LeapDayFollows anchor := by
  obtain ⟨offset, low, high, annual⟩ := exists_annual_offset positive within common
  have start := anchor.inCalendar
  constructor
  · intro none
    -- The last date of the rule up to the anchor is that of `year`; the next one is a year later.
    generalize yearEq : yearOf (anchor.dayNumber - offset) = year
    have before := startOfYear_yearOf_le (anchor.dayNumber - offset)
    have after := lt_startOfYear_yearOf (anchor.dayNumber - offset)
    have length := startOfYear_succ year
    have bound := yearLength_le year
    rw [yearEq] at before after
    obtain ⟨next, nextNumber⟩ : ∃ next : Date, next.dayNumber = startOfYear (year + 1) + offset :=
      ⟨⟨_, by omega, by omega⟩, rfl⟩
    have far : ¬ next.dayNumber ≤ anchor.dayNumber + 365 := by
      intro close
      exact none next (Date.lt_iff.mpr (by omega)) close ((annual next).mpr ⟨_, nextNumber⟩)
    -- It is too far only from the date of a leap year itself.
    by_cases leap : isLeapYear year = true
    · rw [yearLength_of_leap leap] at length
      have onDay : anchor.dayNumber = startOfYear year + offset := by omega
      obtain ⟨leapDay, leapDayNumber⟩ :
          ∃ leapDay : Date, leapDay.dayNumber = startOfYear year + 59 :=
        ⟨⟨_, by omega, by omega⟩, rfl⟩
      refine ⟨(annual anchor).mpr ⟨year, onDay⟩, leapDay, Date.lt_iff.mpr (by omega), by omega, ?_⟩
      exact Date.leapDay_iff.mpr ⟨year, leap, leapDayNumber⟩
    · rw [yearLength_of_common leap] at length
      omega
  · rintro ⟨onDay, leapDay, follows, near, isLeapDay⟩ date after close onDate
    obtain ⟨year, anchorDay⟩ := (annual anchor).mp onDay
    obtain ⟨leapYear, leap, leapDayNumber⟩ := Date.leapDay_iff.mp isLeapDay
    obtain ⟨later, dateNumber⟩ := (annual date).mp onDate
    rw [Date.lt_iff] at follows after
    -- The leap day is that of `year`, so the next date is 366 days away.
    have same : leapYear = year :=
      Int.le_antisymm (le_of_startOfYear_lt (by omega)) (le_of_startOfYear_lt (by omega))
    have succ := startOfYear_succ year
    rw [yearLength_of_leap (same ▸ leap)] at succ
    have lower : year < later := lt_of_startOfYear_lt (by omega)
    have upper : later < year + 1 := lt_of_startOfYear_lt (by omega)
    omega

namespace Query

variable {rule : Rule}

/-- Under the default settings an annual rule has a date after every anchor, except exactly if the
anchor stands on the rule's own day and a leap day follows within the 365 days that are searched.
So a caller that goes on from a date of such a rule gets none exactly if a leap day follows it. -/
theorem annual_dates_eq_nil_iff (accepted : Rule.onAnniversary? month day = some rule)
    (common : ¬ (month = .february ∧ day = 29)) (room : anchor.dayNumber + 366 ≤ lastDay)
    (positive : 1 ≤ limit) :
    (dates { rule, anchor, limit } = [] ↔
        (anchor.month = month ∧ anchor.day = day) ∧ LeapDayFollows anchor) ∧
      ∀ earlier : Query, earlier.rule = rule → anchor ∈ earlier.dates →
        (dates { rule, anchor, limit } = [] ↔ LeapDayFollows anchor) := by
  obtain ⟨⟨dayPositive, within⟩, rfl⟩ := Rule.onAnniversary?_eq_some_iff.mp accepted
  have empty : dates { rule := .anniversary month day, anchor, limit } = [] ↔
      (anchor.month = month ∧ anchor.day = day) ∧ LeapDayFollows anchor := by
    have allowed : 0 < allowance { rule := .anniversary month day, anchor, limit } := positive
    rw [dates_eq_nil_iff allowed, ← no_annual_date_iff dayPositive within common room]
    simp only [admits, fires, Ending.isPast, Bool.not_false, Bool.true_and, ← Bool.not_eq_true,
      Rule.anniversary_firesOn common]
    rfl
  refine ⟨empty, fun earlier same shown => ?_⟩
  -- The anchor is a date of the rule, so it stands on the rule's day.
  have onDay : anchor.month = month ∧ anchor.day = day := by
    rw [dates_eq_take_series] at shown
    have admitted := (mem_series.mp (List.mem_of_mem_take shown)).2.2
    rw [admits_eq_true_iff, same, Rule.anniversary_firesOn common] at admitted
    exact admitted.2
  rw [empty, and_iff_right onDay]

/-- The leap day of 2028 follows December 25 of the year before, so that day has no successor. -/
theorem no_date_after_christmas_2027 :
    let anchor : Date := ⟨740339, by decide⟩
    anchor.civil = ⟨2027, .december, 25⟩ ∧
      Rule.onAnniversary? .december 25 = some (.anniversary .december 25) ∧
      ¬ (Month.december = .february ∧ 25 = 29) ∧ anchor.dayNumber + 366 ≤ lastDay ∧
      dates { rule := .anniversary .december 25, anchor, limit := 5 } = [] := by
  intro anchor
  have civil : anchor.civil = ⟨2027, .december, 25⟩ := by decide +kernel
  have common : ¬ (Month.december = .february ∧ 25 = 29) := by decide
  have room : anchor.dayNumber + 366 ≤ lastDay := by decide
  refine ⟨civil, rfl, common, room, ?_⟩
  rw [(annual_dates_eq_nil_iff rfl common room (by decide)).1]
  refine ⟨⟨congrArg Civil.month civil, congrArg Civil.day civil⟩, ⟨740405, by decide⟩, ?_⟩
  decide +kernel

/-- After March 1, 2023, the annual rule for March 1 has no date within the default horizon, though
its constructor accepts it and the calendar goes on for another year. -/
theorem no_date_after_march_2023 :
    let anchor : Date := ⟨738579, by decide⟩
    anchor.civil = ⟨2023, .march, 1⟩ ∧
      Rule.onAnniversary? .march 1 = some (.anniversary .march 1) ∧
      ¬ (Month.march = .february ∧ 1 = 29) ∧ anchor.dayNumber + 366 ≤ lastDay ∧
      dates { rule := .anniversary .march 1, anchor, limit := 1 } = [] := by
  refine ⟨by decide +kernel, rfl, by decide, by decide, ?_⟩
  rw [dates_eq_take_series]
  decide +kernel

end Query

end Cadence
