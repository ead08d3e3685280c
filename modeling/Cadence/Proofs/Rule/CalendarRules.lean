import Cadence.Proofs.Calendar.MonthDates
import Cadence.Proofs.Occurrence.NextDate

/-!
# Rules that follow the calendar

Monthly and yearly rules do not look at the anchor: which dates they fire on is a matter of the
month or the year alone.

* `Rule.weekdayOfMonth_fires_once`: a rule for a weekday of the month fires once in every month, on
  the date that its ordinal names among those with the weekday.
* `Rule.by_date_rules_exact`: a rule for a date fires on it where there is such a date, and where
  there is none it does not fire, but for what stands in for the leap day.
-/

namespace Cadence

/-- The one that the ordinal names of some things in order. -/
def Ordinal.pick? {α : Type} (ordinal : Ordinal) (things : List α) : Option α :=
  match ordinal with
  | .last => things.getLast?
  | ordinal => things[ordinal.number - 1]?

/-- The place from zero of the one that the ordinal names of `count` things. -/
def Ordinal.place (ordinal : Ordinal) (count : Nat) : Nat :=
  match ordinal with
  | .last => count - 1
  | ordinal => ordinal.number - 1

namespace Ordinal

variable {ordinal : Ordinal} {before count monthLength i : Nat}

theorem pick?_eq {α : Type} (things : List α) :
    ordinal.pick? things = things[ordinal.place things.length]? := by
  cases ordinal with
  | last => exact List.getLast?_eq_getElem?
  | first | second | third | fourth => rfl

theorem place_of_ne_last (other : ordinal ≠ .last) : ordinal.place count = ordinal.number - 1 := by
  cases ordinal with
  | last => contradiction
  | first | second | third | fourth => rfl

/-- Of the days of a month with one weekday, the ordinal selects the one that it names. -/
theorem selects_iff (short : before < 7) (low : 7 * count + before < monthLength + 7)
    (high : monthLength ≤ 7 * count + before) (bound : i < count) :
    ordinal.selects monthLength (before + 7 * i + 1) = true ↔ i = ordinal.place count := by
  by_cases last : ordinal = .last
  · subst last
    rw [selects_last]
    show monthLength < before + 7 * i + 1 + 7 ↔ i = count - 1
    omega
  · have range := number_of_ne_last last
    rw [selects_of_ne_last last, place_of_ne_last last]
    omega

theorem place_lt (enough : 4 ≤ count) : ordinal.place count < count := by
  by_cases last : ordinal = .last
  · subst last
    exact Nat.sub_one_lt_of_le (by omega) (Nat.le_refl count)
  · have range := number_of_ne_last last
    rw [place_of_ne_last last]
    omega

end Ordinal

namespace Rule

variable {rule : Rule} {options : FiringOptions} {anchor date : Date} {year : Int} {month : Month}
  {day : Nat} {weekday : Weekday} {ordinal : Ordinal}

/-- Of the dates of a period the rule fires on the given one and on no other. -/
def FiresOnlyOn (rule : Rule) (options : FiringOptions) (anchor : Date) (period : Date → Prop)
    (date : Date) : Prop :=
  ∀ other, period other ∧ rule.firesOn options anchor other = true ↔ other = date

/-! ## Weekdays of the month -/

/-- A month has four or five dates with a weekday.  A rule for that weekday fires on the one of them
that its ordinal names, counted from the first or taken from the end, and on no other date of the
month. -/
theorem weekdayOfMonth_fires_once (options : FiringOptions) (anchor : Date)
    (inRange : firstYear ≤ year ∧ year ≤ lastYear) (month : Month) (ordinal : Ordinal)
    (weekday : Weekday) :
    let dates := Date.weekdayInMonth year month weekday
    (dates.Pairwise (· < ·) ∧ ∀ date : Date, date ∈ dates ↔
        (date.year = year ∧ date.month = month) ∧ date.weekday = weekday) ∧
      (dates.length = 4 ∨ dates.length = 5) ∧
      ∃ date, ordinal.pick? dates = some date ∧
        (weekdayOfMonth ordinal weekday).FiresOnlyOn options anchor
          (fun date => date.year = year ∧ date.month = month) date := by
  have long := month.le_length (isLeapYear year)
  have largest := month.length_le (isLeapYear year)
  have members (date : Date) : date ∈ Date.weekdayInMonth year month weekday ↔
      (date.year = year ∧ date.month = month) ∧ date.weekday = weekday := Date.mem_weekdayInMonth
  have sorted := Date.weekdayInMonth_sorted year month weekday
  generalize all : Date.weekdayInMonth year month weekday = dates at members sorted ⊢
  obtain ⟨before, short, low, high, dayAt⟩ := Date.day_weekdayInMonth inRange all
  have place := @Ordinal.place_lt ordinal dates.length (by omega)
  refine ⟨⟨sorted, members⟩, by omega, dates[ordinal.place dates.length], ?_, fun other => ?_⟩
  · rw [Ordinal.pick?_eq]
    exact List.getElem?_eq_getElem place
  · rw [weekdayOfMonth_firesOn]
    constructor
    · rintro ⟨⟨rfl, rfl⟩, onDay, selected⟩
      obtain ⟨i, bound, rfl⟩ := List.getElem_of_mem ((members other).mpr ⟨⟨rfl, rfl⟩, onDay⟩)
      rw [dayAt i bound, Ordinal.selects_iff short low high bound] at selected
      subst selected
      rfl
    · rintro rfl
      obtain ⟨⟨sameYear, sameMonth⟩, onDay⟩ := (members _).mp (List.getElem_mem place)
      refine ⟨⟨sameYear, sameMonth⟩, onDay, ?_⟩
      rw [dayAt _ place, sameYear, sameMonth]
      exact (Ordinal.selects_iff short low high place).mpr rfl

/-- The calendar ends on a Monday, the fifth one of its month. -/
theorem last_monday_of_the_calendar :
    let last : Date := ⟨lastDay, by decide⟩
    (firstYear ≤ lastYear ∧ lastYear ≤ lastYear) ∧
      (Date.weekdayInMonth lastYear .december .monday).length = 5 ∧
      (weekdayOfMonth .last .monday).FiresOnlyOn {} last
        (fun date => date.year = lastYear ∧ date.month = .december) last := by
  intro last
  have inRange : firstYear ≤ lastYear ∧ lastYear ≤ lastYear := by decide
  have five : (Date.weekdayInMonth lastYear .december .monday).length = 5 := by decide +kernel
  have picked :
      Ordinal.last.pick? (Date.weekdayInMonth lastYear .december .monday) = some last := by
    decide +kernel
  obtain ⟨_, _, date, found, only⟩ :=
    weekdayOfMonth_fires_once {} last inRange .december .last .monday
  rw [picked] at found
  cases found
  exact ⟨inRange, five, only⟩

/-! ## Dates of the month and of the year -/

/-- Of the dates of a period the rule fires on the one with the given form and on no other. -/
def FiresOnce (rule : Rule) (options : FiringOptions) (anchor : Date) (period : Date → Prop)
    (civil : Civil) : Prop :=
  ∃ date : Date, date.civil = civil ∧ rule.FiresOnlyOn options anchor period date

theorem firesOnce_of_iff {period : Date → Prop} {civil : Civil} (valid : civil.IsValid)
    (inRange : firstYear ≤ civil.year ∧ civil.year ≤ lastYear)
    (fires : ∀ date, period date ∧ rule.firesOn options anchor date = true ↔ date.civil = civil) :
    rule.FiresOnce options anchor period civil := by
  obtain ⟨date, rfl⟩ := Date.exists_civil valid inRange
  refine ⟨date, rfl, fun other => ?_⟩
  rw [fires, Date.civil_injective.eq_iff]

theorem dayOfMonth_firesOnce (inRange : firstYear ≤ year ∧ year ≤ lastYear) (positive : 1 ≤ day)
    (within : day ≤ month.length (isLeapYear year)) :
    (dayOfMonth day).FiresOnce options anchor
      (fun date => date.year = year ∧ date.month = month) ⟨year, month, day⟩ := by
  refine firesOnce_of_iff ⟨positive, within⟩ inRange fun date => ?_
  rw [Date.civil_eq_mk_iff, dayOfMonth_firesOn, and_assoc]

theorem dayOfMonth_firesOn_of_short (short : date.month.length (isLeapYear date.year) < day) :
    (dayOfMonth day).firesOn options anchor date = false := by
  have within := date.day_bounds.2
  rw [Bool.eq_false_iff, ne_eq, dayOfMonth_firesOn]
  omega

/-! ## The leap day -/

/-- A day that some years have and others do not is the leap day. -/
theorem eq_leapDay_of_not_isValid (positive : 1 ≤ day) (within : day ≤ month.longest)
    (invalid : ¬ (Civil.mk year month day).IsValid) :
    month = .february ∧ day = 29 ∧ isLeapYear year = false := by
  have short : ¬ day ≤ month.length (isLeapYear year) := fun within => invalid ⟨positive, within⟩
  cases leap : isLeapYear year with
  | true =>
    rw [leap] at short
    contradiction
  | false =>
    by_cases leapDay : month = .february ∧ day = 29
    · exact ⟨leapDay.1, leapDay.2, rfl⟩
    · exact absurd (Month.le_length_of_common within leapDay _) short

theorem anniversary_firesOn_of_isValid (valid : (Civil.mk date.year month day).IsValid) :
    (anniversary month day).firesOn options anchor date = true ↔
      date.month = month ∧ date.day = day := by
  by_cases leapDay : month = .february ∧ day = 29
  · obtain ⟨rfl, rfl⟩ := leapDay
    cases leap : isLeapYear date.year with
    | true => simp [leapDay_firesOn, leap]
    | false =>
      have within : 29 ≤ Month.february.length (isLeapYear date.year) := valid.2
      rw [leap] at within
      exact absurd within (by decide)
  · exact anniversary_firesOn leapDay

theorem leapDay_firesOn_of_common (common : isLeapYear date.year = false) :
    (anniversary .february 29).firesOn options anchor date = true ↔
      options.leapDay.substitutes date.month date.day = true := by
  have within := date.day_bounds.2
  rw [leapDay_firesOn, common, or_iff_right, and_iff_right rfl]
  rintro ⟨february, last⟩
  rw [common, february, last] at within
  exact absurd within (by decide)

/-- In a common year a rule for the leap day fires once, on the one day that its policy puts in the
place of the leap day. -/
theorem leapDay_firesOnce_of_common (inRange : firstYear ≤ year ∧ year ≤ lastYear)
    (common : isLeapYear year = false) (positive : 1 ≤ day) (within : day ≤ month.length false)
    (only : ∀ other n,
      options.leapDay.substitutes other n = true ↔ other = month ∧ n = day) :
    (anniversary .february 29).FiresOnce options anchor (fun date => date.year = year)
      ⟨year, month, day⟩ := by
  refine firesOnce_of_iff ⟨positive, common ▸ within⟩ inRange fun date => ?_
  rw [Date.civil_eq_mk_iff]
  refine and_congr_right fun sameYear => ?_
  rw [leapDay_firesOn_of_common (sameYear ▸ common), only]

theorem firesOn_of_leapDay (policy : LeapDay)
    (unaffected : rule ≠ anniversary .february 29 ∨ isLeapYear date.year = true) :
    rule.firesOn { options with leapDay := policy } anchor date =
      rule.firesOn options anchor date := by
  cases rule with
  | anniversary month day =>
    rw [Bool.eq_iff_iff]
    by_cases leapDay : month = .february ∧ day = 29
    · obtain ⟨rfl, rfl⟩ := leapDay
      have leap : isLeapYear date.year = true := unaffected.resolve_left fun other => other rfl
      simp [leapDay_firesOn, leap]
    · rw [anniversary_firesOn leapDay, anniversary_firesOn leapDay]
  | daily _ | weekdays | weekly _ _ | dayOfMonth _ | weekdayOfMonth _ _ => rfl

/-- A yearly rule fires once a year, on its own day if the year has it.  Only the leap day can be
missing, and then the policy decides.  A rule for a day of the month fires once in the months that
have the day and never in the others.  No other rule and no leap year feels the policy. -/
theorem by_date_rules_exact (options : FiringOptions) (anchor : Date)
    (inRange : firstYear ≤ year ∧ year ≤ lastYear) :
    (∀ month day rule, onAnniversary? month day = some rule →
        let own : Civil := { year, month, day }
        let once := rule.FiresOnce options anchor fun date => date.year = year
        (own.IsValid → once own) ∧
          (¬ own.IsValid → (month = .february ∧ day = 29 ∧ isLeapYear year = false) ∧
            match options.leapDay with
            | .skip => ∀ date : Date, date.year = year → rule.firesOn options anchor date = false
            | .february28 => once { year, month := .february, day := 28 }
            | .march1 => once { year, month := .march, day := 1 })) ∧
      (∀ month day, 1 ≤ day → day ≤ longestMonth →
        (day ≤ month.length (isLeapYear year) →
            (dayOfMonth day).FiresOnce options anchor
              (fun date => date.year = year ∧ date.month = month) { year, month, day }) ∧
          (month.length (isLeapYear year) < day →
            ∀ date : Date, date.year = year ∧ date.month = month →
              (dayOfMonth day).firesOn options anchor date = false)) ∧
      ∀ (rule : Rule) (policy : LeapDay) (date : Date),
        rule ≠ anniversary .february 29 ∨ isLeapYear date.year = true →
          rule.firesOn { options with leapDay := policy } anchor date =
            rule.firesOn options anchor date := by
  refine ⟨?_, ?_, fun rule policy date => firesOn_of_leapDay policy⟩
  · intro month day rule accepted own once
    obtain ⟨⟨positive, within⟩, rfl⟩ := onAnniversary?_eq_some_iff.mp accepted
    constructor
    · intro valid
      refine firesOnce_of_iff valid inRange fun date => ?_
      rw [Date.civil_eq_mk_iff]
      refine and_congr_right fun sameYear => ?_
      exact anniversary_firesOn_of_isValid (sameYear ▸ valid)
    · intro invalid
      obtain ⟨rfl, rfl, common⟩ := eq_leapDay_of_not_isValid positive within invalid
      refine ⟨⟨rfl, rfl, common⟩, ?_⟩
      cases policy : options.leapDay with
      | skip =>
        intro date sameYear
        rw [Bool.eq_false_iff, ne_eq, leapDay_firesOn_of_common (sameYear ▸ common), policy]
        exact Bool.false_ne_true
      | february28 =>
        refine leapDay_firesOnce_of_common inRange common (by decide) (by decide) fun other n => ?_
        simp [policy, LeapDay.substitutes]
      | march1 =>
        refine leapDay_firesOnce_of_common inRange common (by decide) (by decide) fun other n => ?_
        simp [policy, LeapDay.substitutes]
  · intro month day positive _
    refine ⟨dayOfMonth_firesOnce inRange positive, ?_⟩
    rintro short date ⟨rfl, rfl⟩
    exact dayOfMonth_firesOn_of_short short

/-- The year 1900 is a common year, so its leap day is kept on the first of March, and a rule for
the 31st leaves its February out. -/
theorem leapDay_of_1900 :
    let options : FiringOptions := { leapDay := .march1 }
    let anchor : Date := ⟨693595, by decide⟩
    (firstYear ≤ 1900 ∧ (1900 : Int) ≤ lastYear) ∧
      onAnniversary? .february 29 = some (anniversary .february 29) ∧
      (anniversary .february 29).FiresOnce options anchor (fun date => date.year = 1900)
        ⟨1900, .march, 1⟩ ∧
      ∀ date : Date, date.year = 1900 ∧ date.month = .february →
        (dayOfMonth 31).firesOn options anchor date = false := by
  intro options anchor
  have inRange : firstYear ≤ 1900 ∧ (1900 : Int) ≤ lastYear := by decide
  have accepted : onAnniversary? .february 29 = some (anniversary .february 29) := by decide
  have invalid : ¬ (Civil.mk 1900 .february 29).IsValid := by decide
  have short : Month.february.length (isLeapYear 1900) < 31 := by decide
  obtain ⟨yearly, monthly, _⟩ := by_date_rules_exact options anchor inRange
  refine ⟨inRange, accepted, ((yearly _ _ _ accepted).2 invalid).2, ?_⟩
  exact (monthly .february 31 (by decide) (by decide)).2 short

end Rule

end Cadence
