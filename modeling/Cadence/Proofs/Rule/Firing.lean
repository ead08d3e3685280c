import Cadence.Proofs.Calendar.Next

/-!
# Days that a rule fires on

What `Rule.firesOn` says of each form of a rule, as a proposition, and what becomes of it when the
anchor of a series moves.  Only the two forms that count from the anchor can tell one anchor from
another.

* `Rule.SkipsWeeks` holds of the rules whose blocks of seven days move with the anchor.
* `Rule.firesOn_reanchor`: every other rule goes on from a date of its series as from the anchor.
-/

namespace Cadence.Rule

variable {options : FiringOptions} {anchor date : Date}

theorem daily_firesOn {interval : Count} :
    (daily interval).firesOn options anchor date = true ↔
      anchor.daysBetween date % interval.value = 0 := by
  simp [firesOn]

theorem weekly_firesOn {interval : Count} {days : WeekdaySet} :
    (weekly interval days).firesOn options anchor date = true ↔
      date.weekday ∈ days ∧
        (options.weeklyInterval = .everyNthWeek →
          anchor.daysBetween date / 7 % interval.value = 0) := by
  cases gate : options.weeklyInterval <;> simp [firesOn, gate, Membership.mem]

theorem gated_firesOn {interval : Count} {days : WeekdaySet}
    (gated : options.weeklyInterval = .everyNthWeek) :
    (weekly interval days).firesOn options anchor date = true ↔
      date.weekday ∈ days ∧ anchor.daysBetween date / 7 % interval.value = 0 := by
  simp [weekly_firesOn, gated]

theorem dayOfMonth_firesOn {day : Nat} :
    (dayOfMonth day).firesOn options anchor date = true ↔ date.day = day :=
  decide_eq_true_iff

theorem weekdayOfMonth_firesOn {ordinal : Ordinal} {weekday : Weekday} :
    (weekdayOfMonth ordinal weekday).firesOn options anchor date = true ↔
      date.weekday = weekday ∧
        ordinal.selects (date.month.length (isLeapYear date.year)) date.day = true := by
  simp [firesOn, date.daysInMonth_eq]

theorem leapDay_firesOn :
    (anniversary .february 29).firesOn options anchor date = true ↔
      (date.month = .february ∧ date.day = 29) ∨
        isLeapYear date.year = false ∧
          options.leapDay.substitutes date.month date.day = true := by
  simp [firesOn]

/-- On any day but the leap day, the policy for it makes no difference. -/
theorem anniversary_firesOn {month : Month} {day : Nat}
    (common : ¬ (month = .february ∧ day = 29)) :
    (anniversary month day).firesOn options anchor date = true ↔
      date.month = month ∧ date.day = day := by
  simp only [firesOn, Bool.or_eq_true, Bool.and_eq_true, decide_eq_true_eq, and_assoc]
  constructor
  · rintro (fires | ⟨february, leapDay, _⟩)
    · exact fires
    · exact absurd ⟨february, leapDay⟩ common
  · exact .inl

/-! ## Another anchor -/

/-- Whether the rule leaves out whole blocks of seven days. -/
def SkipsWeeks (rule : Rule) (options : FiringOptions) : Prop :=
  ∃ interval days, rule = weekly interval days ∧ 2 ≤ interval.value ∧
    options.weeklyInterval = .everyNthWeek

theorem daysBetween_add (first second third : Date) :
    first.daysBetween second + second.daysBetween third = first.daysBetween third := by
  unfold Date.daysBetween
  omega

/-- Unless it skips weeks, a rule fires from a date of its series on the same dates as from the
anchor. -/
theorem firesOn_reanchor {rule : Rule} {later : Date} (steady : ¬ rule.SkipsWeeks options)
    (fires : rule.firesOn options anchor later = true) (date : Date) :
    rule.firesOn options later date = rule.firesOn options anchor date := by
  rw [Bool.eq_iff_iff]
  cases rule with
  | daily interval =>
    -- The later date lies a multiple of the interval after the anchor.
    rw [daily_firesOn] at fires
    rw [daily_firesOn, daily_firesOn, ← daysBetween_add anchor later date, Int.add_emod, fires,
      Int.zero_add, Int.emod_emod]
  | weekly interval days =>
    rw [weekly_firesOn, weekly_firesOn]
    refine and_congr_right fun _ => ?_
    apply imp_congr_right
    intro gate
    -- Under the gate only an interval of one leaves out no week.
    have every : interval.value = 1 := by
      rcases Nat.lt_or_ge 1 interval.value with more | least
      · exact absurd ⟨interval, days, rfl, more, gate⟩ steady
      · exact Nat.le_antisymm least interval.positive
    rw [every, show ((1 : Nat) : Int) = 1 from rfl, Int.emod_one, Int.emod_one]
  | weekdays | dayOfMonth _ | weekdayOfMonth _ _ | anniversary _ _ => exact Iff.rfl

end Cadence.Rule
