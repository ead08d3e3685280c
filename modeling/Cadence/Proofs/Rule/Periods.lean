import Cadence.Proofs.Calendar.Civil
import Cadence.Proofs.Calendar.Week
import Cadence.Proofs.Rule.Firing
import Mathlib.Algebra.Ring.Periodic

/-!
# Periods of the day test

Whether a rule fires on a date depends on the distance from the anchor modulo its interval, on the
weekday, or on the place in the calendar, each of which comes round again.  Nothing in this looks at
the order of the date and the anchor, so the test repeats on both sides of the anchor.

* `Rule.period` is a number of days after which the test of a rule repeats
  (`Rule.firesOn_addDays?`).
* `countP_daysFrom`: a periodic test holds on equally many days of every period.  So the dates on
  which a rule fires are counted over the period where this is easiest, from the anchor or from a
  Monday.
* `Rule.firesOn_periodic` puts the two together.
-/

namespace Cadence

/-! ## Days in a row -/

/-- So many day numbers in a row. -/
def daysFrom (start : Int) (count : Nat) : List Int :=
  (List.range count).map fun i : Nat => start + i

theorem daysFrom_succ (start : Int) (count : Nat) :
    daysFrom start (count + 1) = start :: daysFrom (start + 1) count := by
  simp [daysFrom, List.range_succ_eq_map, Function.comp_def, Int.add_assoc, Int.add_comm 1]

theorem daysFrom_succ_last (start : Int) (count : Nat) :
    daysFrom start (count + 1) = daysFrom start count ++ [start + count] := by
  simp [daysFrom, List.range_succ]

theorem daysFrom_add (start : Int) (first second : Nat) :
    daysFrom start (first + second) = daysFrom start first ++ daysFrom (start + first) second := by
  simp [daysFrom, List.range_add, Function.comp_def, Int.add_assoc]

theorem mem_daysFrom {start n : Int} {count : Nat} :
    n ∈ daysFrom start count ↔ start ≤ n ∧ n < start + count := by
  simp only [daysFrom, List.mem_map, List.mem_range]
  constructor
  · rintro ⟨i, bound, rfl⟩
    omega
  · rintro ⟨lower, upper⟩
    exact ⟨(n - start).toNat, by omega, by omega⟩

/-- Over a period a test holds on equally many days wherever the period starts. -/
theorem countP_daysFrom {test : Int → Bool} {period : Nat}
    (periodic : Function.Periodic test period) (start other : Int) :
    (daysFrom start period).countP test = (daysFrom other period).countP test := by
  -- Moving on by a day drops the first day and adds one on which the test is the same.
  have step : Function.Periodic (fun start => (daysFrom start period).countP test) 1 := by
    intro start
    have both := daysFrom_succ_last start period
    rw [daysFrom_succ] at both
    have counts := congrArg (List.countP test) both
    simp only [List.countP_cons, List.countP_append, List.countP_nil, periodic start] at counts
    show (daysFrom (start + 1) period).countP test = (daysFrom start period).countP test
    omega
  have origin (start : Int) := step.int_mul_eq start
  simp only [mul_one, Int.cast_id] at origin
  rw [origin start, origin other]

/-- The dates follow each other day by day. -/
def Consecutive (dates : List Date) : Prop :=
  dates.IsChain fun date next => next.dayNumber = date.dayNumber + 1

instance (dates : List Date) : Decidable (Consecutive dates) :=
  inferInstanceAs (Decidable (List.IsChain _ dates))

namespace Consecutive

variable {dates : List Date}

theorem exists_daysFrom (consecutive : Consecutive dates) :
    ∃ start, dates.map Date.dayNumber = daysFrom start dates.length := by
  induction dates with
  | nil => exact ⟨0, rfl⟩
  | cons date dates ih =>
    refine ⟨date.dayNumber, ?_⟩
    rw [List.map_cons, List.length_cons, daysFrom_succ]
    cases dates with
    | nil => rfl
    | cons next dates =>
      obtain ⟨follows, rest⟩ := List.isChain_cons_cons.mp consecutive
      obtain ⟨start, numbers⟩ := ih rest
      have first : next.dayNumber = start := by
        rw [List.map_cons, List.length_cons, daysFrom_succ] at numbers
        exact (List.cons.inj numbers).1
      rw [numbers, ← first, follows]

/-- A periodic test holds on as many dates of a period as on days of a period anywhere. -/
theorem countP_eq (consecutive : Consecutive dates) {test : Int → Bool}
    (periodic : Function.Periodic test dates.length) (start : Int) :
    dates.countP (fun date => test date.dayNumber) = (daysFrom start dates.length).countP test := by
  obtain ⟨first, numbers⟩ := consecutive.exists_daysFrom
  rw [countP_daysFrom periodic start first, ← numbers, List.countP_map]
  rfl

end Consecutive

/-! ## Weekdays in a row -/

/-- The weekday of a day number. -/
def Weekday.ofDayNumber (n : Int) : Weekday := .ofIndex (n % 7).toNat

theorem Weekday.ofDayNumber_periodic : Function.Periodic ofDayNumber (7 : Nat) := by
  intro n
  rw [ofDayNumber, Int.cast_ofNat_Int, Int.add_emod_right, ofDayNumber]

theorem Date.weekday_eq (date : Date) : date.weekday = .ofDayNumber date.dayNumber := rfl

/-- Each weekday comes once in any seven days. -/
theorem countP_week (test : Weekday → Bool) (start : Int) :
    (daysFrom start 7).countP (test ∘ Weekday.ofDayNumber) = Weekday.all.countP test := by
  have monday : (daysFrom 0 7).map Weekday.ofDayNumber = Weekday.all := by decide
  rw [countP_daysFrom (Weekday.ofDayNumber_periodic.comp test) start 0, ← monday, List.countP_map]

/-! ## Day tests that count from the anchor -/

section

variable {interval : Count} {selected : WeekdaySet} {anchor : Int}

/-- The day test of a daily rule, on day numbers. -/
def dailyTest (interval : Count) (anchor n : Int) : Bool := (n - anchor) % interval.value = 0

/-- The day test of a weekly rule whose interval gates its weeks, on day numbers. -/
def gatedTest (interval : Count) (selected : WeekdaySet) (anchor n : Int) : Bool :=
  selected.contains (.ofDayNumber n) && (n - anchor) / 7 % interval.value = 0

theorem dailyTest_periodic : Function.Periodic (dailyTest interval anchor) interval.value := by
  intro n
  have moved : n + interval.value - anchor = n - anchor + interval.value := by omega
  simp only [dailyTest, moved, Int.add_emod_right]

theorem gatedTest_periodic :
    Function.Periodic (gatedTest interval selected anchor) (7 * interval.value : Nat) := by
  intro n
  have weekday : Weekday.ofDayNumber (n + (7 * interval.value : Nat)) = .ofDayNumber n := by
    rw [Weekday.ofDayNumber, Int.natCast_mul, Int.cast_ofNat_Int, Int.add_mul_emod_self_left,
      Weekday.ofDayNumber]
  -- The block moves on by the interval.
  have block : (n + (7 * interval.value : Nat) - anchor) / 7 =
      (n - anchor) / 7 + interval.value := by
    omega
  simp only [gatedTest, weekday, block, Int.add_emod_right]

/-- From the anchor on, a daily rule fires on the anchor itself and then not for the rest of the
period. -/
theorem countP_dailyTest :
    (daysFrom anchor interval.value).countP (dailyTest interval anchor) = 1 := by
  have here : dailyTest interval anchor anchor = true := by simp [dailyTest]
  have rest :
      (daysFrom (anchor + 1) (interval.value - 1)).countP (dailyTest interval anchor) = 0 := by
    rw [List.countP_eq_zero]
    intro n member
    have bounds := mem_daysFrom.mp member
    have small : (n - anchor) % interval.value = n - anchor :=
      Int.emod_eq_of_lt (by omega) (by omega)
    simp only [dailyTest, small, decide_eq_true_eq]
    omega
  have split := daysFrom_succ anchor (interval.value - 1)
  rw [Nat.sub_add_cancel interval.positive] at split
  rw [split, List.countP_cons_of_pos here, rest]

/-- Of the blocks of a period from the anchor on only the first one counts. -/
theorem countP_gatedTest :
    (daysFrom anchor (7 * interval.value)).countP (gatedTest interval selected anchor) =
      selected.size := by
  have first : (daysFrom anchor 7).countP (gatedTest interval selected anchor) = selected.size := by
    rw [WeekdaySet.size_eq_countP, ← countP_week _ anchor]
    apply List.countP_congr
    intro n member
    have bounds := mem_daysFrom.mp member
    have block : (n - anchor) / 7 = 0 := by omega
    simp [gatedTest, block]
  have rest : (daysFrom (anchor + 7) (7 * interval.value - 7)).countP
      (gatedTest interval selected anchor) = 0 := by
    rw [List.countP_eq_zero]
    intro n member
    have bounds := mem_daysFrom.mp member
    have small : (n - anchor) / 7 % interval.value = (n - anchor) / 7 :=
      Int.emod_eq_of_lt (by omega) (by omega)
    have block : (n - anchor) / 7 ≠ 0 := by omega
    simp [gatedTest, small, block]
  have positive := interval.positive
  have split := daysFrom_add anchor 7 (7 * interval.value - 7)
  rw [Nat.add_sub_of_le (by omega)] at split
  rw [split, List.countP_append, first, Int.cast_ofNat_Int, rest, Nat.add_zero]

end

/-! ## Rules -/

namespace Rule

variable {options : FiringOptions} {anchor date later : Date} {interval : Count}
  {selected : WeekdaySet} {dates : List Date} {rule : Rule}

theorem daily_firesOn_eq :
    (daily interval).firesOn options anchor =
      fun date => dailyTest interval anchor.dayNumber date.dayNumber := rfl

theorem gated_firesOn_eq (gated : options.weeklyInterval = .everyNthWeek) :
    (weekly interval selected).firesOn options anchor =
      fun date => gatedTest interval selected anchor.dayNumber date.dayNumber := by
  funext date
  simp only [firesOn, gated]
  rfl

theorem ungated_firesOn_eq (ungated : options.weeklyInterval = .ignore) :
    (weekly interval selected).firesOn options anchor =
      fun date => selected.contains date.weekday := by
  funext date
  simp [firesOn, ungated]

/-- A number of days after which the day test of the rule repeats.  For a rule that follows the
calendar these are the days of 400 years. -/
def period (options : FiringOptions) : Rule → Nat
  | .daily interval => interval.value
  | .weekdays => 7
  | .weekly interval _ =>
    match options.weeklyInterval with
    | .ignore => 7
    | .everyNthWeek => 7 * interval.value
  | .dayOfMonth _ | .weekdayOfMonth _ _ | .anniversary _ _ => 146097

/-- On how many days of a period the rule fires, if it counts days or weeks. -/
def firingsPerPeriod? : Rule → Option Nat
  | .daily _ => some 1
  | .weekdays => some 5
  | .weekly _ days => some days.size
  | .dayOfMonth _ | .weekdayOfMonth _ _ | .anniversary _ _ => none

/-- After 400 years a date has its weekday, its month, its day and the length of its year again. -/
theorem firesOn_of_cycle (calendar : rule.firingsPerPeriod? = none)
    (cycle : later.dayNumber = date.dayNumber + 146097) :
    rule.firesOn options anchor later = rule.firesOn options anchor date := by
  have sameWeekday : later.weekday = date.weekday := by
    have whole := Weekday.ofDayNumber_periodic.nat_mul 20871 date.dayNumber
    rw [Date.weekday_eq, cycle, Date.weekday_eq]
    exact whole
  have civil : later.civil = { date.civil with year := date.year + 400 } := by
    rw [Date.civil, cycle, Civil.ofDayNumber_add_cycle]
    rfl
  have sameMonth : later.month = date.month := by rw [Date.month, civil, Date.month]
  have sameDay : later.day = date.day := by rw [Date.day, civil, Date.day]
  have sameLeap : isLeapYear later.year = isLeapYear date.year := by
    rw [Date.year, civil, isLeapYear_add_cycle]
  cases rule with
  | daily _ | weekdays | weekly _ _ => contradiction
  | dayOfMonth day => simp only [firesOn, sameDay]
  | weekdayOfMonth ordinal weekday =>
    simp only [firesOn, Date.daysInMonth_eq, sameWeekday, sameMonth, sameDay, sameLeap]
  | anniversary month day => simp only [firesOn, sameMonth, sameDay, sameLeap]

/-- The day test of a rule is the same a period later. -/
theorem firesOn_addDays? (reached : date.addDays? (rule.period options) = some later) :
    rule.firesOn options anchor later = rule.firesOn options anchor date := by
  rw [Date.addDays?_eq_some_iff] at reached
  have weekLater (week : later.dayNumber = date.dayNumber + (7 : Nat)) :
      later.weekday = date.weekday := by
    rw [Date.weekday_eq, week, Weekday.ofDayNumber_periodic, Date.weekday_eq]
  cases rule with
  | daily interval =>
    simp only [daily_firesOn_eq, reached, period, dailyTest_periodic date.dayNumber]
  | weekdays => simp only [firesOn, weekLater reached]
  | weekly interval selected =>
    cases gate : options.weeklyInterval with
    | ignore =>
      simp only [period, gate] at reached
      simp only [ungated_firesOn_eq gate, weekLater reached]
    | everyNthWeek =>
      simp only [period, gate] at reached
      simp only [gated_firesOn_eq gate, reached, gatedTest_periodic date.dayNumber]
  | dayOfMonth _ | weekdayOfMonth _ _ | anniversary _ _ => exact firesOn_of_cycle rfl reached

/-- A rule that looks at the weekday alone fires in a week as often as there are such weekdays. -/
theorem countP_weekday (consecutive : Consecutive dates) (long : dates.length = 7)
    (test : Weekday → Bool) :
    dates.countP (fun date => test date.weekday) = Weekday.all.countP test := by
  have periodic : Function.Periodic (test ∘ Weekday.ofDayNumber) dates.length :=
    long ▸ Weekday.ofDayNumber_periodic.comp test
  have counted := consecutive.countP_eq periodic 0
  rw [long, countP_week] at counted
  exact counted

theorem countP_firesOn (consecutive : Consecutive dates)
    (long : dates.length = rule.period options) {count : Nat}
    (known : rule.firingsPerPeriod? = some count) :
    dates.countP (rule.firesOn options anchor) = count := by
  cases rule with
  | daily interval =>
    simp only [period, firingsPerPeriod?, Option.some.injEq] at long known
    subst known
    have periodic : Function.Periodic (dailyTest interval anchor.dayNumber) dates.length :=
      long ▸ dailyTest_periodic
    have counted := consecutive.countP_eq periodic anchor.dayNumber
    rw [long, countP_dailyTest] at counted
    exact counted
  | weekdays =>
    simp only [period, firingsPerPeriod?, Option.some.injEq] at long known
    subst known
    exact countP_weekday consecutive long Weekday.isWorkday
  | weekly interval selected =>
    simp only [firingsPerPeriod?, Option.some.injEq] at known
    subst known
    cases gate : options.weeklyInterval with
    | ignore =>
      simp only [period, gate] at long
      rw [ungated_firesOn_eq gate, WeekdaySet.size_eq_countP, ← countP_weekday consecutive long]
    | everyNthWeek =>
      simp only [period, gate] at long
      have periodic :
          Function.Periodic (gatedTest interval selected anchor.dayNumber) dates.length :=
        long ▸ gatedTest_periodic
      have counted := consecutive.countP_eq periodic anchor.dayNumber
      rw [long, countP_gatedTest] at counted
      rw [gated_firesOn_eq gate, counted]
  | dayOfMonth _ | weekdayOfMonth _ _ | anniversary _ _ => contradiction

/-- The day test of every rule is periodic, before the anchor as well as after it.  It is the same
on any two dates that lie a period apart, and of the dates of a period in a row, wherever they
start, a daily rule fires on one, a rule for working days on five, and a weekly rule on as many as
it has weekdays. -/
theorem firesOn_periodic (rule : Rule) (options : FiringOptions) (anchor : Date) :
    (∀ date later, date.addDays? (rule.period options) = some later →
        rule.firesOn options anchor later = rule.firesOn options anchor date) ∧
      ∀ dates, Consecutive dates → dates.length = rule.period options →
        ∀ count ∈ rule.firingsPerPeriod?, dates.countP (rule.firesOn options anchor) = count :=
  ⟨fun _ _ => firesOn_addDays?, fun _ consecutive long _ => countP_firesOn consecutive long⟩

/-- A rule for every second Monday and Sunday, anchored on a Thursday.  It fires on the same days of
the fortnight before the anchor as of the one after it, and twice in a fortnight around it. -/
theorem fortnight_around_the_anchor :
    let rule := weekly { value := 2 } (.ofList [.monday, .sunday])
    let options : FiringOptions := { weeklyInterval := .everyNthWeek }
    let anchor : Date := ⟨739252, by decide⟩
    let before : Date := ⟨739242, by decide⟩
    let after : Date := ⟨739256, by decide⟩
    let dates := (List.range 14).filterMap before.addDays?
    before.addDays? (rule.period options) = some after ∧
      rule.firesOn options anchor after = rule.firesOn options anchor before ∧
      Consecutive dates ∧ dates.length = rule.period options ∧ 2 ∈ rule.firingsPerPeriod? ∧
      dates.countP (rule.firesOn options anchor) = 2 := by
  intro rule options anchor before after dates
  have reached : before.addDays? (rule.period options) = some after := by decide
  have consecutive : Consecutive dates := by decide
  have long : dates.length = rule.period options := by decide
  have known : 2 ∈ rule.firingsPerPeriod? := by decide
  obtain ⟨repeats, counts⟩ := firesOn_periodic rule options anchor
  exact ⟨reached, repeats before after reached, consecutive, long, known,
    counts dates consecutive long 2 known⟩

end Rule

end Cadence
