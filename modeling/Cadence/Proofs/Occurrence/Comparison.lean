import Cadence.Proofs.Calendar.Week
import Cadence.Proofs.Occurrence.Paging
import Mathlib.Data.List.Infix

/-!
# Comparing queries

What a query gives is a part of its series, and the series is told by the day test, the ending and
the horizon.  So two queries are compared without following their walks, which may stop for
different reasons.

* `Query.dates_respelled`: only the day test of a rule matters, so schedules that are spelled as
  different rules are enumerated alike (`Query.spellings_enumerate_alike`).
* `Query.Loosens` says that a query asks for no less than another in any respect.  The looser series
  goes on where the other one ends (`Query.Loosens.series_prefix`), and so do the dates
  (`Query.loosening_appends`).
-/

namespace Cadence

/-! ## Spellings of a schedule -/

section Spellings

variable {options other : FiringOptions} {anchor date : Date} {days : WeekdaySet} {day : Weekday}
  {interval multiple : Count}

theorem WeekdaySet.mem_workweek : day ∈ workweek ↔ day.isWorkday = true := by
  cases day <;> decide

namespace Rule

/-- With an interval of one no week is left out. -/
theorem weekly_one_firesOn :
    (weekly .one days).firesOn options anchor date = true ↔ date.weekday ∈ days := by
  rw [weekly_firesOn, and_iff_left]
  intro _
  exact Int.emod_one _

theorem daily_one_firesOn : (daily .one).firesOn options anchor date = true := by
  rw [daily_firesOn]
  exact Int.emod_one _

theorem weekdays_spelled :
    weekdays.firesOn options anchor date = (weekly .one .workweek).firesOn other anchor date := by
  rw [Bool.eq_iff_iff, weekly_one_firesOn, WeekdaySet.mem_workweek, firesOn]

theorem everyDay_spelled :
    (daily .one).firesOn options anchor date =
      (weekly .one (.ofList Weekday.all)).firesOn other anchor date := by
  rw [Bool.eq_iff_iff, weekly_one_firesOn, WeekdaySet.mem_ofList, daily_one_firesOn]
  simp [Weekday.mem_all]

theorem weekly_one_spelled :
    (weekly .one days).firesOn options anchor date =
      (weekly .one days).firesOn other anchor date := by
  rw [Bool.eq_iff_iff, weekly_one_firesOn, weekly_one_firesOn]

/-- The weekday of the anchor comes at the start of every block, so the blocks that count give the
multiples of their distance. -/
theorem anchor_weekday_spelled (gated : options.weeklyInterval = .everyNthWeek)
    (weeks : multiple.value = 7 * interval.value) :
    (weekly interval (.single anchor.weekday)).firesOn options anchor date =
      (daily multiple).firesOn other anchor date := by
  have start := anchor.index_weekday
  have onDay : date.weekday = anchor.weekday ↔ anchor.daysBetween date % 7 = 0 := by
    rw [Date.weekday_eq_iff, start, Date.daysBetween]
    omega
  rw [Bool.eq_iff_iff, gated_firesOn gated, daily_firesOn, WeekdaySet.mem_single, onDay, weeks]
  generalize anchor.daysBetween date = distance
  constructor
  · rintro ⟨whole, block⟩
    obtain ⟨blocks, split⟩ := Int.dvd_of_emod_eq_zero block
    have total : distance = (7 * interval.value : Nat) * blocks := by
      rw [Int.natCast_mul, Int.mul_assoc, ← split]
      omega
    rw [total, Int.mul_emod_right]
  · intro onStep
    obtain ⟨blocks, total⟩ := Int.dvd_of_emod_eq_zero onStep
    rw [Int.natCast_mul, Int.mul_assoc] at total
    have weeks : distance / 7 = interval.value * blocks := by omega
    exact ⟨by omega, by rw [weeks, Int.mul_emod_right]⟩

end Rule

end Spellings

/-! ## Queries with the same schedule -/

namespace Query

variable {query looser : Query} {date : Date}

/-- The query with another spelling of its schedule. -/
def respelled (query : Query) (rule : Rule) (weeklyInterval : WeeklyInterval) : Query :=
  { query with rule, options := { query.options with weeklyInterval } }

/-- Spellings that fire on the same dates give the same dates. -/
theorem dates_respelled {rule other : Rule} {mode otherMode : WeeklyInterval}
    (same : ∀ date,
      (query.respelled rule mode).fires date = (query.respelled other otherMode).fires date) :
    (query.respelled rule mode).dates = (query.respelled other otherMode).dates := by
  -- The ending, the horizon and the allowance are those of the query in both spellings.
  have admits : (query.respelled rule mode).admits = (query.respelled other otherMode).admits := by
    funext date
    rw [Query.admits, same date]
    rfl
  have series : (query.respelled rule mode).series = (query.respelled other otherMode).series := by
    rw [Query.series, seriesFrom, admits]
    rfl
  rw [dates_eq_take_series, series, dates_eq_take_series]
  rfl

/-- Different spellings of a schedule are enumerated alike, whatever else the query asks for:
working days and a weekly rule for Monday to Friday; every day and a weekly rule for all weekdays;
a weekly rule with an interval of one, gated or not; and a gated weekly rule for the weekday of the
anchor and a daily rule for seven times its interval. -/
theorem spellings_enumerate_alike (query : Query) (mode otherMode : WeeklyInterval) :
    (query.respelled .weekdays mode).dates =
        (query.respelled (.weekly .one .workweek) otherMode).dates ∧
      (query.respelled (.daily .one) mode).dates =
        (query.respelled (.weekly .one (.ofList Weekday.all)) otherMode).dates ∧
      (∀ days,
        (query.respelled (.weekly .one days) .ignore).dates =
          (query.respelled (.weekly .one days) .everyNthWeek).dates) ∧
      ∀ interval multiple : Count, multiple.value = 7 * interval.value →
        (query.respelled (.weekly interval (.single query.anchor.weekday)) .everyNthWeek).dates =
          (query.respelled (.daily multiple) mode).dates := by
  refine ⟨?_, ?_, ?_, ?_⟩
  · exact dates_respelled fun _ => Rule.weekdays_spelled
  · exact dates_respelled fun _ => Rule.everyDay_spelled
  · exact fun _ => dates_respelled fun _ => Rule.weekly_one_spelled
  · exact fun _ _ weeks => dates_respelled fun _ => Rule.anchor_weekday_spelled rfl weeks

/-- Every third Saturday, counted from a Saturday, is every 21st day. -/
theorem third_saturday_is_every_21st_day :
    let query : Query :=
      { rule := .everyDay, anchor := ⟨739254, by decide⟩, ending := .after { value := 30 },
        limit := 8, horizon := 400, produced := 25, options := { leapDay := .march1 } }
    let interval : Count := { value := 3 }
    let multiple : Count := { value := 21 }
    query.anchor.weekday = .saturday ∧ multiple.value = 7 * interval.value ∧
      (query.respelled (.weekly interval (.single query.anchor.weekday)) .everyNthWeek).dates =
        (query.respelled (.daily multiple) .ignore).dates := by
  intro query interval multiple
  have weeks : multiple.value = 7 * interval.value := by decide
  have alike := spellings_enumerate_alike query .ignore .ignore
  exact ⟨by decide, weeks, alike.2.2.2 interval multiple weeks⟩

end Query

/-! ## Looser queries -/

/-- The second ending allows every date that the first one allows. -/
inductive Ending.Loosens : Ending → Ending → Prop where
  | same (ending : Ending) : Loosens ending ending
  | never (ending : Ending) : Loosens ending .never
  | after {count more : Count} (le : count.value ≤ more.value) :
      Loosens (.after count) (.after more)
  | on {last later : Date} (le : last ≤ later) : Loosens (.on last) (.on later)

theorem Ending.Loosens.isPast {ending looser : Ending} {date : Date}
    (loosens : ending.Loosens looser) (allowed : ending.isPast date = false) :
    looser.isPast date = false := by
  cases loosens with
  | same | never | after _ => simp_all [Ending.isPast]
  | on le =>
    simp only [Ending.isPast, decide_eq_false_iff_not, Date.lt_iff, Date.le_iff] at le allowed ⊢
    omega

namespace Query

variable {query looser : Query} {date : Date}

/-- The second query has the schedule of the first one and asks for no less in any respect. -/
structure Loosens (query looser : Query) : Prop where
  rule : looser.rule = query.rule
  anchor : looser.anchor = query.anchor
  options : looser.options = query.options
  ending : query.ending.Loosens looser.ending
  limit : query.limit ≤ looser.limit
  horizon : query.horizon ≤ looser.horizon
  produced : looser.produced ≤ query.produced

namespace Loosens

theorem allowance_le (loosens : query.Loosens looser) : query.allowance ≤ looser.allowance := by
  have limit := loosens.limit
  have produced := loosens.produced
  have ending := loosens.ending
  rw [allowance_eq, allowance_eq]
  generalize query.ending = first, looser.ending = second at ending
  cases ending with
  | same => cases first <;> simp only <;> omega
  | never => cases first <;> simp only <;> omega
  | after le =>
    simp only
    omega
  | on _ => exact limit

theorem admits (loosens : query.Loosens looser) (admitted : query.admits date = true) :
    looser.admits date = true := by
  simp only [Query.admits, fires, Bool.and_eq_true, Bool.not_eq_true'] at admitted ⊢
  rw [loosens.rule, loosens.options, loosens.anchor]
  exact ⟨loosens.ending.isPast admitted.1, admitted.2⟩

/-- Up to the last date of the series both queries have the same dates: the looser one may go on
after it, as its ending and its horizon come later, but it has no other date before it. -/
theorem series_prefix (loosens : query.Loosens looser) : query.series <+: looser.series := by
  apply prefix_of_sorted query.series_sorted looser.series_sorted
  · intro date member
    obtain ⟨after, within, admitted⟩ := mem_series.mp member
    have horizon := loosens.horizon
    rw [mem_series, loosens.anchor]
    exact ⟨after, by omega, loosens.admits admitted⟩
  · rintro date member ⟨shown, shownMember, le⟩
    obtain ⟨after, _, admitted⟩ := mem_series.mp member
    obtain ⟨_, within, shownAdmitted⟩ := mem_series.mp shownMember
    rw [loosens.anchor] at after
    simp only [Query.admits, fires, Bool.and_eq_true, Bool.not_eq_true'] at admitted shownAdmitted
    rw [loosens.rule, loosens.options, loosens.anchor] at admitted
    have allowed := Ending.isPast_of_le le shownAdmitted.1
    rw [mem_series]
    exact ⟨after, Int.le_trans le within, by simp [Query.admits, fires, allowed, admitted.2]⟩

end Loosens

/-- Loosening a query only appends dates.  With a limit and a horizon at least as large, no more
occurrences before the anchor, and an ending that is the same, or none, or of the same kind with a
larger count or a later date, the dates of a query are the first ones that it then gives. -/
theorem loosening_appends (loosens : query.Loosens looser) : query.dates <+: looser.dates := by
  rw [dates_eq_take_series, dates_eq_take_series]
  have shorter : query.series.take query.allowance <+: looser.series.take query.allowance :=
    loosens.series_prefix.take query.allowance
  exact shorter.trans (List.take_isPrefix_take.mpr (.inl loosens.allowance_le))

/-- Two more of a counted series may come, over a longer horizon and with more room. -/
theorem counted_series_goes_on :
    let query : Query :=
      { rule := .anniversary .february 29, anchor := ⟨739252, by decide⟩,
        ending := .after { value := 4 }, limit := 3, horizon := 365, produced := 3,
        options := { leapDay := .february28 } }
    let looser : Query :=
      { query with ending := .after { value := 6 }, limit := 10, horizon := 4000, produced := 1 }
    query.Loosens looser ∧ query.dates <+: looser.dates := by
  intro query looser
  have loosens : query.Loosens looser :=
    { rule := rfl, anchor := rfl, options := rfl, ending := .after (by decide),
      limit := by decide, horizon := by decide, produced := by decide }
  exact ⟨loosens, loosening_appends loosens⟩

end Query

end Cadence
