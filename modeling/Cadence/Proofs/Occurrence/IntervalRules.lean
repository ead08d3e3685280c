import Cadence.Proofs.Calendar.Week
import Cadence.Proofs.Occurrence.Enumeration
import Cadence.Proofs.Rule.Firing
import Mathlib.Data.List.Sort
import Mathlib.Order.Bounds.Basic

/-!
# Interval rules in closed form

A walk tests every day after the anchor, also for a rule whose days are known beforehand because it
counts an interval from the anchor.  For such rules the offsets of the days form a list that can be
written down: the multiples of the interval, or the chosen days of every so many blocks of seven.

* `Query.series_eq_filterMap`: a series is told by the offsets of its dates.
* `Query.interval_rules_closed_form`: the dates of daily rules, and of weekly rules under the gate,
  are those at the offsets in closed form.
-/

namespace Cadence

instance : @Std.Irrefl Date (· < ·) where
  irrefl date := Int.lt_irrefl date.dayNumber

instance : @Std.Antisymm Date (· < ·) where
  antisymm _ _ lt gt := absurd gt (Int.lt_asymm lt)

namespace Date

/-- The number of days that the calendar still has after the date. -/
def daysLeft (date : Date) : Nat := (lastDay - date.dayNumber).toNat

theorem exists_addDays?_iff {date : Date} {days : Nat} :
    (∃ later, date.addDays? days = some later) ↔ days ≤ date.daysLeft := by
  have start := date.inCalendar
  simp only [addDays?_eq_some_iff, daysLeft]
  constructor
  · rintro ⟨later, reached⟩
    have stop := later.inCalendar
    omega
  · intro left
    exact ⟨⟨date.dayNumber + days, by omega, by omega⟩, rfl⟩

end Date

/-! ## Offsets -/

/-- The multiples of the interval up to a bound. -/
def multiples (interval bound : Nat) : List Nat :=
  (List.range' 1 (bound / interval)).map (· * interval)

/-- The offsets, up to the horizon, of the chosen days in every so many blocks of seven days. -/
def blockOffsets (interval : Nat) (days : WeekdaySet) (start : Weekday) (horizon : Nat) :
    List Nat :=
  let residues := (List.range 7).filter fun residue => start.later residue ∈ days
  let blocks := List.range (horizon / (7 * interval) + 1)
  (blocks.flatMap fun block => residues.map fun residue => 7 * interval * block + residue).filter
    fun offset => 1 ≤ offset ∧ offset ≤ horizon

section

variable {interval bound horizon offset : Nat} {days : WeekdaySet} {start : Weekday}

theorem mem_multiples (positive : 0 < interval) :
    offset ∈ multiples interval bound ↔
      (1 ≤ offset ∧ offset ≤ bound) ∧ offset % interval = 0 := by
  simp only [multiples, List.mem_map, List.mem_range'_1]
  constructor
  · rintro ⟨step, ⟨first, last⟩, rfl⟩
    refine ⟨⟨Nat.mul_pos first positive, ?_⟩, Nat.mul_mod_left step interval⟩
    exact (Nat.le_div_iff_mul_le positive).mp (by omega)
  · rintro ⟨⟨first, last⟩, whole⟩
    obtain ⟨step, rfl⟩ := Nat.dvd_of_mod_eq_zero whole
    rw [Nat.mul_comm] at first last
    refine ⟨step, ⟨Nat.pos_of_mul_pos_right first, ?_⟩, Nat.mul_comm step interval⟩
    have := (Nat.le_div_iff_mul_le positive).mpr last
    omega

theorem multiples_sorted (positive : 0 < interval) :
    (multiples interval bound).Pairwise (· < ·) := by
  have ascending : (List.range' 1 (bound / interval)).Pairwise (· < ·) := List.pairwise_lt_range'
  exact List.pairwise_map.mpr (ascending.imp fun lt => Nat.mul_lt_mul_of_pos_right lt positive)

theorem take_range' (first count limit : Nat) :
    (List.range' first count).take limit = List.range' first (min limit count) := by
  apply List.ext_getElem <;> simp

theorem mem_blockOffsets (positive : 0 < interval) :
    offset ∈ blockOffsets interval days start horizon ↔
      (1 ≤ offset ∧ offset ≤ horizon) ∧
        ∃ block residue, offset = 7 * interval * block + residue ∧ residue ≤ 6 ∧
          start.later residue ∈ days := by
  simp only [blockOffsets, List.mem_filter, List.mem_flatMap, List.mem_map, List.mem_range,
    decide_eq_true_eq]
  constructor
  · rintro ⟨⟨block, _, residue, ⟨small, selected⟩, rfl⟩, bounds⟩
    exact ⟨bounds, block, residue, rfl, Nat.le_of_lt_succ small, selected⟩
  · rintro ⟨bounds, block, residue, rfl, small, selected⟩
    refine ⟨⟨block, ?_, residue, ⟨Nat.lt_succ_of_le small, selected⟩, rfl⟩, bounds⟩
    rw [Nat.lt_succ_iff, Nat.le_div_iff_mul_le (by omega), Nat.mul_comm]
    omega

theorem blockOffsets_sorted (positive : 0 < interval) :
    (blockOffsets interval days start horizon).Pairwise (· < ·) := by
  refine List.Pairwise.filter _ (List.pairwise_flatMap.mpr ⟨?_, ?_⟩)
  · intro block _
    rw [List.pairwise_map]
    exact (List.pairwise_lt_range.filter _).imp fun lt => Nat.add_lt_add_left lt _
  · refine List.pairwise_lt_range.imp fun {block next} less => ?_
    -- A block ends before the next one that counts starts.
    have step : 7 * interval * (block + 1) ≤ 7 * interval * next := Nat.mul_le_mul_left _ less
    rw [Nat.mul_succ] at step
    simp only [List.mem_map, List.mem_filter, List.mem_range]
    rintro _ ⟨residue, ⟨small, _⟩, rfl⟩ _ ⟨other, _, rfl⟩
    omega

/-- An offset lies in a block that counts if the number of whole weeks in it is a multiple of the
interval. -/
theorem block_iff {chosen : Nat → Prop} :
    (∃ block residue, offset = 7 * interval * block + residue ∧ residue ≤ 6 ∧ chosen residue) ↔
      chosen (offset % 7) ∧ offset / 7 % interval = 0 := by
  constructor
  · rintro ⟨block, residue, rfl, small, chosen⟩
    rw [Nat.mul_assoc, show (7 * (interval * block) + residue) % 7 = residue by omega,
      show (7 * (interval * block) + residue) / 7 = interval * block by omega]
    exact ⟨chosen, Nat.mul_mod_right interval block⟩
  · rintro ⟨chosen, whole⟩
    obtain ⟨block, weeks⟩ := Nat.dvd_of_mod_eq_zero whole
    exact ⟨block, offset % 7, by rw [Nat.mul_assoc]; omega, by omega, chosen⟩

end

namespace Query

/-! ## Series -/

variable {query : Query} {offsets : List Nat}

/-- A series is told by the offsets of its dates. -/
theorem series_eq_filterMap (never : query.ending = .never) (sorted : offsets.Pairwise (· < ·))
    (exact : ∀ (offset : Nat) (date : Date), date.dayNumber = query.anchor.dayNumber + offset →
      (offset ∈ offsets ↔ (1 ≤ offset ∧ offset ≤ query.horizon) ∧
        query.rule.firesOn query.options query.anchor date = true)) :
    query.series = offsets.filterMap query.anchor.addDays? := by
  refine (query.seriesFrom_sorted 0).eq_of_mem_iff
    (filterMap_addDays?_sorted query.anchor sorted) fun date => ?_
  simp only [mem_seriesFrom, List.mem_filterMap, Date.addDays?_eq_some_iff, admits_eq_true_iff,
    never, reduceCtorEq, false_implies, implies_true, true_and]
  refine exists_congr fun offset => ?_
  constructor
  · rintro ⟨positive, within, reached, fires⟩
    exact ⟨(exact offset date reached).mpr ⟨⟨positive, within⟩, fires⟩, reached⟩
  · rintro ⟨member, reached⟩
    obtain ⟨⟨positive, within⟩, fires⟩ := (exact offset date reached).mp member
    exact ⟨positive, within, reached, fires⟩

theorem dates_eq_take_of_never (never : query.ending = .never) :
    query.dates = query.series.take query.limit := by
  rw [dates_eq_take_series, allowance_eq, never]

section

variable {anchor : Date} {interval : Count} {days : WeekdaySet} {limit horizon : Nat}

theorem daily_series (never : query.ending = .never) (daily : query.rule = .daily interval) :
    query.series =
      (multiples interval.value (min query.horizon query.anchor.daysLeft)).filterMap
        query.anchor.addDays? := by
  refine series_eq_filterMap never (multiples_sorted interval.positive) ?_
  intro offset date reached
  have left : offset ≤ query.anchor.daysLeft :=
    Date.exists_addDays?_iff.mp ⟨date, Date.addDays?_eq_some_iff.mpr reached⟩
  have distance : query.anchor.daysBetween date = offset := by
    rw [Date.daysBetween]
    omega
  rw [mem_multiples interval.positive, Nat.le_min, and_iff_left left, daily, Rule.daily_firesOn,
    distance]
  norm_cast

/-- The number of dates of a daily rule. -/
def dailySteps (anchor : Date) (interval : Count) (limit horizon : Nat) : Nat :=
  min limit (min horizon anchor.daysLeft / interval.value)

theorem isGreatest_dailySteps :
    IsGreatest {steps : Nat | steps ≤ limit ∧ steps * interval.value ≤ horizon ∧
        ∃ date, anchor.addDays? (steps * interval.value) = some date}
      (dailySteps anchor interval limit horizon) := by
  have within (steps : Nat) : steps ≤ min horizon anchor.daysLeft / interval.value ↔
      steps * interval.value ≤ horizon ∧
        ∃ date, anchor.addDays? (steps * interval.value) = some date := by
    rw [Nat.le_div_iff_mul_le interval.positive, Nat.le_min, Date.exists_addDays?_iff]
  simp only [← within, ← Nat.le_min]
  exact isGreatest_Iic

theorem daily_dates (never : query.ending = .never) (daily : query.rule = .daily interval) :
    query.dates.map some =
      (List.range' 1 (dailySteps query.anchor interval query.limit query.horizon)).map fun step =>
        query.anchor.addDays? (step * interval.value) := by
  have inCalendar (offset : Nat)
      (member : offset ∈ multiples interval.value (min query.horizon query.anchor.daysLeft)) :
      (query.anchor.addDays? offset).isSome = true := by
    obtain ⟨⟨_, within⟩, _⟩ := (mem_multiples interval.positive).mp member
    exact Option.isSome_iff_exists.mpr (Date.exists_addDays?_iff.mpr (Nat.le_min.mp within).2)
  -- No multiple is lost to the end of the calendar, as they stop before it.
  have kept : query.series.map some =
      (multiples interval.value (min query.horizon query.anchor.daysLeft)).map
        query.anchor.addDays? := by
    rw [daily_series never daily, List.map_filterMap_some_eq_filter_map_isSome, List.filter_eq_self]
    simpa using inCalendar
  rw [dates_eq_take_of_never never, List.map_take, kept, multiples, List.map_map, ← List.map_take,
    take_range', dailySteps]
  rfl

theorem weekly_series (never : query.ending = .never) (weekly : query.rule = .weekly interval days)
    (gated : query.options.weeklyInterval = .everyNthWeek) :
    query.series =
      (blockOffsets interval.value days query.anchor.weekday query.horizon).filterMap
        query.anchor.addDays? := by
  refine series_eq_filterMap never (blockOffsets_sorted interval.positive) ?_
  intro offset date reached
  have distance : query.anchor.daysBetween date = offset := by
    rw [Date.daysBetween]
    omega
  rw [mem_blockOffsets interval.positive, block_iff, weekly, Rule.gated_firesOn gated, distance,
    Date.weekday_eq_later reached]
  refine and_congr_right fun _ => and_congr_right fun _ => ?_
  norm_cast

end

/-- Without an ending, a daily rule gives the multiples of its interval after the anchor, as many as
the limit, the horizon and the calendar have room for.  Under the gate, a weekly rule gives the
first dates of the calendar whose offset from the anchor is that of a selected weekday in a block
that counts. -/
theorem interval_rules_closed_form (anchor : Date) (interval : Count)
    (limit horizon produced : Nat) :
    (∀ options,
        let query : Query :=
          { rule := .daily interval, anchor, ending := .never, limit, horizon, produced, options }
        ∃ steps,
          IsGreatest {i : Nat | i ≤ limit ∧ i * interval.value ≤ horizon ∧
              ∃ date, anchor.addDays? (i * interval.value) = some date} steps ∧
            query.dates.map some =
              (List.range' 1 steps).map fun i => anchor.addDays? (i * interval.value)) ∧
      ∀ (days : WeekdaySet) (leapDay : LeapDay),
        let query : Query :=
          { rule := .weekly interval days, anchor, ending := .never, limit, horizon, produced,
            options := { weeklyInterval := .everyNthWeek, leapDay } }
        let offsets := blockOffsets interval.value days anchor.weekday horizon
        query.dates = (offsets.filterMap anchor.addDays?).take limit ∧
          offsets.Pairwise (· < ·) ∧
          ∀ offset, offset ∈ offsets ↔ (1 ≤ offset ∧ offset ≤ horizon) ∧
            ∃ block residue, offset = 7 * interval.value * block + residue ∧ residue ≤ 6 ∧
              anchor.weekday.later residue ∈ days := by
  refine ⟨fun options => ⟨_, isGreatest_dailySteps, daily_dates rfl rfl⟩, ?_⟩
  intro days leapDay query offsets
  refine ⟨?_, blockOffsets_sorted interval.positive, fun offset => ?_⟩
  · rw [dates_eq_take_of_never rfl, weekly_series rfl rfl rfl]
  · exact mem_blockOffsets interval.positive

end Query

end Cadence
