import Cadence.Occurrence.Query

/-!
# What a query enumerates

A query is answered by a walk that stops for good in four ways: enough dates, the horizon, a date
past the ending, the end of the calendar.  This module compares the walk with a filter over the days
after the anchor, which knows nothing of stopping.

* `Query.series` is that filter: every date up to the horizon that belongs to the series.
* `Query.seriesFrom_advance` says what one step of the walk does to what is left of the filter.
* `Cursor.dates_eq_pending` says what a whole walk does, from any point of it.

Stopping early loses nothing because both early stops are monotone: a date past the ending, or past
the calendar, is followed by such dates only.
-/

namespace Cadence

/-- A date before one that the ending allows is allowed as well. -/
theorem Ending.isPast_of_le {ending : Ending} {date later : Date} (le : date ≤ later)
    (allowed : ending.isPast later = false) : ending.isPast date = false := by
  cases ending with
  | never | after _ => rfl
  | on last =>
    simp only [isPast, decide_eq_false_iff_not, Date.lt_iff, Date.le_iff] at le allowed ⊢
    omega

namespace Query

/-! ## The series as a filter -/

/-- Whether the date belongs to the series. -/
def admits (query : Query) (date : Date) : Bool :=
  !query.ending.isPast date && query.fires date

/-- The dates of the series later than `offset` days after the anchor, up to the horizon. -/
def seriesFrom (query : Query) (offset : Nat) : List Date :=
  ((List.range' (offset + 1) (query.horizon - offset)).filterMap query.anchor.addDays?).filter
    query.admits

/-- The dates of the series after the anchor, up to the horizon. -/
def series (query : Query) : List Date := query.seriesFrom 0

theorem mem_seriesFrom {query : Query} {offset : Nat} {date : Date} :
    date ∈ query.seriesFrom offset ↔
      ∃ days, offset < days ∧ days ≤ query.horizon ∧
        date.dayNumber = query.anchor.dayNumber + days ∧ query.admits date = true := by
  simp only [seriesFrom, List.mem_filter, List.mem_filterMap, List.mem_range'_1,
    Date.addDays?_eq_some_iff]
  constructor
  · rintro ⟨⟨days, bounds, reached⟩, admitted⟩
    exact ⟨days, by omega, by omega, reached, admitted⟩
  · rintro ⟨days, after, within, reached, admitted⟩
    exact ⟨⟨days, by omega, reached⟩, admitted⟩

theorem mem_series {query : Query} {date : Date} :
    date ∈ query.series ↔
      query.anchor < date ∧ date.dayNumber ≤ query.anchor.dayNumber + query.horizon ∧
        query.admits date = true := by
  rw [series, mem_seriesFrom, Date.lt_iff]
  constructor
  · rintro ⟨days, after, within, reached, admitted⟩
    exact ⟨by omega, by omega, admitted⟩
  · rintro ⟨after, within, admitted⟩
    exact ⟨(date.dayNumber - query.anchor.dayNumber).toNat, by omega, by omega, by omega, admitted⟩

theorem filterMap_addDays?_sorted (anchor : Date) {offsets : List Nat}
    (sorted : offsets.Pairwise (· < ·)) :
    (offsets.filterMap anchor.addDays?).Pairwise (· < ·) := by
  refine sorted.filterMap _ ?_
  intro days more less date found later foundLater
  rw [Date.addDays?_eq_some_iff] at found foundLater
  rw [Date.lt_iff, found, foundLater]
  omega

theorem seriesFrom_sorted (query : Query) (offset : Nat) :
    (query.seriesFrom offset).Pairwise (· < ·) :=
  (filterMap_addDays?_sorted query.anchor List.pairwise_lt_range').filter _

theorem series_sorted (query : Query) : query.series.Pairwise (· < ·) := query.seriesFrom_sorted 0

/-! ## One step of the walk -/

theorem dateAt?_eq_some_iff {query : Query} {offset : Nat} {date : Date} :
    query.dateAt? offset = some date ↔
      date.dayNumber = query.anchor.dayNumber + offset ∧ query.ending.isPast date = false := by
  simp [dateAt?, Option.filter_eq_some_iff, Date.addDays?_eq_some_iff]

/-- Both stops are monotone: where the series can still have a date, it could have one earlier. -/
theorem dateAt?_isSome_of_le {query : Query} {offset later : Nat} (le : offset ≤ later)
    {date : Date} (found : query.dateAt? later = some date) :
    ∃ earlier, query.dateAt? offset = some earlier := by
  obtain ⟨reached, notPast⟩ := dateAt?_eq_some_iff.mp found
  have start := query.anchor.inCalendar
  have stop := date.inCalendar
  -- The earlier day lies between the anchor and the later date, so it is in the calendar as well.
  let earlier : Date := ⟨query.anchor.dayNumber + offset, by omega, by omega⟩
  have order : earlier.dayNumber ≤ date.dayNumber := by
    rw [reached]
    exact Int.add_le_add_left (Int.ofNat_le.mpr le) _
  exact ⟨earlier, dateAt?_eq_some_iff.mpr ⟨rfl, Ending.isPast_of_le order notPast⟩⟩

theorem seriesFrom_of_horizon_le {query : Query} {offset : Nat} (le : query.horizon ≤ offset) :
    query.seriesFrom offset = [] := by
  simp [seriesFrom, Nat.sub_eq_zero_of_le le]

theorem seriesFrom_of_dateAt?_eq_none {query : Query} {offset : Nat}
    (stopped : query.dateAt? (offset + 1) = none) : query.seriesFrom offset = [] := by
  rw [List.eq_nil_iff_forall_not_mem]
  intro date member
  obtain ⟨days, after, _, reached, admitted⟩ := mem_seriesFrom.mp member
  simp only [admits, Bool.and_eq_true, Bool.not_eq_true'] at admitted
  -- A date further on would have let the walk go past this day.
  obtain ⟨earlier, found⟩ :=
    dateAt?_isSome_of_le (Nat.succ_le_of_lt after) (dateAt?_eq_some_iff.mpr ⟨reached, admitted.1⟩)
  rw [stopped] at found
  contradiction

theorem seriesFrom_of_dateAt?_eq_some {query : Query} {offset : Nat} {date : Date}
    (lt : offset < query.horizon) (found : query.dateAt? (offset + 1) = some date) :
    query.seriesFrom offset =
      if query.fires date then date :: query.seriesFrom (offset + 1)
      else query.seriesFrom (offset + 1) := by
  obtain ⟨reached, notPast⟩ := dateAt?_eq_some_iff.mp found
  have here : query.anchor.addDays? (offset + 1) = some date :=
    Date.addDays?_eq_some_iff.mpr reached
  have length : query.horizon - offset = (query.horizon - (offset + 1)) + 1 := by omega
  rw [seriesFrom, length, List.range'_succ, List.filterMap_cons_some here, List.filter_cons]
  simp [admits, notPast, seriesFrom]

/-- A walk from `offset` finds the first date that is left of the series, and leaves the others;
if it finds none then none is left. -/
theorem seriesFrom_advance (query : Query) (offset : Nat) :
    query.seriesFrom offset =
      match query.advance offset with
      | (some date, reached) => date :: query.seriesFrom reached
      | (none, _) => [] := by
  -- The cases of the walk: a stop, a date of the series, a date that is not, and the horizon.
  fun_induction query.advance offset with
  | case1 offset lt stopped => exact seriesFrom_of_dateAt?_eq_none stopped
  | case2 offset lt date found fires =>
    rw [seriesFrom_of_dateAt?_eq_some lt found, if_pos fires]
  | case3 offset lt date found silent ih =>
    rw [seriesFrom_of_dateAt?_eq_some lt found, if_neg silent, ih]
  | case4 offset past => exact seriesFrom_of_horizon_le (Nat.le_of_not_lt past)

end Query

/-! ## Whole walks -/

namespace Cursor

/-- What is left of the series for the walk to show. -/
def pending (cursor : Cursor) : List Date :=
  if cursor.finished then [] else (cursor.query.seriesFrom cursor.offset).take cursor.remaining

/-- One step of the walk shows the first date that is pending and leaves the others pending. -/
theorem pending_next (cursor : Cursor) :
    cursor.pending =
      match cursor.next with
      | (some date, after) => date :: after.pending
      | (none, _) => [] := by
  obtain ⟨query, offset, remaining, finished⟩ := cursor
  cases finished with
  | true => rfl
  | false =>
    cases remaining with
    -- A walk that may show nothing more stops without another step.
    | zero => simp [pending, next]
    | succ remaining =>
      simp only [pending, next, query.seriesFrom_advance offset]
      rcases query.advance offset with ⟨_ | date, reached⟩ <;> simp

theorem dates_eq_pending (cursor : Cursor) : cursor.dates = cursor.pending := by
  fun_induction Cursor.dates cursor with
  | case1 cursor date after found _ ih => rw [pending_next, found, ih]
  | case2 cursor after found => rw [pending_next, found]

end Cursor

namespace Query

theorem dates_eq_take_series (query : Query) : query.dates = query.series.take query.allowance := by
  simp [dates, cursor, Cursor.dates_eq_pending, Cursor.pending, series]

theorem allowance_eq (query : Query) :
    query.allowance =
      match query.ending with
      | .after count => min query.limit (count.value - query.produced)
      | .never | .on _ => query.limit := by
  unfold allowance
  cases query.ending <;> rfl

theorem admits_eq_true_iff {query : Query} {date : Date} :
    query.admits date = true ↔
      (∀ last, query.ending = .on last → date ≤ last) ∧
        query.rule.firesOn query.options query.anchor date = true := by
  simp only [admits, fires, Bool.and_eq_true, Bool.not_eq_true']
  apply and_congr_left'
  cases query.ending <;> simp [Ending.isPast, Date.lt_iff, Date.le_iff]

theorem dates_eq_nil_iff {query : Query} (positive : 0 < query.allowance) :
    query.dates = [] ↔
      ∀ date, query.anchor < date → date.dayNumber ≤ query.anchor.dayNumber + query.horizon →
        query.admits date = false := by
  have some : query.allowance ≠ 0 := Nat.ne_of_gt positive
  rw [dates_eq_take_series, List.take_eq_nil_iff, or_iff_right some,
    List.eq_nil_iff_forall_not_mem]
  simp only [mem_series, not_and, Bool.not_eq_true]

/-- Enumeration is exact: a query gives the first dates, as many as its limit and its ending leave,
of the list of all dates after the anchor, up to the horizon and the ending, on which the rule
fires.  The list is ascending, so it has each of them once. -/
theorem dates_exact (query : Query) :
    query.dates =
        query.series.take (match query.ending with
          | .after count => min query.limit (count.value - query.produced)
          | .never | .on _ => query.limit) ∧
      query.series.Pairwise (· < ·) ∧
      (∀ date, date ∈ query.series ↔
        ∃ days : Nat, 1 ≤ days ∧ days ≤ query.horizon ∧
          date.dayNumber = query.anchor.dayNumber + days ∧
          (∀ last, query.ending = .on last → date ≤ last) ∧
          query.rule.firesOn query.options query.anchor date = true) ∧
      query.dates.Pairwise (· < ·) ∧
      ∀ date ∈ query.dates, query.anchor < date := by
  refine ⟨?_, query.seriesFrom_sorted 0, ?_, ?_, ?_⟩
  · rw [dates_eq_take_series, allowance_eq]
  · intro date
    simp only [series, mem_seriesFrom, admits_eq_true_iff, Nat.lt_iff_add_one_le, Nat.zero_add]
  · rw [dates_eq_take_series]
    exact (query.seriesFrom_sorted 0).sublist (List.take_sublist _ _)
  · intro date member
    rw [dates_eq_take_series] at member
    exact (mem_series.mp (List.mem_of_mem_take member)).1

end Query

end Cadence
