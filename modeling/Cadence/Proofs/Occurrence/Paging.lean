import Cadence.Occurrence.Series
import Cadence.Proofs.Occurrence.Enumeration
import Cadence.Proofs.Rule.Firing

/-!
# Following a series page by page

A caller that asks for a few dates at a time moves its anchor to the last date that it was shown.
Each page then counts its intervals and its horizon from another date, so it is not obvious that the
pages together are what one query would have given.

* `IsRun` says that dates are the first ones of a series, whatever produced them.  Runs compose
  (`IsRun.append`), and a query that reaches the last date of a run gives it back
  (`Query.dates_eq_of_isRun`).
* `Rule.firesOn_reanchor`: on a date of the series, a rule that does not skip weeks goes on as from
  the first anchor.  A rule that does skip weeks may not, as its blocks of seven days move.
* `Series.Reaches` is what a page keeps, and `Series.pages_reaches` what any number of pages keep.
  Each page stands in its place among the pages around it (`Series.pages_append`).
-/

namespace Cadence

/-! ## Runs -/

/-- The dates are the first ones after the anchor that occur: they ascend, all of them occur, and
no other date up to the last of them does. -/
structure IsRun (occurs : Date → Bool) (anchor : Date) (dates : List Date) : Prop where
  sorted : (anchor :: dates).Pairwise (· < ·)
  occur : ∀ date ∈ dates, occurs date = true
  complete : ∀ date, anchor < date → occurs date = true → (∃ shown ∈ dates, date ≤ shown) →
    date ∈ dates

theorem le_getLastD {anchor : Date} {dates : List Date}
    (sorted : (anchor :: dates).Pairwise (· < ·)) {date : Date} (member : date ∈ anchor :: dates) :
    date ≤ dates.getLastD anchor := by
  induction dates generalizing anchor date with
  | nil =>
    rw [List.mem_singleton.mp member]
    exact Int.le_refl _
  | cons next dates ih =>
    rw [List.getLastD_cons]
    obtain ⟨below, sortedRest⟩ := List.pairwise_cons.mp sorted
    rcases List.mem_cons.mp member with rfl | member
    · have step : date < next := below next List.mem_cons_self
      have rest : next ≤ dates.getLastD next := ih sortedRest List.mem_cons_self
      exact Int.le_trans (Int.le_of_lt step) rest
    · exact ih sortedRest member

/-- A sorted list that holds every member of another up to its own last one starts that other. -/
theorem prefix_of_sorted {dates all : List Date} (sorted : dates.Pairwise (· < ·))
    (sortedAll : all.Pairwise (· < ·)) (members : ∀ date ∈ dates, date ∈ all)
    (complete : ∀ date ∈ all, (∃ shown ∈ dates, date ≤ shown) → date ∈ dates) : dates <+: all := by
  induction dates generalizing all with
  | nil => exact List.nil_prefix
  | cons date dates ih =>
    obtain ⟨below, sorted⟩ := List.pairwise_cons.mp sorted
    cases all with
    | nil => exact absurd (members date List.mem_cons_self) List.not_mem_nil
    | cons first all =>
      obtain ⟨belowAll, sortedRest⟩ := List.pairwise_cons.mp sortedAll
      -- If the heads differed, the lower one would be missing from one of the lists.
      have same : date = first := by
        rcases List.mem_cons.mp (members date List.mem_cons_self) with same | later
        · exact same
        · have lt : first < date := belowAll date later
          have member :=
            complete first List.mem_cons_self ⟨date, List.mem_cons_self, Int.le_of_lt lt⟩
          rcases List.mem_cons.mp member with same | later
          · exact same.symm
          · exact absurd (below first later) (Int.lt_asymm lt)
      subst same
      refine List.cons_prefix_cons.mpr ⟨rfl, ih sorted sortedRest ?_ ?_⟩
      · intro other member
        rcases List.mem_cons.mp (members other (List.mem_cons_of_mem _ member)) with rfl | later
        · exact absurd (below other member) (Int.lt_irrefl _)
        · exact later
      · rintro other later ⟨shown, member, le⟩
        have shownAll := complete other (List.mem_cons_of_mem _ later)
          ⟨shown, List.mem_cons_of_mem _ member, le⟩
        rcases List.mem_cons.mp shownAll with rfl | member
        · exact absurd (belowAll other later) (Int.lt_irrefl _)
        · exact member

namespace IsRun

variable {occurs : Date → Bool} {anchor : Date} {dates more : List Date}

theorem nil : IsRun occurs anchor [] :=
  ⟨List.pairwise_singleton _ _, by simp, by simp⟩

/-- The last date of a run is its anchor, or it occurs. -/
theorem getLastD_occurs (run : IsRun occurs anchor dates) :
    dates.getLastD anchor = anchor ∨ occurs (dates.getLastD anchor) = true := by
  rcases List.mem_cons.mp (List.getLastD_mem_cons (l := dates) (a := anchor)) with same | member
  · exact .inl same
  · exact .inr (run.occur _ member)

theorem append (first : IsRun occurs anchor dates)
    (second : IsRun occurs (dates.getLastD anchor) more) : IsRun occurs anchor (dates ++ more) := by
  obtain ⟨above, sortedMore⟩ := List.pairwise_cons.mp second.sorted
  have bounded : ∀ date ∈ anchor :: dates, date ≤ dates.getLastD anchor :=
    fun date member => le_getLastD first.sorted member
  constructor
  · rw [← List.cons_append, List.pairwise_append]
    refine ⟨first.sorted, sortedMore, ?_⟩
    intro date member later laterMember
    exact Int.lt_of_le_of_lt (bounded date member) (above later laterMember)
  · intro date member
    rcases List.mem_append.mp member with member | member
    · exact first.occur date member
    · exact second.occur date member
  · rintro date after occurs ⟨shown, member, le⟩
    rw [List.mem_append] at member ⊢
    by_cases early : date ≤ dates.getLastD anchor
    · -- The last date of the first run is in it, as the anchor itself comes too early.
      left
      rcases List.mem_cons.mp (List.getLastD_mem_cons (l := dates) (a := anchor)) with same | last
      · rw [same] at early
        exact absurd after (Int.not_lt.mpr early)
      · exact first.complete date after occurs ⟨_, last, early⟩
    · right
      have late : dates.getLastD anchor < date := Int.not_le.mp early
      refine second.complete date late occurs ⟨shown, ?_, le⟩
      rcases member with member | member
      · have := Int.le_trans le (bounded shown (List.mem_cons_of_mem _ member))
        exact absurd this early
      · exact member

theorem take (run : IsRun occurs anchor dates) (count : Nat) :
    IsRun occurs anchor (dates.take count) := by
  obtain ⟨above, sorted⟩ := List.pairwise_cons.mp run.sorted
  have split := List.take_append_drop count dates
  constructor
  · exact run.sorted.sublist ((List.take_sublist count dates).cons_cons anchor)
  · exact fun date member => run.occur date (List.mem_of_mem_take member)
  · rintro date after occurs ⟨shown, member, le⟩
    have found := run.complete date after occurs ⟨shown, List.mem_of_mem_take member, le⟩
    rw [← split, List.mem_append] at found
    rcases found with found | dropped
    · exact found
    · -- A date beyond the cut lies above every date before it.
      rw [← split, List.pairwise_append] at sorted
      have lt : shown < date := sorted.2.2 shown member date dropped
      exact absurd le (Int.not_le.mpr lt)

end IsRun

/-! ## Runs and queries -/

namespace Query

theorem isRun_series (query : Query) : IsRun query.admits query.anchor query.series := by
  constructor
  · refine List.pairwise_cons.mpr ⟨?_, query.series_sorted⟩
    exact fun date member => (mem_series.mp member).1
  · exact fun date member => (mem_series.mp member).2.2
  · rintro date after admitted ⟨shown, member, le⟩
    have within := (mem_series.mp member).2.1
    exact mem_series.mpr ⟨after, Int.le_trans le within, admitted⟩

theorem isRun_dates (query : Query) : IsRun query.admits query.anchor query.dates := by
  rw [dates_eq_take_series]
  exact query.isRun_series.take query.allowance

/-- A query that reaches the last date of a run of its series, and may give as many dates as the run
has, gives the run. -/
theorem dates_eq_of_isRun {query : Query} {dates : List Date}
    (run : IsRun query.admits query.anchor dates) (allowed : query.allowance = dates.length)
    (reaches : (dates.getLastD query.anchor).dayNumber ≤ query.anchor.dayNumber + query.horizon) :
    query.dates = dates := by
  -- The run and the series of the query both ascend, and agree up to the last date of the run.
  have start : dates <+: query.series := by
    apply prefix_of_sorted (List.pairwise_cons.mp run.sorted).2 query.series_sorted
    · intro date member
      have after := (List.pairwise_cons.mp run.sorted).1 date member
      have last := le_getLastD run.sorted (List.mem_cons_of_mem _ member)
      exact mem_series.mpr ⟨after, Int.le_trans last reaches, run.occur date member⟩
    · intro date member bounded
      have after := (List.pairwise_cons.mp query.isRun_series.sorted).1 date member
      exact run.complete date after (query.isRun_series.occur date member) bounded
  rw [dates_eq_take_series, allowed]
  exact (List.prefix_iff_eq_take.mp start).symm

/-- A query gives fewer dates than it may only if it gives all that there are. -/
theorem dates_eq_series_of_lt {query : Query} (short : query.dates.length < query.allowance) :
    query.dates = query.series := by
  rw [dates_eq_take_series, List.length_take] at short
  rw [dates_eq_take_series, List.take_of_length_le (by omega)]

theorem length_dates_le (query : Query) : query.dates.length ≤ query.allowance := by
  rw [dates_eq_take_series]
  exact List.length_take_le _ _

end Query

/-! ## Pages -/

namespace Series

/-- Whether the date belongs to the series, as its anchor stands. -/
def occursOn (series : Series) (options : FiringOptions) (date : Date) : Bool :=
  !series.ending.isPast date && series.rule.firesOn options series.anchor date

/-- The dates of the pages with the given sizes, one page after the other, and the series after
them. -/
def pages (series : Series) (settings : Settings) : List Nat → List Date × Series
  | [] => ([], series)
  | size :: sizes =>
    let (dates, later) := series.page settings size
    let (more, last) := later.pages settings sizes
    (dates ++ more, last)

/-- The dates lead from one series to another: they are the first dates of the first one, no more
than its ending leaves, and the second one is the first one moved on to the last of them, with the
same dates to come. -/
structure Reaches (options : FiringOptions) (series : Series) (dates : List Date) (later : Series) :
    Prop where
  run : IsRun (series.occursOn options) series.anchor dates
  moved : later = series.follow dates
  same : later.occursOn options = series.occursOn options
  left : ∀ count, series.ending = .after count → dates.length ≤ count.value - series.produced

variable {options : FiringOptions} {series middle later : Series} {dates more : List Date}

theorem allowance_query (series : Series) (settings : Settings) (limit : Nat) :
    (series.query settings limit).allowance =
      match series.ending with
      | .after count => min limit (count.value - series.produced)
      | .never | .on _ => limit :=
  Query.allowance_eq _

theorem follow_follow (series : Series) (dates more : List Date) :
    (series.follow dates).follow more = series.follow (dates ++ more) := by
  unfold follow
  simp only [List.getLastD_eq_getLast?, List.getLast?_append, Option.getD_or, List.length_append,
    Nat.add_assoc]

theorem occursOn_follow (steady : ¬ series.rule.SkipsWeeks options)
    (run : IsRun (series.occursOn options) series.anchor dates) :
    (series.follow dates).occursOn options = series.occursOn options := by
  funext date
  rcases run.getLastD_occurs with same | occurs
  · -- Without a date the anchor stays.
    simp only [occursOn, follow, same]
  · simp only [occursOn, Bool.and_eq_true] at occurs
    simp only [occursOn, follow, Rule.firesOn_reanchor steady occurs.2 date]

namespace Reaches

theorem nil (options : FiringOptions) (series : Series) : Reaches options series [] series where
  run := .nil
  moved := rfl
  same := rfl
  left _ _ := Nat.zero_le _

theorem ending_eq (reaches : Reaches options series dates later) :
    later.ending = series.ending := by
  rw [reaches.moved]
  rfl

theorem append (first : Reaches options series dates middle)
    (second : Reaches options middle more later) :
    Reaches options series (dates ++ more) later := by
  obtain ⟨run, rfl, same, left⟩ := first
  constructor
  · exact run.append (same ▸ second.run)
  · rw [second.moved, follow_follow]
  · rw [second.same, same]
  · intro count ending
    have before := left count ending
    have after : more.length ≤ count.value - (series.produced + dates.length) :=
      second.left count ending
    rw [List.length_append]
    omega

end Reaches

/-- What one page keeps. -/
theorem page_reaches {settings : Settings} (steady : ¬ series.rule.SkipsWeeks settings.options)
    (size : Nat) :
    Reaches settings.options series (series.page settings size).1
      (series.page settings size).2 where
  run := (series.query settings size).isRun_dates
  moved := rfl
  same := occursOn_follow steady (series.query settings size).isRun_dates
  left count ending := by
    have most := (series.query settings size).length_dates_le
    rw [allowance_query, ending] at most
    exact Nat.le_trans most (Nat.min_le_right _ _)

/-- What any number of pages keep, by induction on their sizes. -/
theorem pages_reaches {settings : Settings} (steady : ¬ series.rule.SkipsWeeks settings.options)
    (sizes : List Nat) :
    Reaches settings.options series (series.pages settings sizes).1
      (series.pages settings sizes).2 := by
  induction sizes generalizing series with
  | nil => exact .nil _ _
  | cons size sizes ih => exact (page_reaches steady size).append (ih steady)

/-- Pages go on from the series that the pages before them leave. -/
theorem pages_append (series : Series) (settings : Settings) (earlier later : List Nat) :
    let (dates, middle) := series.pages settings earlier
    let (more, last) := middle.pages settings later
    series.pages settings (earlier ++ later) = (dates ++ more, last) := by
  induction earlier generalizing series with
  | nil => rfl
  | cons size earlier ih =>
    simp only [List.cons_append, pages, ih, List.append_assoc]

/-- A page that is shorter than it may be has used up the count of the ending, or has shown every
date of the series within its horizon. -/
theorem short_page {settings : Settings} {size : Nat}
    (short : (series.dates settings size).length < size) :
    (∃ count, series.ending = .after count ∧
      count.value ≤ series.produced + (series.dates settings size).length) ∨
    ∀ date, (series.follow (series.dates settings size)).anchor < date →
      date.dayNumber ≤ series.anchor.dayNumber + settings.searchHorizon.toNat →
      series.occursOn settings.options date = false := by
  by_cases full : (series.dates settings size).length = (series.query settings size).allowance
  · left
    rw [allowance_query] at full
    cases ending : series.ending with
    | after count =>
      simp only [ending] at full
      exact ⟨count, rfl, by omega⟩
    | never | on _ =>
      simp only [ending] at full
      exact absurd full (Nat.ne_of_lt short)
  · -- With dates to spare the page shows its whole series, so a further date would be in it.
    right
    intro date beyond within
    have all : series.dates settings size = (series.query settings size).series :=
      Query.dates_eq_series_of_lt
        (Nat.lt_of_le_of_ne (series.query settings size).length_dates_le full)
    have run :
        IsRun (series.occursOn settings.options) series.anchor (series.dates settings size) :=
      (series.query settings size).isRun_dates
    have after : series.anchor < date :=
      Int.lt_of_le_of_lt (le_getLastD run.sorted List.mem_cons_self) beyond
    rw [Bool.eq_false_iff]
    intro occurs
    have member : date ∈ series.dates settings size := by
      rw [all]
      exact Query.mem_series.mpr ⟨after, within, occurs⟩
    have last := le_getLastD run.sorted (List.mem_cons_of_mem _ member)
    exact absurd beyond (Int.not_lt.mpr last)

/-- Paging loses and repeats nothing.  Unless the rule skips weeks, the dates of any number of pages
are those of one query from the first anchor, whatever horizon that query has as long as it reaches
the last of them, and they never exceed the count of the ending.  Each page stands behind the pages
before it: it is a query of its own from the last date before it, with as many dates as have been
shown, and it is shorter than it may be only if the count is used up or no other date of the series
lies within its horizon. -/
theorem pages_continue_series (series : Series) (settings : Settings) (sizes : List Nat)
    (steady : ¬ series.rule.SkipsWeeks settings.options) :
    let dates := (series.pages settings sizes).1
    let later := (series.pages settings sizes).2
    later = series.follow dates ∧
      (∀ horizon : Nat,
        (dates.getLastD series.anchor).dayNumber ≤ series.anchor.dayNumber + horizon →
        Query.dates
          { rule := series.rule, anchor := series.anchor, ending := series.ending,
            limit := dates.length, horizon, produced := series.produced,
            options := settings.options } = dates) ∧
      (∀ count, series.ending = .after count → series.produced ≤ count.value →
        later.produced ≤ count.value) ∧
      ∀ earlier size rest, sizes = earlier ++ size :: rest →
        let before := (series.pages settings earlier).1
        let start := (series.pages settings earlier).2
        let page := (start.page settings size).1
        let next := (start.page settings size).2
        start = series.follow before ∧ next = start.follow page ∧
          dates = before ++ page ++ (next.pages settings rest).1 ∧
          page = Query.dates
            { rule := series.rule, anchor := before.getLastD series.anchor,
              ending := series.ending, limit := size,
              horizon := settings.searchHorizon.toNat,
              produced := series.produced + before.length, options := settings.options } ∧
          (page.length < size →
            (∃ count, series.ending = .after count ∧
              count.value ≤ start.produced + page.length) ∨
            ∀ date, next.anchor < date →
              date.dayNumber ≤ start.anchor.dayNumber + settings.searchHorizon.toNat →
              (∀ last, series.ending = .on last → date ≤ last) →
              series.rule.firesOn settings.options series.anchor date = false) := by
  have reaches := pages_reaches steady sizes
  refine ⟨reaches.moved, ?_, ?_, ?_⟩
  · intro horizon within
    refine Query.dates_eq_of_isRun reaches.run ?_ within
    rw [Query.allowance_eq]
    cases ending : series.ending with
    | after count => exact Nat.min_eq_left (reaches.left count ending)
    | never | on _ => rfl
  · intro count ending started
    have left := reaches.left count ending
    rw [reaches.moved]
    simp only [follow]
    omega
  · rintro earlier size rest rfl
    have before := pages_reaches steady earlier
    refine ⟨before.moved, rfl, ?_, ?_, fun short => ?_⟩
    · rw [pages_append, List.append_assoc]
      rfl
    · rw [before.moved]
      rfl
    rcases short_page short with used | exhausted
    · -- The pages before left the ending as it was, so its count is that of the series.
      rw [before.ending_eq] at used
      exact .inl used
    · right
      intro date beyond within allowed
      have silent := exhausted date beyond within
      rw [before.same, occursOn, Bool.and_eq_false_iff] at silent
      rcases silent with past | silent
      · cases ending : series.ending with
        | on last =>
          have := allowed last ending
          simp [ending, Ending.isPast, Date.lt_iff, Date.le_iff] at past this
          omega
        | never | after _ => simp [ending, Ending.isPast] at past
      · exact silent

/-- A series of every third day with four dates left, in pages of two, one and four dates.  The
pages together are one query for the four dates, and the last page has one date in place of four,
since the count is used up then. -/
theorem pages_of_counted_series :
    let series : Series :=
      { rule := .daily { value := 3 }, ending := .after { value := 5 },
        anchor := ⟨739251, by decide⟩, produced := 1 }
    let dates := (series.pages {} [2, 1, 4]).1
    let later := (series.pages {} [2, 1, 4]).2
    let start := (series.pages {} [2, 1]).2
    let page := (start.page {} 4).1
    ¬ series.rule.SkipsWeeks {} ∧
      dates.map Date.dayNumber = [739254, 739257, 739260, 739263] ∧ later.produced = 5 ∧
      page.map Date.dayNumber = [739263] ∧ dates = (series.pages {} [2, 1]).1 ++ page ++ [] ∧
      Query.dates
        { rule := series.rule, anchor := series.anchor, ending := series.ending,
          limit := dates.length, horizon := 12, produced := 1 } = dates ∧
      5 ≤ start.produced + page.length := by
  intro series
  have steady : ¬ series.rule.SkipsWeeks {} := by
    rintro ⟨interval, days, form, _⟩
    cases form
  have shown : (series.pages {} [2, 1, 4]).1.map Date.dayNumber =
      [739254, 739257, 739260, 739263] := by
    simp only [pages, page, dates, Query.dates_eq_take_series]
    decide +kernel
  have last : (((series.pages {} [2, 1]).2.page {} 4).1.map Date.dayNumber = [739263]) ∧
      ((series.pages {} [2, 1]).2.page {} 4).2.anchor.dayNumber = 739263 ∧
      (series.pages {} [2, 1]).2.anchor.dayNumber = 739260 := by
    simp only [pages, page, dates, Query.dates_eq_take_series]
    decide +kernel
  have reach : ((series.pages {} [2, 1, 4]).1.getLastD series.anchor).dayNumber ≤ 739251 + 12 := by
    simp only [pages, page, dates, Query.dates_eq_take_series]
    decide +kernel
  have four := congrArg List.length shown
  have one := congrArg List.length last.1
  rw [List.length_map] at four one
  obtain ⟨moved, query, _, each⟩ := pages_continue_series series {} [2, 1, 4] steady
  obtain ⟨_, _, split, _, cut⟩ := each [2, 1] 4 [] rfl
  refine ⟨steady, shown, ?_, last.1, split, query 12 reach, ?_⟩
  · rw [moved]
    show 1 + (series.pages {} [2, 1, 4]).1.length = 5
    rw [four]
    rfl
  · rcases cut (by rw [one]; decide) with ⟨count, ending, used⟩ | exhausted
    · cases ending
      exact used
    · -- Without the count the series would go on three days later.
      have further : ∀ last : Date, series.ending = .on last → ⟨739266, by decide⟩ ≤ last := by
        intro _ other
        cases other
      have silent := exhausted ⟨739266, by decide⟩
        (by rw [Date.lt_iff, last.2.1]; decide) (by rw [last.2.2]; decide) further
      exact absurd silent (by decide)

end Series

end Cadence
