import Cadence.Proofs.Calendar.Week
import Cadence.Proofs.Occurrence.Paging

/-!
# Moving the anchor of a series that skips weeks

A weekly rule whose interval gates its weeks counts blocks of seven days from the anchor.  When the
anchor moves to a later date of the series, the blocks move with it: days that shared a block with
that date, but came before it, now end the next block.

* `OpensBlock` says that no selected weekday comes before the later date in its block.
* `firesOn_reanchor_of_opensBlock`: then every selected day keeps its block, and the series goes on.
* `exists_stray`: otherwise such a day fires within the week although its block is skipped.
-/

namespace Cadence.Rule

variable {options : FiringOptions} {anchor later : Date} {interval : Count}
  {days : WeekdaySet} {day : Weekday}

/-- No selected weekday comes before that of the later date, counted from that of the anchor. -/
def OpensBlock (days : WeekdaySet) (anchor later : Date) : Prop :=
  ∀ day ∈ days, anchor.weekday.daysUntil later.weekday ≤ anchor.weekday.daysUntil day

theorem block_sub {days more : Int} (le : days % 7 ≤ more % 7) :
    (more - days) / 7 = more / 7 - days / 7 := by
  omega

theorem firesOn_reanchor_of_opensBlock (gated : options.weeklyInterval = .everyNthWeek)
    (fires : (weekly interval days).firesOn options anchor later = true)
    (opens : OpensBlock days anchor later) (date : Date) :
    (weekly interval days).firesOn options later date =
      (weekly interval days).firesOn options anchor date := by
  obtain ⟨_, onBlock⟩ := (gated_firesOn gated).mp fires
  rw [Bool.eq_iff_iff, gated_firesOn gated, gated_firesOn gated]
  refine and_congr_right fun selected => ?_
  have distance : later.daysBetween date = anchor.daysBetween date - anchor.daysBetween later := by
    have total := daysBetween_add anchor later date
    omega
  have residues : anchor.daysBetween later % 7 ≤ anchor.daysBetween date % 7 := by
    have le := opens date.weekday selected
    have laterResidue := Date.daysUntil_weekday anchor later
    have dateResidue := Date.daysUntil_weekday anchor date
    omega
  -- Both dates count their blocks from the same start, a multiple of the interval apart.
  rw [distance, block_sub residues, Int.sub_emod, onBlock, Int.sub_zero,
    Int.emod_emod]

theorem exists_stray (gated : options.weeklyInterval = .everyNthWeek)
    (fires : (weekly interval days).firesOn options anchor later = true)
    (room : later.dayNumber + 7 ≤ lastDay) (skips : 1 < interval.value) (selected : day ∈ days)
    (earlier : anchor.weekday.daysUntil day < anchor.weekday.daysUntil later.weekday) :
    ∃ date, later < date ∧ date.dayNumber ≤ later.dayNumber + 6 ∧
      (weekly interval days).firesOn options later date = true ∧
      (weekly interval days).firesOn options anchor date = false := by
  obtain ⟨_, onBlock⟩ := (gated_firesOn gated).mp fires
  have start := later.inCalendar
  have short := @Weekday.daysUntil_lt later.weekday day
  -- The stray date is the next one with the earlier weekday.
  let date : Date := ⟨later.dayNumber + later.weekday.daysUntil day, by omega, by omega⟩
  have onDay : date.weekday = day := Date.weekday_of_daysUntil rfl
  have distance : later.daysBetween date = later.weekday.daysUntil day := by
    simp only [date, Date.daysBetween]
    omega
  have total := daysBetween_add anchor later date
  have laterResidue := Date.daysUntil_weekday anchor later
  have dateResidue := Date.daysUntil_weekday anchor date
  rw [onDay] at dateResidue
  -- Since its residue is smaller it lies in the block after that of the later date.
  have nextBlock : anchor.daysBetween date / 7 = anchor.daysBetween later / 7 + 1 := by omega
  refine ⟨date, ?_, ?_, ?_, ?_⟩
  · rw [Date.lt_iff]
    show later.dayNumber < later.dayNumber + later.weekday.daysUntil day
    omega
  · show later.dayNumber + later.weekday.daysUntil day ≤ later.dayNumber + 6
    omega
  · have sameBlock : later.daysBetween date / 7 = 0 := by omega
    rw [gated_firesOn gated, onDay, sameBlock, Int.zero_emod]
    exact ⟨selected, rfl⟩
  · rw [Bool.eq_false_iff, ne_eq, gated_firesOn gated, nextBlock, Int.add_emod, onBlock,
      Int.zero_add, Int.emod_emod, Int.emod_eq_of_lt (by decide) (by omega)]
    exact fun fires => absurd fires.2 (by decide)

/-- Moving the anchor of a series that fires every so many weeks to one of its dates continues the
series exactly if the interval is one or no selected weekday comes before that date in its block.
If it does not, a date within the next six days fires from the new anchor only.  If it does, every
page from the new anchor has the first dates of the old series. -/
theorem everyNthWeek_reanchor_iff (gated : options.weeklyInterval = .everyNthWeek)
    (fires : (weekly interval days).firesOn options anchor later = true)
    (room : later.dayNumber + 7 ≤ lastDay) :
    let rule := weekly interval days
    let continues := interval.value = 1 ∨ OpensBlock days anchor later
    ((∀ date, later < date → rule.firesOn options anchor date = rule.firesOn options later date) ↔
        continues) ∧
      (¬ continues → ∃ date, later < date ∧ date.dayNumber ≤ later.dayNumber + 6 ∧
        rule.firesOn options later date = true ∧ rule.firesOn options anchor date = false) ∧
      (continues → ∀ (settings : Settings) (ending : Ending) (produced size : Nat),
        settings.options = options →
          IsRun (fun date => !ending.isPast date && rule.firesOn options anchor date) later
            (Series.dates { rule, ending, anchor := later, produced } settings size)) := by
  intro rule continues
  have same : continues → ∀ date, rule.firesOn options later date =
      rule.firesOn options anchor date := by
    rintro (one | opens) date
    · -- With an interval of one no week is skipped.
      refine firesOn_reanchor ?_ fires date
      rintro ⟨_, _, form, more, _⟩
      cases form
      omega
    · exact firesOn_reanchor_of_opensBlock gated fires opens date
  have stray : ¬ continues → ∃ date, later < date ∧ date.dayNumber ≤ later.dayNumber + 6 ∧
      rule.firesOn options later date = true ∧ rule.firesOn options anchor date = false := by
    intro breaks
    obtain ⟨many, closes⟩ := not_or.mp breaks
    obtain ⟨day, selected, earlier⟩ :
        ∃ day ∈ days, anchor.weekday.daysUntil day < anchor.weekday.daysUntil later.weekday := by
      simpa [OpensBlock] using closes
    have skips : 1 < interval.value := Nat.lt_of_le_of_ne interval.positive (Ne.symm many)
    exact exists_stray gated fires room skips selected earlier
  refine ⟨⟨?_, fun continues date _ => (same continues date).symm⟩, stray, ?_⟩
  · intro agree
    refine Classical.byContradiction fun breaks => ?_
    obtain ⟨date, after, _, firesLater, silent⟩ := stray breaks
    rw [agree date after, firesLater] at silent
    contradiction
  · rintro continues settings ending produced size rfl
    have admits := funext (same continues)
    have run := Query.isRun_dates
      (Series.query { rule, ending, anchor := later, produced } settings size)
    rw [← admits]
    exact run

/-- A rule for every second Wednesday and Friday, anchored on a Wednesday: from the Friday of the
same week on it would fire on the Wednesday after, which belongs to the skipped week. -/
theorem reanchor_on_friday_strays :
    let rule := weekly { value := 2 } (.ofList [.wednesday, .friday])
    let options : FiringOptions := { weeklyInterval := .everyNthWeek }
    let anchor : Date := ⟨739251, by decide⟩
    let later : Date := ⟨739253, by decide⟩
    rule.firesOn options anchor later = true ∧ later.dayNumber + 7 ≤ lastDay ∧
      ∃ date, later < date ∧ date.dayNumber ≤ later.dayNumber + 6 ∧
        rule.firesOn options later date = true ∧ rule.firesOn options anchor date = false := by
  intro rule options anchor later
  have fires : rule.firesOn options anchor later = true := by decide
  have room : later.dayNumber + 7 ≤ lastDay := by decide
  refine ⟨fires, room, (everyNthWeek_reanchor_iff rfl fires room).2.1 ?_⟩
  rintro (one | opens)
  · exact absurd one (by decide)
  · exact absurd (opens .wednesday (by decide)) (by decide)

end Cadence.Rule
