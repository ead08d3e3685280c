import Cadence.Proofs.Pattern.Agreement
import Mathlib.Data.Finset.SymmDiff

/-!
# Editing a rule step by step

A rule is edited by steps of two kinds: a new interval, and a weekday that changes between selected
and not.  A run of such steps may be of any length and mix the two kinds.

The two kinds never meet: an interval goes to one field of the rule, a weekday to the other.  So
what a run makes of a rule is told from its intervals and its weekdays apart (`Rule.edited_eq`), and
two runs that agree in both, in whatever order they mix them, make the same rule.

The selected weekdays change as a plain set would by symmetric difference, but that the only one of
them stays selected (`WeekdaySet.members_toggle`).  With that exception a weekday that is changed
twice is not always back where it was, and the order of the weekdays matters.
-/

namespace Cadence

/-! ## Toggling weekdays -/

namespace WeekdaySet

variable {days : WeekdaySet} {day other : Weekday}

/-- The selected weekdays as a plain set. -/
def members (days : WeekdaySet) : Finset Weekday := days.toList.toFinset

@[simp] theorem mem_members : day ∈ days.members ↔ day ∈ days := by
  rw [members, List.mem_toFinset, mem_toList]

/-- A plain set with the weekday changed between selected and not; the only one stays selected. -/
def flip (selected : Finset Weekday) (day : Weekday) : Finset Weekday :=
  if selected = {day} then selected else symmDiff selected {day}

theorem toggle_of_not_mem (absent : day ∉ days) : days.toggle day = days.insert day :=
  if_neg absent

theorem toggle_of_mem (selected : day ∈ days) : days.toggle day = days.remove day :=
  if_pos selected

theorem members_eq_singleton_iff (selected : day ∈ days) :
    days.members = {day} ↔ ∀ other ∈ days, other = day := by
  rw [Finset.eq_singleton_iff_unique_mem]
  simp [selected]

theorem members_toggle (days : WeekdaySet) (day : Weekday) :
    (days.toggle day).members = flip days.members day := by
  ext other
  by_cases selected : day ∈ days
  · rw [toggle_of_mem selected, mem_members, mem_remove, flip]
    by_cases only : ∀ other ∈ days, other = day
    · rw [if_pos ((members_eq_singleton_iff selected).mpr only), mem_members,
        and_iff_left (.inr only)]
    · rw [if_neg (mt (members_eq_singleton_iff selected).mp only), or_iff_left only,
        Finset.mem_symmDiff, mem_members, Finset.mem_singleton]
      constructor
      · exact .inl
      · rintro (kept | ⟨rfl, absent⟩)
        · exact kept
        · contradiction
  · have different : days.members ≠ {day} := by
      intro same
      rw [← mem_members, same] at selected
      exact selected (Finset.mem_singleton_self day)
    rw [toggle_of_not_mem selected, mem_members, mem_insert, flip, if_neg different,
      Finset.mem_symmDiff, mem_members, Finset.mem_singleton]
    constructor
    · rintro (member | rfl)
      · exact .inl ⟨member, fun same => selected (same ▸ member)⟩
      · exact .inr ⟨rfl, selected⟩
    · rintro (kept | added)
      · exact .inl kept.1
      · exact .inr added.1

theorem toggle_ne_empty : days.toggle day ≠ ∅ := by
  by_cases selected : day ∈ days
  · rw [toggle_of_mem selected]
    by_cases only : ∀ other ∈ days, other = day
    · exact ne_empty_of_mem (mem_remove.mpr ⟨selected, .inr only⟩)
    · obtain ⟨other, member, different⟩ : ∃ other ∈ days, other ≠ day := by simpa using only
      exact ne_empty_of_mem (mem_remove.mpr ⟨member, .inl different⟩)
  · rw [toggle_of_not_mem selected]
    exact ne_empty_of_mem (mem_insert.mpr (.inr rfl))

theorem members_foldl_toggle (days : WeekdaySet) (toggled : List Weekday) :
    (toggled.foldl toggle days).members = toggled.foldl flip days.members := by
  induction toggled generalizing days with
  | nil => rfl
  | cons day toggled ih => rw [List.foldl_cons, List.foldl_cons, ih, members_toggle]

theorem foldl_toggle_ne_empty (nonempty : days ≠ ∅) (toggled : List Weekday) :
    toggled.foldl toggle days ≠ ∅ := by
  induction toggled generalizing days with
  | nil => exact nonempty
  | cons day toggled ih => exact ih toggle_ne_empty

end WeekdaySet

/-! ## Runs of edits -/

/-- One step of an editing run. -/
inductive Edit where
  | interval (interval : Count)
  | toggle (day : Weekday)
deriving DecidableEq

namespace Edit

def interval? : Edit → Option Count
  | interval value => some value
  | toggle _ => none

def toggled? : Edit → Option Weekday
  | interval _ => none
  | toggle day => some day

/-- The intervals of a run, in order. -/
def intervals (edits : List Edit) : List Count := edits.filterMap interval?

/-- The weekdays that a run toggles, in order. -/
def toggles (edits : List Edit) : List Weekday := edits.filterMap toggled?

end Edit

namespace Rule

def edit (rule : Rule) : Edit → Rule
  | .interval value => rule.withInterval value
  | .toggle day => rule.withDayToggled day

/-- The rule after a run of edits. -/
def edited (rule : Rule) (edits : List Edit) : Rule := edits.foldl edit rule

/-- What the intervals and the weekdays of a run make of a rule: each kind goes to its own field, if
the rule has it. -/
def withEdits (intervals : List Count) (toggles : List Weekday) : Rule → Rule
  | .daily interval => .daily (intervals.getLastD interval)
  | .weekly interval days =>
    .weekly (intervals.getLastD interval) (toggles.foldl WeekdaySet.toggle days)
  | other => other

theorem withEdits_withInterval {intervals : List Count} {toggles : List Weekday} (rule : Rule)
    (value : Count) :
    (rule.withInterval value).withEdits intervals toggles =
      rule.withEdits (value :: intervals) toggles := by
  cases rule <;> simp only [withInterval, withEdits, List.getLastD_cons]

theorem withEdits_withDayToggled {intervals : List Count} {toggles : List Weekday} (rule : Rule)
    (day : Weekday) :
    (rule.withDayToggled day).withEdits intervals toggles =
      rule.withEdits intervals (day :: toggles) := by
  cases rule <;> rfl

/-- A run of edits, by induction on its steps. -/
theorem edited_eq (rule : Rule) (edits : List Edit) :
    rule.edited edits = rule.withEdits (Edit.intervals edits) (Edit.toggles edits) := by
  induction edits generalizing rule with
  | nil => cases rule <;> rfl
  | cons edit edits ih =>
    rw [edited, List.foldl_cons, ← edited, ih]
    cases edit with
    | interval value => exact withEdits_withInterval rule value
    | toggle day => exact withEdits_withDayToggled rule day

theorem isSound_withEdits {rule : Rule} (sound : rule.IsSound) (intervals : List Count)
    (toggles : List Weekday) : (rule.withEdits intervals toggles).IsSound := by
  cases rule with
  | weekly interval days => exact WeekdaySet.foldl_toggle_ne_empty sound toggles
  | daily _ | weekdays | dayOfMonth _ | weekdayOfMonth _ _ | anniversary _ _ => exact sound

/-- Any run of edits leaves a sound rule sound and of its own form, with the last of the intervals
if it has an interval, and with the weekdays, never none, that a plain set would have after the same
toggles.  Only the order within each kind of step counts, and the strict reader takes the rule back
from its pattern. -/
theorem edits_keep_sound_rules (rule : Rule) (sound : rule.IsSound) (edits : List Edit) :
    (match rule with
      | .daily interval =>
        rule.edited edits = .daily ((Edit.intervals edits).getLastD interval)
      | .weekly interval days =>
        ∃ selected, selected ≠ ∅ ∧
          rule.edited edits = .weekly ((Edit.intervals edits).getLastD interval) selected ∧
          selected.members = (Edit.toggles edits).foldl WeekdaySet.flip days.members
      | .weekdays | .dayOfMonth _ | .weekdayOfMonth _ _ | .anniversary _ _ =>
        rule.edited edits = rule) ∧
      (∀ others, Edit.intervals others = Edit.intervals edits →
        Edit.toggles others = Edit.toggles edits → rule.edited others = rule.edited edits) ∧
      parseStrict (rule.edited edits).pattern = .ok (rule.edited edits) := by
  refine ⟨?_, ?_, ?_⟩
  · rw [edited_eq]
    cases rule with
    | daily interval => rfl
    | weekly interval days =>
      exact ⟨_, WeekdaySet.foldl_toggle_ne_empty sound _, rfl,
        WeekdaySet.members_foldl_toggle days _⟩
    | weekdays | dayOfMonth _ | weekdayOfMonth _ _ | anniversary _ _ => rfl
  · intro others intervals toggles
    rw [edited_eq, edited_eq, intervals, toggles]
  · rw [edited_eq]
    exact parseStrict_pattern_of_isSound (isSound_withEdits sound _ _)

/-- From Monday alone, Friday is added, Monday taken out, and Friday then stays; the interval goes
in anywhere between. -/
theorem edits_to_friday :
    let rule := weekly .one (.single .monday)
    let edits : List Edit :=
      [.toggle .friday, .interval { value := 2 }, .toggle .monday, .toggle .friday]
    let sorted : List Edit :=
      [.interval { value := 2 }, .toggle .friday, .toggle .monday, .toggle .friday]
    rule.IsSound ∧ rule.edited edits = weekly { value := 2 } (.single .friday) ∧
      rule.edited sorted = rule.edited edits ∧
      parseStrict "WEEKLY:2:5" = .ok (rule.edited edits) := by
  intro rule edits sorted
  have sound : rule.IsSound := by
    show WeekdaySet.single .monday ≠ ∅
    decide
  have friday : rule.edited edits = weekly { value := 2 } (.single .friday) := by decide
  obtain ⟨_, order, accepted⟩ := edits_keep_sound_rules rule sound edits
  rw [friday] at accepted
  refine ⟨sound, friday, order sorted rfl rfl, ?_⟩
  rw [friday]
  exact accepted

end Rule

end Cadence
