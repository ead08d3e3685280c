import Cadence.Calendar.Month
import Cadence.Calendar.WeekdaySet
import Cadence.Count

/-!
# Recurrence rules

A rule says how a series repeats: every few days, on the working days, on chosen weekdays, once a
month by date or by weekday, or once a year.  Each form carries the fields that it needs and no
others.  When a series ends is no part of its rule.

The constructors take any day of the month and any weekday set; `weeklyOn`, `onDayOfMonth?` and
`onAnniversary?` build only rules that can fire, and `Rule.IsSound` says which those are.
-/

namespace Cadence

/-- Which one of a weekday's dates within a month. -/
inductive Ordinal where
  | first
  | second
  | third
  | fourth
  | last
deriving DecidableEq, Repr

namespace Ordinal

/-- The number that patterns store; `5` stands for the last. -/
def number : Ordinal → Nat
  | .first => 1
  | .second => 2
  | .third => 3
  | .fourth => 4
  | .last => 5

/-- The ordinal with the given number, if it has one. -/
def ofNumber? : Nat → Option Ordinal
  | 1 => some .first
  | 2 => some .second
  | 3 => some .third
  | 4 => some .fourth
  | 5 => some .last
  | _ => none

@[simp] theorem ofNumber?_number (ordinal : Ordinal) :
    ofNumber? ordinal.number = some ordinal := by
  cases ordinal <;> rfl

theorem ofNumber?_eq_some_iff {n : Nat} {ordinal : Ordinal} :
    ofNumber? n = some ordinal ↔ ordinal.number = n := by
  constructor
  · intro found
    unfold ofNumber? at found
    split at found <;> simp_all <;> subst found <;> rfl
  · rintro rfl
    exact ofNumber?_number ordinal

end Ordinal

/-- How a series repeats. -/
inductive Rule where
  /-- Every `interval` days. -/
  | daily (interval : Count)
  | weekdays
  /-- On the selected days of a week, every `interval` weeks. -/
  | weekly (interval : Count) (days : WeekdaySet)
  /-- Every month, on the given day of the month. -/
  | dayOfMonth (day : Nat)
  /-- Every month, on the given one of a weekday's dates. -/
  | weekdayOfMonth (ordinal : Ordinal) (weekday : Weekday)
  /-- Every year, on the given month and day. -/
  | anniversary (month : Month) (day : Nat)
deriving DecidableEq

namespace Rule

def everyDay : Rule := .daily .one

instance : Inhabited Rule := ⟨everyDay⟩

/-- The longest month has this many days. -/
def longestMonth : Nat := 31

theorem longest_le_longestMonth (month : Month) : month.longest ≤ longestMonth := by
  cases month <;> decide

/-- A weekly rule with at least one day: Monday if none is selected. -/
def weeklyOn (interval : Count) (days : WeekdaySet) : Rule :=
  .weekly interval (days.orSingle .monday)

/-- The monthly rule for a day that some month has. -/
def onDayOfMonth? (day : Nat) : Option Rule :=
  if 1 ≤ day ∧ day ≤ longestMonth then some (.dayOfMonth day) else none

/-- The yearly rule for a day that the month has, the leap day included. -/
def onAnniversary? (month : Month) (day : Nat) : Option Rule :=
  if 1 ≤ day ∧ day ≤ month.longest then some (.anniversary month day) else none

theorem onDayOfMonth?_eq_some_iff {day : Nat} {rule : Rule} :
    onDayOfMonth? day = some rule ↔ (1 ≤ day ∧ day ≤ longestMonth) ∧ .dayOfMonth day = rule := by
  simp [onDayOfMonth?]

theorem onAnniversary?_eq_some_iff {month : Month} {day : Nat} {rule : Rule} :
    onAnniversary? month day = some rule ↔
      (1 ≤ day ∧ day ≤ month.longest) ∧ .anniversary month day = rule := by
  simp [onAnniversary?]

/-- A rule is sound when its weekly set is not empty and its day is one that its month can have. -/
def IsSound : Rule → Prop
  | .weekly _ days => days ≠ ∅
  | .dayOfMonth day => 1 ≤ day ∧ day ≤ longestMonth
  | .anniversary month day => 1 ≤ day ∧ day ≤ month.longest
  | .daily _ | .weekdays | .weekdayOfMonth _ _ => True

/-- The interval, of a rule that has one. -/
def interval? : Rule → Option Count
  | .daily interval | .weekly interval _ => some interval
  | .weekdays | .dayOfMonth _ | .weekdayOfMonth _ _ | .anniversary _ _ => none

/-- Replaces the interval.  Rules without one stay as they are. -/
def withInterval (rule : Rule) (interval : Count) : Rule :=
  match rule with
  | .daily _ => .daily interval
  | .weekly _ days => .weekly interval days
  | other => other

/-- Toggles a day of a weekly rule.  Other rules stay as they are. -/
def withDayToggled (rule : Rule) (day : Weekday) : Rule :=
  match rule with
  | .weekly interval days => .weekly interval (days.toggle day)
  | other => other

end Rule

/-- The first word of a pattern. -/
inductive Keyword where
  | daily
  | weekdays
  | weekly
  | monthly
  | yearly
deriving DecidableEq, Repr

namespace Keyword

def all : List Keyword := [.daily, .weekdays, .weekly, .monthly, .yearly]

/-- The keyword as patterns write it. -/
def text : Keyword → String
  | .daily => "DAILY"
  | .weekdays => "WEEKDAYS"
  | .weekly => "WEEKLY"
  | .monthly => "MONTHLY"
  | .yearly => "YEARLY"

end Keyword

/-- The keyword of a rule's pattern.  Both monthly forms share one. -/
def Rule.keyword : Rule → Keyword
  | .daily _ => .daily
  | .weekdays => .weekdays
  | .weekly _ _ => .weekly
  | .dayOfMonth _ | .weekdayOfMonth _ _ => .monthly
  | .anniversary _ _ => .yearly

end Cadence
