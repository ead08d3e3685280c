import Cadence.Calendar.Weekday

/-!
# Sets of weekdays

A set of weekdays is a mask of seven bits, one a weekday, so each set has one representation and
equality of sets is equality of masks.  Membership is read off the mask, and `WeekdaySet.toList`
lists the members Monday first whatever the order in which they were added.

Removing a day never empties a set: the only selected day stays selected.
-/

namespace Cadence

/-- A set of weekdays: bit `i` says whether the weekday with index `i` is selected. -/
structure WeekdaySet where
  mask : BitVec 7
deriving DecidableEq, Repr

namespace WeekdaySet

/-- The mask that selects `day` alone. -/
def bit (day : Weekday) : BitVec 7 := BitVec.twoPow 7 day.index

def empty : WeekdaySet := ⟨0#7⟩

instance : EmptyCollection WeekdaySet := ⟨empty⟩

def single (day : Weekday) : WeekdaySet := ⟨bit day⟩

def workweek : WeekdaySet := ⟨0b0011111#7⟩

def contains (days : WeekdaySet) (day : Weekday) : Bool :=
  days.mask.getLsbD day.index

instance : Membership Weekday WeekdaySet where
  mem days day := days.contains day = true

instance (day : Weekday) (days : WeekdaySet) : Decidable (day ∈ days) :=
  inferInstanceAs (Decidable (days.contains day = true))

def isEmpty (days : WeekdaySet) : Bool := days.mask == 0#7

/-- The members, Monday first. -/
def toList (days : WeekdaySet) : List Weekday :=
  Weekday.all.filter days.contains

def size (days : WeekdaySet) : Nat := days.toList.length

/-- The numbers of the members, ascending. -/
def numbers (days : WeekdaySet) : List Nat := days.toList.map Weekday.number

def insert (days : WeekdaySet) (day : Weekday) : WeekdaySet :=
  ⟨days.mask ||| bit day⟩

/-- Deselects `day`, unless it is the only day selected. -/
def remove (days : WeekdaySet) (day : Weekday) : WeekdaySet :=
  let rest : WeekdaySet := ⟨days.mask &&& ~~~bit day⟩
  if rest.isEmpty && !days.isEmpty then days else rest

/-- Selects `day` if it is not selected, and removes it if it is. -/
def toggle (days : WeekdaySet) (day : Weekday) : WeekdaySet :=
  if days.contains day then days.remove day else days.insert day

def ofList (days : List Weekday) : WeekdaySet := days.foldl insert empty

/-- The set of the weekdays with the listed numbers; a number outside `1` to `7` names no day. -/
def ofNumbers (numbers : List Nat) : WeekdaySet :=
  ofList (numbers.filterMap Weekday.ofNumber?)

/-- The set itself, or `fallback` alone if it is empty. -/
def orSingle (days : WeekdaySet) (fallback : Weekday) : WeekdaySet :=
  if days.isEmpty then single fallback else days

end WeekdaySet

end Cadence
