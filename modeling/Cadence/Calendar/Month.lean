/-!
# Months

A month of the Gregorian year, its number, its English name and its length.  February is the only
month whose length depends on the year; `Month.longest` counts its leap day.
-/

namespace Cadence

inductive Month where
  | january
  | february
  | march
  | april
  | may
  | june
  | july
  | august
  | september
  | october
  | november
  | december
deriving DecidableEq, Repr

namespace Month

def all : List Month :=
  [.january, .february, .march, .april, .may, .june,
    .july, .august, .september, .october, .november, .december]

/-- The number of the month: January is `1`, December is `12`. -/
def number : Month → Nat
  | .january => 1
  | .february => 2
  | .march => 3
  | .april => 4
  | .may => 5
  | .june => 6
  | .july => 7
  | .august => 8
  | .september => 9
  | .october => 10
  | .november => 11
  | .december => 12

/-- The month with the given number, if it has one. -/
def ofNumber? : Nat → Option Month
  | 1 => some .january
  | 2 => some .february
  | 3 => some .march
  | 4 => some .april
  | 5 => some .may
  | 6 => some .june
  | 7 => some .july
  | 8 => some .august
  | 9 => some .september
  | 10 => some .october
  | 11 => some .november
  | 12 => some .december
  | _ => none

def name : Month → String
  | .january => "January"
  | .february => "February"
  | .march => "March"
  | .april => "April"
  | .may => "May"
  | .june => "June"
  | .july => "July"
  | .august => "August"
  | .september => "September"
  | .october => "October"
  | .november => "November"
  | .december => "December"

def length (leap : Bool) : Month → Nat
  | .february => if leap then 29 else 28
  | .april | .june | .september | .november => 30
  | _ => 31

/-- The greatest number of days that the month ever has. -/
def longest (month : Month) : Nat := month.length true

/-- The number of days of the year that precede the month. -/
def daysBefore (leap : Bool) (month : Month) : Nat :=
  ((all.takeWhile (· ≠ month)).map (length leap)).foldl Nat.add 0

/-- Walks the given months in order: the month that holds the day `dayOfYear` (from zero), with the
days of that month which precede it.  A day beyond the last month counts on in December. -/
def locateIn (leap : Bool) : List Month → Nat → Month × Nat
  | [], dayOfYear => (.december, dayOfYear)
  | month :: later, dayOfYear =>
    if dayOfYear < month.length leap then (month, dayOfYear)
    else locateIn leap later (dayOfYear - month.length leap)

/-- The month that holds the day `dayOfYear` (from zero) of a year, with the days of that month
which precede it. -/
def locate (leap : Bool) (dayOfYear : Nat) : Month × Nat :=
  locateIn leap all dayOfYear

@[simp] theorem ofNumber?_number (month : Month) : ofNumber? month.number = some month := by
  cases month <;> rfl

theorem ofNumber?_eq_some_iff {n : Nat} {month : Month} :
    ofNumber? n = some month ↔ month.number = n := by
  constructor
  · intro found
    unfold ofNumber? at found
    split at found <;> simp_all <;> subst found <;> rfl
  · rintro rfl
    exact ofNumber?_number month

theorem length_le_longest (leap : Bool) (month : Month) : month.length leap ≤ month.longest := by
  cases leap <;> cases month <;> decide

end Month

end Cadence
