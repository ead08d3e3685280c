/-!
# Days of the week

A weekday and its two spellings: the number `1` to `7`, Monday first, that patterns store, and the
English name that phrases show.  `Weekday.ofIndex` counts from Monday as zero and goes around, which
is how the calendar names the weekday of a day number.
-/

namespace Cadence

inductive Weekday where
  | monday
  | tuesday
  | wednesday
  | thursday
  | friday
  | saturday
  | sunday
deriving DecidableEq, Repr

namespace Weekday

def all : List Weekday :=
  [.monday, .tuesday, .wednesday, .thursday, .friday, .saturday, .sunday]

/-- The place in the week, Monday being zero. -/
def index : Weekday → Nat
  | .monday => 0
  | .tuesday => 1
  | .wednesday => 2
  | .thursday => 3
  | .friday => 4
  | .saturday => 5
  | .sunday => 6

/-- The weekday `n` days after a Monday. -/
def ofIndex (n : Nat) : Weekday :=
  match n % 7 with
  | 0 => .monday
  | 1 => .tuesday
  | 2 => .wednesday
  | 3 => .thursday
  | 4 => .friday
  | 5 => .saturday
  | _ => .sunday

/-- The number that patterns store: Monday is `1`, Sunday is `7`. -/
def number (day : Weekday) : Nat := day.index + 1

/-- The weekday with the given number, if it has one. -/
def ofNumber? : Nat → Option Weekday
  | 1 => some .monday
  | 2 => some .tuesday
  | 3 => some .wednesday
  | 4 => some .thursday
  | 5 => some .friday
  | 6 => some .saturday
  | 7 => some .sunday
  | _ => none

def name : Weekday → String
  | .monday => "Monday"
  | .tuesday => "Tuesday"
  | .wednesday => "Wednesday"
  | .thursday => "Thursday"
  | .friday => "Friday"
  | .saturday => "Saturday"
  | .sunday => "Sunday"

def shortName : Weekday → String
  | .monday => "Mon"
  | .tuesday => "Tue"
  | .wednesday => "Wed"
  | .thursday => "Thu"
  | .friday => "Fri"
  | .saturday => "Sat"
  | .sunday => "Sun"

/-- The weekday whose English name is exactly `text`. -/
def ofName? (text : List Char) : Option Weekday :=
  all.find? fun day => day.name.toList == text

def isWorkday : Weekday → Bool
  | .saturday | .sunday => false
  | _ => true

theorem mem_all (day : Weekday) : day ∈ all := by
  cases day <;> decide

theorem index_lt (day : Weekday) : day.index < 7 := by
  cases day <;> decide

@[simp] theorem ofIndex_index (day : Weekday) : ofIndex day.index = day := by
  cases day <;> rfl

@[simp] theorem index_ofIndex (n : Nat) : (ofIndex n).index = n % 7 := by
  have small : n % 7 < 7 := Nat.mod_lt _ (by decide)
  unfold ofIndex
  generalize n % 7 = k at small ⊢
  match k, small with
  | 0, _ | 1, _ | 2, _ | 3, _ | 4, _ | 5, _ | 6, _ => rfl

@[simp] theorem ofNumber?_number (day : Weekday) : ofNumber? day.number = some day := by
  cases day <;> rfl

theorem ofNumber?_eq_some_iff {n : Nat} {day : Weekday} :
    ofNumber? n = some day ↔ day.number = n := by
  constructor
  · intro found
    unfold ofNumber? at found
    split at found <;> simp_all <;> subst found <;> rfl
  · rintro rfl
    exact ofNumber?_number day

end Weekday

end Cadence
