import Cadence.Rule.Pattern
import Cadence.Proofs.Calendar.WeekdaySet
import Cadence.Proofs.Text.Numeral

/-!
# Reading the fields of a pattern

Every field of a pattern is read in one of two ways: a text that denotes a value gives that value
and no fault, and any other text gives the default of the field with a fault that names the text.
For each field this module has the two equations, so nothing later opens a reader of a field.

A day list has several items.  It gives its weekdays if every item denotes one, and otherwise its
fault is that of the first item that does not (`readDays_eq_pure`, `fault?_readDays`).
-/

namespace Cadence

theorem Weekday.number_injective {day other : Weekday} (same : day.number = other.number) :
    day = other :=
  Weekday.index_injective (Nat.succ.inj same)

namespace Pattern

open Text (IsNumeral Divides)

variable {text item : List Char}

/-! ## Single numbers -/

section

variable {α : Type} {field : PatternField} {found : Option α} {default : α}

theorem readField_eq_pure {a : α} (denotes : found = some a) :
    readField field text found default = pure a := by
  rw [denotes]
  rfl

theorem readField_eq_standIn (faulty : ∀ a, found ≠ some a) :
    readField field text found default =
      .standIn (.invalidField field (.ofList text)) default := by
  rw [Option.eq_none_iff_forall_ne_some.mpr faulty]
  rfl

end

theorem readInterval_eq_pure {interval : Count} (denotes : IsNumeral text interval.value) :
    readInterval (some text) = pure interval :=
  readField_eq_pure (Count.read?_eq_some_iff.mpr denotes)

theorem readInterval_eq_standIn (faulty : ∀ interval : Count, ¬ IsNumeral text interval.value) :
    readInterval (some text) = .standIn (.invalidField .interval (.ofList text)) .one :=
  readField_eq_standIn fun interval found => faulty interval (Count.read?_eq_some_iff.mp found)

/-- The text is a numeral for a day that some month has. -/
def IsDayOfMonth (text : List Char) (day : Nat) : Prop :=
  IsNumeral text day ∧ 1 ≤ day ∧ day ≤ Rule.longestMonth

theorem dayOfMonth_eq_some_iff {day : Nat} :
    (Text.numeral? text).filter (fun day => 1 ≤ day && day ≤ Rule.longestMonth) = some day ↔
      IsDayOfMonth text day := by
  simp [Option.filter_eq_some_iff, Text.numeral?_eq_some_iff, IsDayOfMonth]

theorem readDayOfMonth_eq_pure {day : Nat} (denotes : IsDayOfMonth text day) :
    readDayOfMonth text = pure day :=
  readField_eq_pure (dayOfMonth_eq_some_iff.mpr denotes)

theorem readDayOfMonth_eq_standIn (faulty : ∀ day, ¬ IsDayOfMonth text day) :
    readDayOfMonth text = .standIn (.invalidField .dayOfMonth (.ofList text)) 1 :=
  readField_eq_standIn fun day found => faulty day (dayOfMonth_eq_some_iff.mp found)

theorem weekday_eq_some_iff {day : Weekday} :
    Text.numeral? text >>= Weekday.ofNumber? = some day ↔ IsNumeral text day.number :=
  Text.numeral?_bind_eq_some_iff Weekday.ofNumber?_eq_some_iff

theorem ordinal_eq_some_iff {ordinal : Ordinal} :
    Text.numeral? text >>= Ordinal.ofNumber? = some ordinal ↔ IsNumeral text ordinal.number :=
  Text.numeral?_bind_eq_some_iff Ordinal.ofNumber?_eq_some_iff

theorem month_eq_some_iff {month : Month} :
    Text.numeral? text >>= Month.ofNumber? = some month ↔ IsNumeral text month.number :=
  Text.numeral?_bind_eq_some_iff Month.ofNumber?_eq_some_iff

theorem readOrdinal_eq_pure {text : List Char} {ordinal : Ordinal}
    (denotes : IsNumeral text ordinal.number) :
    readField .ordinal text (Text.numeral? text >>= Ordinal.ofNumber?) .first = pure ordinal :=
  readField_eq_pure (ordinal_eq_some_iff.mpr denotes)

theorem readWeekday_eq_pure {text : List Char} {weekday : Weekday}
    (denotes : IsNumeral text weekday.number) :
    readField .weekday text (Text.numeral? text >>= Weekday.ofNumber?) .monday = pure weekday :=
  readField_eq_pure (weekday_eq_some_iff.mpr denotes)

theorem readMonth_eq_pure {field text : List Char} {month : Month}
    (denotes : IsNumeral text month.number) :
    readField .month field (Text.numeral? text >>= Month.ofNumber?) .january = pure month :=
  readField_eq_pure (month_eq_some_iff.mpr denotes)

/-! ## Day lists -/

/-- The text is a numeral for a weekday. -/
def IsWeekday (text : List Char) : Prop := ∃ day : Weekday, IsNumeral text day.number

/-- Reading items that all denote weekdays adds these weekdays, by induction on the items. -/
theorem readDays_eq_pure {days : WeekdaySet} {items : List (List Char)}
    (valid : ∀ item ∈ items, IsWeekday item) :
    ∃ result, readDays days items = pure result ∧
      ∀ day, day ∈ result ↔ day ∈ days ∨ ∃ item ∈ items, IsNumeral item day.number := by
  induction items generalizing days with
  | nil => exact ⟨days, rfl, by simp⟩
  | cons item items ih =>
    obtain ⟨first, denotes⟩ := valid item List.mem_cons_self
    obtain ⟨result, read, members⟩ :=
      @ih (days.insert first) fun other later => valid other (List.mem_cons_of_mem _ later)
    refine ⟨result, ?_, ?_⟩
    · rw [readDays, weekday_eq_some_iff.mpr denotes, Option.map_some, readField_eq_pure rfl]
      exact read
    · intro day
      -- The first item is a numeral for one weekday only.
      have here : IsNumeral item day.number ↔ day = first := by
        constructor
        · exact fun other => Weekday.number_injective (other.unique denotes)
        · rintro rfl
          exact denotes
      rw [members, WeekdaySet.mem_insert, List.exists_mem_cons_iff, here, or_assoc]

/-- The fault of a list of items is that of the first item which denotes no weekday. -/
theorem fault?_readDays {days : WeekdaySet} {before after : List (List Char)}
    (valid : ∀ item ∈ before, IsWeekday item) (faulty : ¬ IsWeekday item) :
    (readDays days (before ++ item :: after)).fault? =
      some (.invalidField .weekday (.ofList item)) := by
  induction before generalizing days with
  | nil =>
    have missing : Text.numeral? item >>= Weekday.ofNumber? = none :=
      Option.eq_none_iff_forall_ne_some.mpr fun day found =>
        faulty ⟨day, weekday_eq_some_iff.mp found⟩
    rw [List.nil_append, readDays, missing]
    rfl
  | cons first before ih =>
    obtain ⟨day, denotes⟩ := valid first List.mem_cons_self
    rw [List.cons_append, readDays, weekday_eq_some_iff.mpr denotes, Option.map_some,
      readField_eq_pure rfl]
    exact ih fun other later => valid other (List.mem_cons_of_mem _ later)

/-- The text lists weekdays by their numbers, with commas between them, and `days` are these. -/
def IsDayList (text : List Char) (days : WeekdaySet) : Prop :=
  ∃ items, Divides ',' text items ∧ (∀ item ∈ items, IsWeekday item) ∧
    ∀ day, day ∈ days ↔ ∃ item ∈ items, IsNumeral item day.number

theorem readDayList_of_ne_nil (nonempty : text ≠ []) :
    readDayList (some text) =
      readDays ∅ ((text.splitOn ',').map Text.trim) >>= fun days =>
        pure (days.orSingle .monday) := by
  cases text with
  | nil => contradiction
  | cons _ _ => rfl

theorem not_isWeekday_nil : ¬ IsWeekday [] := fun ⟨_, denotes⟩ => Text.not_isNumeral_nil denotes

theorem IsDayList.ne_nil {days : WeekdaySet} (list : IsDayList text days) : text ≠ [] := by
  rintro rfl
  obtain ⟨items, divides, valid, _⟩ := list
  rw [Text.divides_iff] at divides
  subst divides
  exact not_isWeekday_nil (valid [] (by decide))

theorem IsDayList.days_ne_empty {days : WeekdaySet} (list : IsDayList text days) : days ≠ ∅ := by
  obtain ⟨items, divides, valid, members⟩ := list
  rintro rfl
  -- A list has at least one item, so it names at least one day.
  cases items with
  | nil =>
    rw [Text.divides_iff] at divides
    simp at divides
  | cons item items =>
    obtain ⟨day, denotes⟩ := valid item List.mem_cons_self
    exact WeekdaySet.not_mem_empty ((members day).mpr ⟨item, List.mem_cons_self, denotes⟩)

theorem readDayList_eq_pure {days : WeekdaySet} (list : IsDayList text days) :
    readDayList (some text) = pure days := by
  have nonempty := list.days_ne_empty
  rw [readDayList_of_ne_nil list.ne_nil]
  obtain ⟨items, divides, valid, members⟩ := list
  obtain ⟨result, read, found⟩ := @readDays_eq_pure ∅ items valid
  -- The reader and the list name the same days.
  have same : result = days := by
    apply WeekdaySet.ext
    intro day
    rw [found, members]
    simp
  rw [Text.divides_iff.mp divides, read, same, Reading.pure_bind,
    WeekdaySet.orSingle_of_ne_empty nonempty]

theorem IsDayList.unique {days other : WeekdaySet} (list : IsDayList text days)
    (otherList : IsDayList text other) : days = other := by
  have read := readDayList_eq_pure list
  rw [readDayList_eq_pure otherList] at read
  exact (congrArg Reading.value read).symm

end Pattern

end Cadence
