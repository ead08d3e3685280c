import Cadence.Proofs.Pattern.Grammar

/-!
# Recovery by fields

What the lenient reader makes of a text that is no pattern.  `Recovers` gives the rule that the
arguments of a keyword are read as, each field from its own text: the value that the text denotes,
or else the default of the field.  `HasForm` cuts a text at its colons into a keyword and arguments,
and the rule of such a text is the one recovered from them (`parse_of_hasForm`, `recovers_iff`).

For changes to one field, a `Place` is the place of a field in a pattern with the texts around it.
Another text in that place changes that field of the rule and no other
(`agreeBeside_readArguments_fill`), and one faulty text does there what any other does
(`readArguments_fill_of_isFaulty`).
-/

namespace Cadence

namespace Pattern

open Text (IsNumeral Divides Trims)

/-! ## Fields with defaults -/

/-- The value is one that is denoted, or the default where none is. -/
def Settles {α : Type} (denotes : α → Prop) (default value : α) : Prop :=
  denotes value ∨ (∀ other, ¬ denotes other) ∧ value = default

/-- The argument is there and is a numeral for the count. -/
def IsInterval (argument : Option (List Char)) (count : Count) : Prop :=
  ∃ text ∈ argument, IsNumeral text count.value

/-- The argument is there and lists the weekday, whatever else it lists. -/
def Lists (argument : Option (List Char)) (day : Weekday) : Prop :=
  ∃ list ∈ argument, ∃ items, Divides ',' list items ∧ ∃ item ∈ items, IsNumeral item day.number

/-- The arguments of a keyword are read as the rule, each field from its own text. -/
inductive Recovers : Keyword → List (List Char) → Rule → Prop where
  | daily {arguments : List (List Char)} {interval : Count}
      (isInterval : Settles (IsInterval arguments[0]?) .one interval) :
      Recovers .daily arguments (.daily interval)
  | weekdays {arguments : List (List Char)} : Recovers .weekdays arguments .weekdays
  | weekly {arguments : List (List Char)} {interval : Count} {days : WeekdaySet}
      (isInterval : Settles (IsInterval arguments[0]?) .one interval)
      (isSet : ∀ day, day ∈ days ↔ Settles (Lists arguments[1]?) .monday day) :
      Recovers .weekly arguments (.weekly interval days)
  | noDayOfMonth : Recovers .monthly [] (.dayOfMonth 1)
  | dayOfMonth {text : List Char} {day : Nat} (isDay : Settles (IsDayOfMonth text) 1 day) :
      Recovers .monthly [text] (.dayOfMonth day)
  -- Whatever the second argument holds, the first one is no day any more.
  | weekdayOfMonth {first second : List Char} {more : List (List Char)} {ordinal : Ordinal}
      {weekday : Weekday}
      (isOrdinal : Settles (fun ordinal : Ordinal => IsNumeral first ordinal.number) .first ordinal)
      (isWeekday : Settles (fun day : Weekday => IsNumeral second day.number) .monday weekday) :
      Recovers .monthly (first :: second :: more) (.weekdayOfMonth ordinal weekday)
  | noMonthDay : Recovers .yearly [] (.anniversary .january 1)
  -- A date without a hyphen has the empty text for its day.
  | anniversary {date before after first second : List Char} {more : List (List Char)}
      {month : Month} {day : Nat} (cut : IsCut date before after) (monthTrims : Trims before first)
      (dayTrims : Trims after second)
      (isMonth : Settles (fun month : Month => IsNumeral first month.number) .january month)
      (isDay : Settles (IsDayOfMonth second) 1 day) :
      Recovers .yearly (date :: more) (.anniversary month day)

/-- The text, cut at its colons, starts with the keyword and goes on with the arguments. -/
def HasForm (text : String) (keyword : Keyword) (arguments : List (List Char)) : Prop :=
  ∃ word, text.toList.splitOn ':' = word :: arguments ∧ Spells (Text.trim word) keyword

/-! ## Places of fields -/

/-- The place of a field in a pattern, with the texts that stand around it. -/
inductive Place where
  | dailyInterval (more : List (List Char))
  | weeklyInterval (more : List (List Char))
  | dayList (interval : List Char) (more : List (List Char))
  /-- One item of the day list, between those before and after it. -/
  | listedDay (interval : List Char) (before after more : List (List Char))
  | dayOfMonth
  | ordinal (weekday : List Char) (more : List (List Char))
  | weekday (ordinal : List Char) (more : List (List Char))
  | month (day : List Char) (more : List (List Char))
  /-- The month of a date that has no hyphen and no day. -/
  | onlyMonth (more : List (List Char))
  | day (month : List Char) (more : List (List Char))

namespace Place

def keyword : Place → Keyword
  | dailyInterval _ => .daily
  | weeklyInterval _ | dayList _ _ | listedDay _ _ _ _ => .weekly
  | dayOfMonth | ordinal _ _ | weekday _ _ => .monthly
  | month _ _ | onlyMonth _ | day _ _ => .yearly

def field : Place → PatternField
  | dailyInterval _ | weeklyInterval _ => .interval
  | dayList _ _ | listedDay _ _ _ _ | weekday _ _ => .weekday
  | ordinal _ _ => .ordinal
  | dayOfMonth | day _ _ => .dayOfMonth
  | month _ _ | onlyMonth _ => .month

/-- The arguments with a text in the place. -/
def fill (place : Place) (text : List Char) : List (List Char) :=
  match place with
  | dailyInterval more | weeklyInterval more | onlyMonth more => text :: more
  | dayList first more => first :: text :: more
  | listedDay first before after more =>
    first :: [','].intercalate (before ++ text :: after) :: more
  | dayOfMonth => [text]
  | ordinal second more => text :: second :: more
  | weekday first more => first :: text :: more
  | month second more => (text ++ '-' :: second) :: more
  | day first more => (first ++ '-' :: text) :: more

/-- The list and the date are cut where the place says, so the text is all that stands in it. -/
def Fits (place : Place) (text : List Char) : Prop :=
  match place with
  | listedDay _ before after _ => ∀ item ∈ before ++ text :: after, ',' ∉ item
  | month _ _ | onlyMonth _ => '-' ∉ text
  | day first _ => '-' ∉ first
  | dailyInterval _ | weeklyInterval _ | dayList _ _ | dayOfMonth | ordinal _ _ | weekday _ _ =>
    True

instance (place : Place) (text : List Char) : Decidable (place.Fits text) :=
  match place with
  | listedDay _ before after _ =>
    inferInstanceAs (Decidable (∀ item ∈ before ++ text :: after, ',' ∉ item))
  | month _ _ | onlyMonth _ => inferInstanceAs (Decidable ('-' ∉ text))
  | day first _ => inferInstanceAs (Decidable ('-' ∉ first))
  | dailyInterval _ | weeklyInterval _ | dayList _ _ | dayOfMonth | ordinal _ _ | weekday _ _ =>
    inferInstanceAs (Decidable True)

/-- The text denotes no value of the field. -/
def IsFaulty (place : Place) (text : List Char) : Prop :=
  match place with
  | dailyInterval _ | weeklyInterval _ => ∀ count : Count, ¬ IsNumeral text count.value
  | dayList _ _ => ∀ day, ¬ Lists (some text) day
  | listedDay _ _ _ _ | weekday _ _ => ∀ day : Weekday, ¬ IsNumeral text day.number
  | ordinal _ _ => ∀ ordinal : Ordinal, ¬ IsNumeral text ordinal.number
  | dayOfMonth | day _ _ => ∀ day, ¬ IsDayOfMonth text day
  | month _ _ | onlyMonth _ => ∀ month : Month, ¬ IsNumeral text month.number

end Place

/-- The rules have one form and the same fields, the named one apart. -/
inductive AgreeBeside : PatternField → Rule → Rule → Prop where
  | daily {interval other : Count} : AgreeBeside .interval (.daily interval) (.daily other)
  | weekly {interval other : Count} {days : WeekdaySet} :
      AgreeBeside .interval (.weekly interval days) (.weekly other days)
  | days {interval : Count} {days other : WeekdaySet} :
      AgreeBeside .weekday (.weekly interval days) (.weekly interval other)
  | dayOfMonth {day other : Nat} : AgreeBeside .dayOfMonth (.dayOfMonth day) (.dayOfMonth other)
  | ordinal {ordinal other : Ordinal} {weekday : Weekday} :
      AgreeBeside .ordinal (.weekdayOfMonth ordinal weekday) (.weekdayOfMonth other weekday)
  | weekday {ordinal : Ordinal} {weekday other : Weekday} :
      AgreeBeside .weekday (.weekdayOfMonth ordinal weekday) (.weekdayOfMonth ordinal other)
  | month {month other : Month} {day : Nat} :
      AgreeBeside .month (.anniversary month day) (.anniversary other day)
  | day {month : Month} {day other : Nat} :
      AgreeBeside .dayOfMonth (.anniversary month day) (.anniversary month other)

/-! ## Reading fields -/

section

variable {α : Type} {denotes : α → Prop} {found : Option α} {default value : α}

theorem settles_iff (spec : ∀ {a}, found = some a ↔ denotes a) :
    Settles denotes default value ↔ found.getD default = value := by
  simp only [Settles, ← spec]
  cases found with
  | none => simp [eq_comm]
  | some a => simp

theorem getD_of_faulty (spec : ∀ {a}, found = some a ↔ denotes a) (faulty : ∀ a, ¬ denotes a) :
    found.getD default = default :=
  (settles_iff spec).mp (.inr ⟨faulty, rfl⟩)

@[simp] theorem value_readField {field : PatternField} {text : List Char} :
    (readField field text found default).value = found.getD default := by
  cases found <;> rfl

theorem value_readField_of_faulty {field : PatternField} {text : List Char}
    (spec : ∀ {a}, found = some a ↔ denotes a) (faulty : ∀ a, ¬ denotes a) :
    (readField field text found default).value = default := by
  rw [value_readField, getD_of_faulty spec faulty]

end

variable {text : List Char} {argument : Option (List Char)}

theorem value_readInterval_eq_iff {count : Count} :
    (readInterval argument).value = count ↔ Settles (IsInterval argument) .one count := by
  cases argument with
  | none => simp [readInterval, Settles, IsInterval, eq_comm]
  | some text =>
    rw [readInterval, value_readField, settles_iff]
    simp [IsInterval, Count.read?_eq_some_iff]

theorem value_readInterval_of_faulty (faulty : ∀ count : Count, ¬ IsNumeral text count.value) :
    (readInterval (some text)).value = .one := by
  rw [readInterval_eq_standIn faulty]
  rfl

theorem value_readDayOfMonth_eq_iff {day : Nat} :
    (readDayOfMonth text).value = day ↔ Settles (IsDayOfMonth text) 1 day := by
  rw [settles_iff dayOfMonth_eq_some_iff, readDayOfMonth, value_readField]

theorem value_readDayOfMonth_of_faulty (faulty : ∀ day, ¬ IsDayOfMonth text day) :
    (readDayOfMonth text).value = 1 := by
  rw [readDayOfMonth_eq_standIn faulty]
  rfl

theorem lists_some_iff {day : Weekday} :
    Lists (some text) day ↔
      ∃ item ∈ (text.splitOn ',').map Text.trim, IsNumeral item day.number := by
  simp [Lists, Text.divides_iff]

/-- Items that denote weekdays add them, and the others add none. -/
theorem mem_readDays {days : WeekdaySet} {items : List (List Char)} {day : Weekday} :
    day ∈ (readDays days items).value ↔
      day ∈ days ∨ ∃ item ∈ items, IsNumeral item day.number := by
  induction items generalizing days with
  | nil => simp [readDays]
  | cons item items ih =>
    rw [readDays, Reading.value_bind, ih, value_readField, List.exists_mem_cons_iff, ← or_assoc,
      ← weekday_eq_some_iff]
    cases Text.numeral? item >>= Weekday.ofNumber? with
    | none => simp
    | some first => simp [eq_comm]

/-- An empty list has one item, which denotes no weekday, so it needs no case of its own. -/
theorem value_readDayList_some (list : List Char) :
    (readDayList (some list)).value =
      (readDays ∅ ((list.splitOn ',').map Text.trim)).value.orSingle .monday := by
  cases list with
  | nil => decide
  | cons _ _ => rfl

theorem mem_readDayList {day : Weekday} :
    day ∈ (readDayList argument).value ↔ Settles (Lists argument) .monday day := by
  cases argument with
  | none => simp [readDayList, Reading.standIn, Settles, Lists]
  | some list =>
    rw [value_readDayList_some, WeekdaySet.mem_orSingle, WeekdaySet.eq_empty_iff]
    simp only [mem_readDays, WeekdaySet.not_mem_empty, false_or, ← lists_some_iff, Settles]

theorem value_readDayList_eq_iff {days : WeekdaySet} :
    (readDayList argument).value = days ↔
      ∀ day, day ∈ days ↔ Settles (Lists argument) .monday day := by
  simp only [← mem_readDayList]
  constructor
  · rintro rfl day
    rfl
  · exact fun same => WeekdaySet.ext fun day => (same day).symm

theorem value_readDayList_of_faulty (faulty : ∀ day, ¬ Lists argument day) :
    (readDayList argument).value = .single .monday := by
  rw [value_readDayList_eq_iff]
  simp [Settles, faulty]

/-- Lists of the same weekdays are read as the same set. -/
theorem value_readDayList_congr {other : Option (List Char)}
    (same : ∀ day, Lists argument day ↔ Lists other day) :
    (readDayList argument).value = (readDayList other).value := by
  apply WeekdaySet.ext
  simp only [mem_readDayList, Settles, same, implies_true]

/-- Trimming a whole list leaves its items as they are once they are trimmed themselves. -/
theorem lists_trim_intercalate {items : List (List Char)} (nonempty : items ≠ [])
    (clean : ∀ item ∈ items, ',' ∉ item) {day : Weekday} :
    Lists (some (Text.trim ([','].intercalate items))) day ↔
      ∃ item ∈ items, IsNumeral (Text.trim item) day.number := by
  rw [lists_some_iff, ← (Text.padded_trim _).map_trim_splitOn (by decide),
    List.splitOn_intercalate ',' clean nonempty]
  simp

/-! ## Reading arguments -/

variable {keyword : Keyword} {arguments : List (List Char)} {rule : Rule}

theorem value_readWeekdayOfMonth (first second : List Char) (more : List (List Char)) :
    (readMonthly (first :: second :: more)).value =
      .weekdayOfMonth ((Text.numeral? first >>= Ordinal.ofNumber?).getD .first)
        ((Text.numeral? second >>= Weekday.ofNumber?).getD .monday) := by
  simp [readMonthly]

theorem value_readYearly_of_isCut {date before after : List Char} (cut : IsCut date before after)
    (more : List (List Char)) :
    (readYearly (date :: more)).value =
      .anniversary ((Text.numeral? (Text.trim before) >>= Month.ofNumber?).getD .january)
        (readDayOfMonth (Text.trim after)).value := by
  simp [readYearly, cut.eq_cut]

theorem recovers_readArguments (keyword : Keyword) (arguments : List (List Char)) :
    Recovers keyword arguments (readArguments keyword arguments).value := by
  cases keyword with
  | daily => exact .daily (value_readInterval_eq_iff.mp rfl)
  | weekdays => exact .weekdays
  | weekly =>
    exact .weekly (value_readInterval_eq_iff.mp rfl) (value_readDayList_eq_iff.mp rfl)
  | monthly =>
    match arguments with
    | [] => exact .noDayOfMonth
    | [day] => exact .dayOfMonth (value_readDayOfMonth_eq_iff.mp rfl)
    | first :: second :: more =>
      rw [readArguments, value_readWeekdayOfMonth]
      exact .weekdayOfMonth ((settles_iff ordinal_eq_some_iff).mpr rfl)
        ((settles_iff weekday_eq_some_iff).mpr rfl)
  | yearly =>
    cases arguments with
    | nil => exact .noMonthDay
    | cons date more =>
      obtain ⟨before, after, cut⟩ := exists_isCut date
      rw [readArguments, value_readYearly_of_isCut cut]
      exact .anniversary cut (Text.trims_trim before) (Text.trims_trim after)
        ((settles_iff month_eq_some_iff).mpr rfl) (value_readDayOfMonth_eq_iff.mp rfl)

theorem value_readArguments_of_recovers (recovers : Recovers keyword arguments rule) :
    (readArguments keyword arguments).value = rule := by
  cases recovers with
  | daily isInterval => exact congrArg Rule.daily (value_readInterval_eq_iff.mpr isInterval)
  | weekdays | noDayOfMonth | noMonthDay => rfl
  | weekly isInterval isSet =>
    exact congrArg₂ Rule.weekly (value_readInterval_eq_iff.mpr isInterval)
      (value_readDayList_eq_iff.mpr isSet)
  | dayOfMonth isDay => exact congrArg Rule.dayOfMonth (value_readDayOfMonth_eq_iff.mpr isDay)
  | weekdayOfMonth isOrdinal isWeekday =>
    rw [readArguments, value_readWeekdayOfMonth, (settles_iff ordinal_eq_some_iff).mp isOrdinal,
      (settles_iff weekday_eq_some_iff).mp isWeekday]
  | anniversary cut monthTrims dayTrims isMonth isDay =>
    rw [readArguments, value_readYearly_of_isCut cut, Text.trim_eq_of_trims monthTrims,
      Text.trim_eq_of_trims dayTrims, (settles_iff month_eq_some_iff).mp isMonth,
      value_readDayOfMonth_eq_iff.mpr isDay]

theorem recovers_iff :
    Recovers keyword arguments rule ↔ (readArguments keyword arguments).value = rule := by
  constructor
  · exact value_readArguments_of_recovers
  · rintro rfl
    exact recovers_readArguments keyword arguments

/-- Arguments beyond the ones that the keyword takes are not looked at. -/
theorem value_readArguments_append (more : List (List Char))
    (enough : argumentLimit keyword ≤ arguments.length) :
    (readArguments keyword (arguments ++ more)).value =
      (readArguments keyword arguments).value := by
  match keyword, arguments, enough with
  | .weekdays, _, _ => rfl
  | .daily, _ :: _, _ => rfl
  | .yearly, _ :: _, _ => rfl
  | .weekly, _ :: _ :: _, _ => rfl
  | .monthly, _ :: _ :: _, _ => rfl

/-! ## Putting a text in a place -/

variable {place : Place} {old new : List Char}

/-- A text without separators fits wherever another one does. -/
theorem Place.Fits.replace (fits : place.Fits old) (noComma : ',' ∉ new) (noHyphen : '-' ∉ new) :
    place.Fits new := by
  cases place with
  | listedDay _ before after _ =>
    simp only [Place.Fits, List.forall_mem_append, List.forall_mem_cons] at fits ⊢
    exact ⟨fits.1, noComma, fits.2.2⟩
  | month _ _ | onlyMonth _ => exact noHyphen
  | day _ _ => exact fits
  | dailyInterval _ | weeklyInterval _ | dayList _ _ | dayOfMonth | ordinal _ _ | weekday _ _ =>
    trivial

theorem Place.Fits.nil (fits : place.Fits text) : place.Fits [] :=
  fits.replace List.not_mem_nil List.not_mem_nil

theorem Place.colon_not_mem_fill (clean : ∀ argument ∈ place.fill old, ':' ∉ argument)
    (noColon : ':' ∉ new) : ∀ argument ∈ place.fill new, ':' ∉ argument := by
  cases place with
  | listedDay first before after more =>
    have joined {items : List (List Char)} :
        ':' ∉ [','].intercalate items ↔ ∀ item ∈ items, ':' ∉ item := by
      simp [Text.mem_intercalate_iff]
    simp only [fill, List.forall_mem_cons, joined, List.forall_mem_append] at clean ⊢
    obtain ⟨cleanFirst, ⟨cleanBefore, -, cleanAfter⟩, cleanMore⟩ := clean
    exact ⟨cleanFirst, ⟨cleanBefore, noColon, cleanAfter⟩, cleanMore⟩
  | dailyInterval _ | weeklyInterval _ | dayList _ _ | dayOfMonth | ordinal _ _ | weekday _ _
  | month _ _ | onlyMonth _ | day _ _ =>
    simp_all [fill]

/-- A text without colons can be put in the place of a field. -/
theorem HasForm.replace {text : String} (form : HasForm text keyword (place.fill old))
    (noColon : ':' ∉ new) : ∃ other, HasForm other keyword (place.fill new) := by
  obtain ⟨word, split, spells⟩ := form
  obtain ⟨-, clean, -⟩ := Text.splitOn_eq_iff.mp split
  rw [List.forall_mem_cons] at clean
  refine ⟨.ofList ([':'].intercalate (word :: place.fill new)), word, ?_, spells⟩
  rw [String.toList_ofList, List.splitOn_intercalate ':' _ (List.cons_ne_nil _ _)]
  rw [List.forall_mem_cons]
  exact ⟨clean.1, place.colon_not_mem_fill clean.2 noColon⟩

/-! ## Reading a place -/

/-- A trimmed date is cut at the same hyphen, into a month and a day with fewer blanks. -/
theorem IsCut.trim {date before after : List Char} (cut : IsCut date before after) :
    ∃ first second, IsCut (Text.trim date) first second ∧
      Text.trim first = Text.trim before ∧ Text.trim second = Text.trim after := by
  obtain ⟨noHyphen, rfl | ⟨rfl, rfl⟩⟩ := cut
  · refine ⟨Text.trimStart before, Text.trimEnd after, ⟨?_, .inl ?_⟩, ?_, ?_⟩
    · exact (Text.padded_trimStart before).not_mem noHyphen
    · exact Text.trim_append_cons (by decide)
    · exact (Text.padded_trimStart before).trim_eq.symm
    · exact (Text.padded_trimEnd after).trim_eq.symm
  · have padded := Text.padded_trim date
    exact ⟨Text.trim date, [], ⟨padded.not_mem noHyphen, .inr ⟨rfl, rfl⟩⟩, padded.trim_eq.symm, rfl⟩

theorem value_readYearly_trim {date before after : List Char} (cut : IsCut date before after)
    (more : List (List Char)) :
    (readYearly (Text.trim date :: more)).value =
      .anniversary ((Text.numeral? (Text.trim before) >>= Month.ofNumber?).getD .january)
        (readDayOfMonth (Text.trim after)).value := by
  obtain ⟨first, second, trimmed, sameMonth, sameDay⟩ := cut.trim
  rw [value_readYearly_of_isCut trimmed, sameMonth, sameDay]

theorem Place.Fits.lists_listedDay {first : List Char} {before after more : List (List Char)}
    (fits : (listedDay first before after more).Fits text) {day : Weekday} :
    Lists (((listedDay first before after more).fill text).map Text.trim)[1]? day ↔
      ∃ item ∈ before ++ text :: after, IsNumeral (Text.trim item) day.number :=
  lists_trim_intercalate (by simp) fits

theorem Place.Fits.value_month {second : List Char} {more : List (List Char)}
    (fits : (month second more).Fits text) :
    (readArguments .yearly (((month second more).fill text).map Text.trim)).value =
      .anniversary ((Text.numeral? (Text.trim text) >>= Month.ofNumber?).getD .january)
        (readDayOfMonth (Text.trim second)).value :=
  value_readYearly_trim ⟨fits, .inl rfl⟩ _

theorem Place.Fits.value_onlyMonth {more : List (List Char)} (fits : (onlyMonth more).Fits text) :
    (readArguments .yearly (((onlyMonth more).fill text).map Text.trim)).value =
      .anniversary ((Text.numeral? (Text.trim text) >>= Month.ofNumber?).getD .january) 1 :=
  value_readYearly_trim ⟨fits, .inr ⟨rfl, rfl⟩⟩ _

theorem Place.Fits.value_day {first : List Char} {more : List (List Char)}
    (fits : (day first more).Fits text) :
    (readArguments .yearly (((day first more).fill text).map Text.trim)).value =
      .anniversary ((Text.numeral? (Text.trim first) >>= Month.ofNumber?).getD .january)
        (readDayOfMonth (Text.trim text)).value :=
  value_readYearly_trim ⟨fits, .inl rfl⟩ _

/-- Another text in one place changes that field alone. -/
theorem agreeBeside_readArguments_fill (oldFits : place.Fits old) (newFits : place.Fits new) :
    AgreeBeside place.field
      (readArguments place.keyword ((place.fill old).map Text.trim)).value
      (readArguments place.keyword ((place.fill new).map Text.trim)).value := by
  cases place with
  | dailyInterval _ => exact .daily
  | weeklyInterval _ => exact .weekly
  | dayList _ _ | listedDay _ _ _ _ => exact .days
  | dayOfMonth => exact .dayOfMonth
  | ordinal _ _ => exact .ordinal
  | weekday _ _ => exact .weekday
  | month _ _ =>
    rw [Place.keyword, oldFits.value_month, newFits.value_month]
    exact .month
  | onlyMonth _ =>
    rw [Place.keyword, oldFits.value_onlyMonth, newFits.value_onlyMonth]
    exact .month
  | day _ _ =>
    rw [Place.keyword, oldFits.value_day, newFits.value_day]
    exact .day

/-- A faulty text does in its place what the empty text does there. -/
theorem readArguments_fill_of_isFaulty (fits : place.Fits text)
    (faulty : place.IsFaulty (Text.trim text)) :
    (readArguments place.keyword ((place.fill text).map Text.trim)).value =
      (readArguments place.keyword ((place.fill []).map Text.trim)).value := by
  cases place with
  | dailyInterval _ => exact congrArg Rule.daily (value_readInterval_of_faulty faulty)
  | weeklyInterval _ =>
    exact congrArg (Rule.weekly · _) (value_readInterval_of_faulty faulty)
  | dayList _ _ => exact congrArg (Rule.weekly _) (value_readDayList_of_faulty faulty)
  | listedDay first before after more =>
    apply congrArg (Rule.weekly _)
    apply value_readDayList_congr
    intro day
    have emptyFaulty : ¬ IsNumeral (Text.trim []) day.number := Text.not_isNumeral_nil
    rw [fits.lists_listedDay, fits.nil.lists_listedDay]
    simp only [List.mem_append, or_and_right, exists_or, List.exists_mem_cons_iff, faulty day,
      emptyFaulty]
  | dayOfMonth => exact congrArg Rule.dayOfMonth (value_readDayOfMonth_of_faulty faulty)
  | ordinal second more =>
    exact congrArg (Rule.weekdayOfMonth · _) (value_readField_of_faulty ordinal_eq_some_iff faulty)
  | weekday first more =>
    exact congrArg (Rule.weekdayOfMonth _) (value_readField_of_faulty weekday_eq_some_iff faulty)
  | month _ _ =>
    rw [Place.keyword, fits.value_month, fits.nil.value_month,
      getD_of_faulty month_eq_some_iff faulty]
    rfl
  | onlyMonth _ =>
    rw [Place.keyword, fits.value_onlyMonth, getD_of_faulty month_eq_some_iff faulty]
    rfl
  | day _ _ =>
    rw [Place.keyword, fits.value_day, fits.nil.value_day, value_readDayOfMonth_of_faulty faulty]
    rfl

/-! ## Reading texts -/

theorem parts_eq_map_trim (text : List Char) : parts text = (text.splitOn ':').map Text.trim :=
  ((Text.padded_trim text).map_trim_splitOn (by decide)).symm

theorem parse_of_hasForm {text : String} (form : HasForm text keyword arguments) :
    Rule.parse text = (readArguments keyword (arguments.map Text.trim)).value := by
  obtain ⟨word, split, spells⟩ := form
  have parts : HasParts text.toList (Text.trim word :: arguments.map Text.trim) := by
    rw [hasParts_iff, parts_eq_map_trim, split, List.map_cons]
  rw [Rule.parse, read_eq_readArguments parts spells]

theorem parse_of_not_hasForm {text : String}
    (unknown : ∀ keyword arguments, ¬ HasForm text keyword arguments) :
    Rule.parse text = .everyDay := by
  obtain ⟨word, arguments, split⟩ :=
    List.exists_cons_of_ne_nil (List.splitOn_ne_nil ':' text.toList)
  have unspelled : Keyword.ofWord? (Text.trim word) = none := by
    apply Option.eq_none_iff_forall_ne_some.mpr
    intro keyword found
    exact unknown keyword arguments ⟨word, split, ofWord?_eq_some_iff.mp found⟩
  simp only [Rule.parse, read, parts_eq_map_trim, split, List.map_cons, unspelled]
  split <;> rfl

theorem parse_of_blank {text : String} (blank : Text.Trims text.toList []) :
    Rule.parse text = .everyDay := by
  rw [Rule.parse, read, if_pos (Text.trim_eq_of_trims blank)]
  rfl

end Pattern

namespace Rule

open Pattern (HasForm Place)

/-- Lenient reading recovers field by field.  The rule of a text with a known keyword takes each
field from its own argument, the value that stands there or else the default of the field.  A text
without a keyword fires every day.  Arguments beyond those that the keyword takes change nothing.
With another text in the place of one field the other fields stay as they are, and with one faulty
text in the place of another the rule stays as it is; any text without separators can be put
there. -/
theorem parse_recovers_by_field :
    (∀ text keyword arguments, HasForm text keyword arguments →
        ∀ rule, parse text = rule ↔ Pattern.Recovers keyword (arguments.map Text.trim) rule) ∧
      (∀ text, (Text.Trims text.toList [] ∨ ∀ keyword arguments, ¬ HasForm text keyword arguments) →
        parse text = .daily .one) ∧
      (∀ text longer keyword arguments more, HasForm text keyword arguments →
        HasForm longer keyword (arguments ++ more) →
        Pattern.argumentLimit keyword ≤ arguments.length → parse longer = parse text) ∧
      (∀ (place : Place) text other old new, HasForm text place.keyword (place.fill old) →
        HasForm other place.keyword (place.fill new) → place.Fits old → place.Fits new →
        Pattern.AgreeBeside place.field (parse text) (parse other) ∧
          (place.IsFaulty (Text.trim old) → place.IsFaulty (Text.trim new) →
            parse text = parse other)) ∧
      ∀ (place : Place) text old new, HasForm text place.keyword (place.fill old) →
        place.Fits old → (∀ separator ∈ [':', ',', '-'], separator ∉ new) →
        place.Fits new ∧ ∃ other, HasForm other place.keyword (place.fill new) := by
  refine ⟨?_, ?_, ?_, ?_, ?_⟩
  · intro text keyword arguments form rule
    rw [Pattern.parse_of_hasForm form, Pattern.recovers_iff]
  · rintro text (blank | unknown)
    · exact Pattern.parse_of_blank blank
    · exact Pattern.parse_of_not_hasForm unknown
  · intro text longer keyword arguments more form longerForm enough
    rw [Pattern.parse_of_hasForm form, Pattern.parse_of_hasForm longerForm, List.map_append]
    apply Pattern.value_readArguments_append
    rwa [List.length_map]
  · intro place text other old new form otherForm oldFits newFits
    rw [Pattern.parse_of_hasForm form, Pattern.parse_of_hasForm otherForm]
    constructor
    · exact Pattern.agreeBeside_readArguments_fill oldFits newFits
    · intro oldFaulty newFaulty
      rw [Pattern.readArguments_fill_of_isFaulty oldFits oldFaulty,
        Pattern.readArguments_fill_of_isFaulty newFits newFaulty]
  · intro place text old new form fits clean
    simp only [List.forall_mem_cons] at clean
    exact ⟨fits.replace clean.2.1 clean.2.2.1, form.replace clean.1⟩

/-- A weekly pattern with a faulty interval, two faulty items in its list and an argument too many,
and a word that is no keyword. -/
theorem parse_faulty_weekly :
    Pattern.Recovers .weekly (["x", "9, +3 ,,07", "more"].map String.toList)
        (.weekly .one (.ofNumbers [3, 7])) ∧
      parse "hourly:2" = .daily .one ∧
      parse " weekly : x :9, +3 ,,07: more" = parse "WEEKLY: x :9, +3 ,,07" ∧
      parse "WEEKLY: x :9, +3 ,,07" = parse "WEEKLY: x :zero, +3 ,,07" := by
  have long : HasForm " weekly : x :9, +3 ,,07: more" .weekly
      ([" x ", "9, +3 ,,07", " more"].map String.toList) := ⟨" weekly ".toList, by rfl, by decide⟩
  have short : HasForm "WEEKLY: x :9, +3 ,,07" .weekly ([" x ", "9, +3 ,,07"].map String.toList) :=
    ⟨"WEEKLY".toList, by rfl, by decide⟩
  have other : HasForm "WEEKLY: x :zero, +3 ,,07" .weekly
      ([" x ", "zero, +3 ,,07"].map String.toList) := ⟨"WEEKLY".toList, by rfl, by decide⟩
  have unknown : ∀ keyword arguments, ¬ HasForm "hourly:2" keyword arguments := by
    rintro keyword arguments ⟨word, split, spells⟩
    have pieces : "hourly:2".toList.splitOn ':' = ["hourly".toList, "2".toList] := by rfl
    obtain ⟨rfl, -⟩ := List.cons.inj (pieces.symm.trans split)
    cases keyword <;> exact absurd spells (by decide)
  have faulty {item : List Char} (unread : Text.numeral? item >>= Weekday.ofNumber? = none)
      (day : Weekday) : ¬ Text.IsNumeral item day.number := by
    rw [← Pattern.weekday_eq_some_iff, unread]
    simp
  obtain ⟨fields, others, surplus, places, -⟩ := parse_recovers_by_field
  refine ⟨?_, ?_, ?_, ?_⟩
  · exact (fields _ _ _ long _).mp (by rfl)
  · exact others _ (.inr unknown)
  · exact surplus _ _ _ _ [" more".toList] short long (by decide)
  · exact (places (.listedDay " x ".toList [] ([" +3 ", "", "07"].map String.toList) []) _ _
      "9".toList "zero".toList short other (by decide) (by decide)).2 (faulty (by decide))
        (faulty (by decide))

end Rule

end Cadence
