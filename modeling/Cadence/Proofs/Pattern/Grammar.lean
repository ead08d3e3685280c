import Cadence.Proofs.Pattern.Field
import Cadence.Proofs.Rule.Fault

/-!
# The grammar of patterns

Which texts are patterns, and for which rules, said without the reader: the parts of a text are cut
out of it, the first one spells a keyword, and the others are numerals for the fields of the rule
(`Denotes`).  Beside it, for a text that is no pattern, the fault that stands first in it, where
each rule for a fault says what the text has before that fault (`Fails`).

The strict reader decides both (`parseStrict_exact`).  What denotes a rule is read as it and what
fails is read with that fault; since every text does one of the two (`denotes_or_fails`), and a
reading has one value and one fault, neither can be said of any other rule or fault.
-/

namespace Cadence

namespace Pattern

open Text (IsNumeral Divides Trims)

/-! ## Arguments -/

/-- The greatest number of arguments that the keyword takes. -/
def argumentLimit : Keyword → Nat
  | .weekdays => 0
  | .daily | .yearly => 1
  | .weekly | .monthly => 2

/-- The date is cut at its first hyphen into a month and a day; without one it is all month. -/
def IsCut (date month day : List Char) : Prop :=
  '-' ∉ month ∧ (date = month ++ '-' :: day ∨ date = month ∧ day = [])

/-- The arguments of a keyword denote the rule. -/
inductive ArgumentsDenote : Keyword → List (List Char) → Rule → Prop where
  | everyDay : ArgumentsDenote .daily [] .everyDay
  | daily {interval : List Char} {n : Count} (isInterval : IsNumeral interval n.value) :
      ArgumentsDenote .daily [interval] (.daily n)
  | weekdays : ArgumentsDenote .weekdays [] .weekdays
  | weekly {interval list : List Char} {n : Count} {days : WeekdaySet}
      (isInterval : IsNumeral interval n.value) (isList : IsDayList list days) :
      ArgumentsDenote .weekly [interval, list] (.weekly n days)
  | dayOfMonth {day : List Char} {n : Nat} (isDay : IsDayOfMonth day n) :
      ArgumentsDenote .monthly [day] (.dayOfMonth n)
  -- A second argument makes the first one an ordinal.
  | weekdayOfMonth {first second : List Char} {ordinal : Ordinal} {weekday : Weekday}
      (isOrdinal : IsNumeral first ordinal.number) (isWeekday : IsNumeral second weekday.number) :
      ArgumentsDenote .monthly [first, second] (.weekdayOfMonth ordinal weekday)
  | anniversary {before after first second : List Char} {month : Month} {day : Nat}
      (noHyphen : '-' ∉ before) (monthTrims : Trims before first) (dayTrims : Trims after second)
      (isMonth : IsNumeral first month.number) (isDay : IsNumeral second day)
      (positive : 1 ≤ day) (inMonth : day ≤ month.longest) :
      ArgumentsDenote .yearly [before ++ '-' :: after] (.anniversary month day)

/-- The first fault of the arguments of a keyword: too many of them, or else the first field from
the left that is missing or denotes nothing, or else a day that the month never has. -/
inductive ArgumentsFail : Keyword → List (List Char) → Fault → Prop where
  | tooMany {keyword : Keyword} {arguments : List (List Char)}
      (more : argumentLimit keyword < arguments.length) :
      ArgumentsFail keyword arguments
        (.tooManyArguments keyword (argumentLimit keyword) arguments.length)
  | dailyInterval {interval : List Char} (faulty : ∀ n : Count, ¬ IsNumeral interval n.value) :
      ArgumentsFail .daily [interval] (.invalidField .interval (.ofList interval))
  | weeklyInterval {interval : List Char} {more : List (List Char)} (few : more.length ≤ 1)
      (faulty : ∀ n : Count, ¬ IsNumeral interval n.value) :
      ArgumentsFail .weekly (interval :: more) (.invalidField .interval (.ofList interval))
  -- An interval that is left out is no fault: the days are what is missing.
  | noArguments : ArgumentsFail .weekly [] .missingDayList
  | noDayList {interval : List Char} {n : Count} (isInterval : IsNumeral interval n.value) :
      ArgumentsFail .weekly [interval] .missingDayList
  | emptyDayList {interval : List Char} {n : Count} (isInterval : IsNumeral interval n.value) :
      ArgumentsFail .weekly [interval, []] .missingDayList
  | dayList {interval list item : List Char} {n : Count} {before after : List (List Char)}
      (isInterval : IsNumeral interval n.value) (nonempty : list ≠ [])
      (items : Divides ',' list (before ++ item :: after)) (valid : ∀ item ∈ before, IsWeekday item)
      (faulty : ¬ IsWeekday item) :
      ArgumentsFail .weekly [interval, list] (.invalidField .weekday (.ofList item))
  | noDayOfMonth : ArgumentsFail .monthly [] .missingDayOfMonth
  | dayOfMonth {day : List Char} (faulty : ∀ n, ¬ IsDayOfMonth day n) :
      ArgumentsFail .monthly [day] (.invalidField .dayOfMonth (.ofList day))
  | ordinal {first second : List Char}
      (faulty : ∀ ordinal : Ordinal, ¬ IsNumeral first ordinal.number) :
      ArgumentsFail .monthly [first, second] (.invalidField .ordinal (.ofList first))
  | weekday {first second : List Char} {ordinal : Ordinal}
      (isOrdinal : IsNumeral first ordinal.number) (faulty : ¬ IsWeekday second) :
      ArgumentsFail .monthly [first, second] (.invalidField .weekday (.ofList second))
  | noMonthDay : ArgumentsFail .yearly [] .missingMonthDay
  -- The month is quoted with its blanks and the day without them.
  | month {date before after first : List Char} (cut : IsCut date before after)
      (monthTrims : Trims before first) (faulty : ∀ month : Month, ¬ IsNumeral first month.number) :
      ArgumentsFail .yearly [date] (.invalidField .month (.ofList before))
  | day {date before after first second : List Char} {month : Month} (cut : IsCut date before after)
      (monthTrims : Trims before first) (dayTrims : Trims after second)
      (isMonth : IsNumeral first month.number) (faulty : ∀ n, ¬ IsDayOfMonth second n) :
      ArgumentsFail .yearly [date] (.invalidField .dayOfMonth (.ofList second))
  | impossibleDay {date before after first second : List Char} {month : Month} {day : Nat}
      (cut : IsCut date before after) (monthTrims : Trims before first)
      (dayTrims : Trims after second) (isMonth : IsNumeral first month.number)
      (isDay : IsDayOfMonth second day) (beyond : month.longest < day) :
      ArgumentsFail .yearly [date] (.impossibleDay month day)

/-! ## Whole texts -/

/-- The text between its blanks, divided at its colons, has these parts. -/
def HasParts (text : List Char) (parts : List (List Char)) : Prop :=
  ∃ core, Trims text core ∧ Divides ':' core parts

/-- The word is the keyword in letters of either case. -/
def Spells (word : List Char) (keyword : Keyword) : Prop :=
  Text.toUpper word = keyword.text.toList

instance (word : List Char) (keyword : Keyword) : Decidable (Spells word keyword) :=
  inferInstanceAs (Decidable (_ = _))

/-- The text is a pattern of the rule. -/
inductive Denotes (text : List Char) (rule : Rule) : Prop where
  | intro {word : List Char} {arguments : List (List Char)} {keyword : Keyword}
      (parts : HasParts text (word :: arguments)) (spells : Spells word keyword)
      (denote : ArgumentsDenote keyword arguments rule)

/-- The first fault of a text that is no pattern. -/
inductive Fails (text : List Char) : Fault → Prop where
  | empty (blank : Trims text []) : Fails text .emptyPattern
  | keyword {word : List Char} {arguments : List (List Char)}
      (parts : HasParts text (word :: arguments)) (nonempty : ¬ Trims text [])
      (unknown : ∀ keyword, ¬ Spells word keyword) : Fails text (.unknownKeyword (.ofList word))
  | arguments {word : List Char} {arguments : List (List Char)} {keyword : Keyword} {fault : Fault}
      (parts : HasParts text (word :: arguments)) (spells : Spells word keyword)
      (fail : ArgumentsFail keyword arguments fault) : Fails text fault

/-! ## Readers of arguments -/

variable {keyword : Keyword} {arguments : List (List Char)} {rule : Rule} {fault : Fault}

theorem fault?_checkArguments_bind {limit : Nat} {next : Unit → Reading Rule}
    (more : limit < arguments.length) :
    (checkArguments keyword limit arguments >>= next).fault? =
      some (.tooManyArguments keyword limit arguments.length) := by
  rw [checkArguments, Reading.note_of _ more]
  rfl

theorem IsCut.eq_cut {date month day : List Char} (cut : IsCut date month day) :
    (Text.cutFirst '-' date).getD (date, []) = (month, day) := by
  obtain ⟨noHyphen, rfl | ⟨rfl, rfl⟩⟩ := cut
  · rw [Text.cutFirst_append noHyphen, Option.getD_some]
  · rw [Text.cutFirst_eq_none noHyphen, Option.getD_none]

theorem exists_isCut (date : List Char) : ∃ month day, IsCut date month day := by
  by_cases hyphen : '-' ∈ date
  · obtain ⟨month, day, rfl, noHyphen⟩ := List.eq_append_cons_of_mem hyphen
    exact ⟨month, day, noHyphen, .inl rfl⟩
  · exact ⟨date, [], hyphen, .inr ⟨rfl, rfl⟩⟩

theorem readDaily_singleton (interval : List Char) :
    readDaily [interval] = do return .daily (← readInterval (some interval)) := rfl

theorem readWeekly_cons (interval : List Char) {more : List (List Char)} (few : more.length ≤ 1) :
    readWeekly (interval :: more) = do
      let interval ← readInterval (some interval)
      let days ← readDayList more[0]?
      return .weekly interval days := by
  match more, few with
  | [], _ => rfl
  | [_], _ => rfl

theorem readMonthly_pair (first second : List Char) :
    readMonthly [first, second] = do
      let ordinal ← readField .ordinal first (Text.numeral? first >>= Ordinal.ofNumber?) .first
      let weekday ← readField .weekday second (Text.numeral? second >>= Weekday.ofNumber?) .monday
      return .weekdayOfMonth ordinal weekday := rfl

theorem readYearly_singleton {date before after first second : List Char}
    (cut : IsCut date before after) (monthTrims : Trims before first)
    (dayTrims : Trims after second) :
    readYearly [date] = do
      let month ← readField .month before (Text.numeral? first >>= Month.ofNumber?) .january
      let day ← readDayOfMonth second
      .note (month.longest < day) (.impossibleDay month day)
      return .anniversary month day := by
  have few : checkArguments .yearly 1 [date] = pure () := rfl
  -- The month is read from the trimmed text, but a fault quotes it as it was cut.
  rw [readYearly, few, Reading.pure_bind, cut.eq_cut, ← Text.trim_eq_of_trims monthTrims,
    ← Text.trim_eq_of_trims dayTrims]

/-- Arguments that denote a rule are read as it. -/
theorem readArguments_eq_pure (denote : ArgumentsDenote keyword arguments rule) :
    readArguments keyword arguments = pure rule := by
  cases denote with
  | everyDay | weekdays => rfl
  | daily isInterval =>
    rw [readArguments, readDaily_singleton, readInterval_eq_pure isInterval]
    rfl
  | weekly isInterval isList =>
    rw [readArguments, readWeekly_cons _ (by simp), readInterval_eq_pure isInterval,
      List.getElem?_cons_zero, readDayList_eq_pure isList]
    rfl
  | dayOfMonth isDay =>
    rw [readArguments, readMonthly, readDayOfMonth_eq_pure isDay]
    rfl
  | weekdayOfMonth isOrdinal isWeekday =>
    rw [readArguments, readMonthly_pair, readOrdinal_eq_pure isOrdinal,
      readWeekday_eq_pure isWeekday]
    rfl
  | @anniversary before after first second month day noHyphen monthTrims dayTrims isMonth isDay
      positive inMonth =>
    have cut : IsCut (before ++ '-' :: after) before after := ⟨noHyphen, .inl rfl⟩
    have isDayOfMonth : IsDayOfMonth second day :=
      ⟨isDay, positive, Nat.le_trans inMonth (Rule.longest_le_longestMonth month)⟩
    rw [readArguments, readYearly_singleton cut monthTrims dayTrims, readMonth_eq_pure isMonth,
      readDayOfMonth_eq_pure isDayOfMonth, Reading.pure_bind, Reading.pure_bind,
      Reading.note_of_not _ (Nat.not_lt.mpr inMonth)]
    rfl

/-- Too many arguments are the first fault of every keyword. -/
theorem fault?_readArguments_of_lt (more : argumentLimit keyword < arguments.length) :
    (readArguments keyword arguments).fault? =
      some (.tooManyArguments keyword (argumentLimit keyword) arguments.length) := by
  cases keyword with
  | daily | weekdays | weekly => exact fault?_checkArguments_bind more
  -- These two look at their arguments before they count them.
  | monthly =>
    match arguments, more with
    | _ :: _ :: _ :: _, more => exact fault?_checkArguments_bind more
  | yearly =>
    match arguments, more with
    | _ :: _ :: _, more => exact fault?_checkArguments_bind more

/-- Arguments that fail are read with the fault that they fail with. -/
theorem fault?_readArguments (fail : ArgumentsFail keyword arguments fault) :
    (readArguments keyword arguments).fault? = some fault := by
  cases fail with
  | tooMany more => exact fault?_readArguments_of_lt more
  | noArguments | noDayOfMonth | noMonthDay => rfl
  | dailyInterval faulty =>
    rw [readArguments, readDaily_singleton, readInterval_eq_standIn faulty]
    rfl
  | weeklyInterval few faulty =>
    rw [readArguments, readWeekly_cons _ few, readInterval_eq_standIn faulty]
    rfl
  | noDayList isInterval =>
    rw [readArguments, readWeekly_cons _ (by simp), readInterval_eq_pure isInterval]
    rfl
  | emptyDayList isInterval =>
    rw [readArguments, readWeekly_cons _ (by simp), readInterval_eq_pure isInterval]
    rfl
  | dayList isInterval nonempty items valid faulty =>
    rw [readArguments, readWeekly_cons _ (by simp), readInterval_eq_pure isInterval,
      List.getElem?_cons_zero, readDayList_of_ne_nil nonempty, Text.divides_iff.mp items]
    simp only [Reading.pure_bind, Reading.fault?_bind, fault?_readDays valid faulty, Option.some_or]
  | dayOfMonth faulty =>
    rw [readArguments, readMonthly, readDayOfMonth_eq_standIn faulty]
    rfl
  | ordinal faulty =>
    rw [readArguments, readMonthly_pair,
      readField_eq_standIn fun ordinal found => faulty ordinal (ordinal_eq_some_iff.mp found)]
    rfl
  | weekday isOrdinal faulty =>
    rw [readArguments, readMonthly_pair, readOrdinal_eq_pure isOrdinal, Reading.pure_bind,
      readField_eq_standIn fun weekday found => faulty ⟨weekday, weekday_eq_some_iff.mp found⟩]
    rfl
  | @month date before after first cut monthTrims faulty =>
    rw [readArguments, readYearly_singleton cut monthTrims (Text.trims_trim after),
      readField_eq_standIn fun month found => faulty month (month_eq_some_iff.mp found)]
    rfl
  | day cut monthTrims dayTrims isMonth faulty =>
    rw [readArguments, readYearly_singleton cut monthTrims dayTrims, readMonth_eq_pure isMonth,
      Reading.pure_bind, readDayOfMonth_eq_standIn faulty]
    rfl
  | impossibleDay cut monthTrims dayTrims isMonth isDay beyond =>
    rw [readArguments, readYearly_singleton cut monthTrims dayTrims, readMonth_eq_pure isMonth,
      readDayOfMonth_eq_pure isDay, Reading.pure_bind, Reading.pure_bind, Reading.note_of _ beyond]
    rfl

/-! ## Every text denotes or fails -/

theorem isDayList_or_faulty (list : List Char) :
    (∃ days, IsDayList list days) ∨
      ∃ before item after, Divides ',' list (before ++ item :: after) ∧
        (∀ item ∈ before, IsWeekday item) ∧ ¬ IsWeekday item := by
  generalize division : (list.splitOn ',').map Text.trim = items
  have divides : Divides ',' list items := Text.divides_iff.mpr division
  rcases Text.all_or_first_not IsWeekday items with valid | ⟨before, item, after, rfl, first⟩
  · obtain ⟨days, _, members⟩ := @readDays_eq_pure ∅ items valid
    exact .inl ⟨days, items, divides, valid, by simpa using members⟩
  · exact .inr ⟨before, item, after, divides, first⟩

theorem daily_denotes_or_fails (few : arguments.length ≤ 1) :
    (∃ rule, ArgumentsDenote .daily arguments rule) ∨
      ∃ fault, ArgumentsFail .daily arguments fault := by
  match arguments, few with
  | [], _ => exact .inl ⟨_, .everyDay⟩
  | [interval], _ =>
    by_cases valid : ∃ n : Count, IsNumeral interval n.value
    · obtain ⟨n, isInterval⟩ := valid
      exact .inl ⟨_, .daily isInterval⟩
    · exact .inr ⟨_, .dailyInterval (not_exists.mp valid)⟩

theorem weekly_denotes_or_fails (few : arguments.length ≤ 2) :
    (∃ rule, ArgumentsDenote .weekly arguments rule) ∨
      ∃ fault, ArgumentsFail .weekly arguments fault := by
  match arguments, few with
  | [], _ => exact .inr ⟨_, .noArguments⟩
  | interval :: more, few =>
    by_cases valid : ∃ n : Count, IsNumeral interval n.value
    · obtain ⟨n, isInterval⟩ := valid
      match more, few with
      | [], _ => exact .inr ⟨_, .noDayList isInterval⟩
      | [list], _ =>
        by_cases empty : list = []
        · subst empty
          exact .inr ⟨_, .emptyDayList isInterval⟩
        · rcases isDayList_or_faulty list with ⟨days, isList⟩ | ⟨_, _, _, items, valid, faulty⟩
          · exact .inl ⟨_, .weekly isInterval isList⟩
          · exact .inr ⟨_, .dayList isInterval empty items valid faulty⟩
    · exact .inr ⟨_, .weeklyInterval (Nat.le_of_succ_le_succ few) (not_exists.mp valid)⟩

theorem monthly_denotes_or_fails (few : arguments.length ≤ 2) :
    (∃ rule, ArgumentsDenote .monthly arguments rule) ∨
      ∃ fault, ArgumentsFail .monthly arguments fault := by
  match arguments, few with
  | [], _ => exact .inr ⟨_, .noDayOfMonth⟩
  | [day], _ =>
    by_cases valid : ∃ n, IsDayOfMonth day n
    · obtain ⟨n, isDay⟩ := valid
      exact .inl ⟨_, .dayOfMonth isDay⟩
    · exact .inr ⟨_, .dayOfMonth (not_exists.mp valid)⟩
  | [first, second], _ =>
    by_cases valid : ∃ ordinal : Ordinal, IsNumeral first ordinal.number
    · obtain ⟨ordinal, isOrdinal⟩ := valid
      by_cases listed : IsWeekday second
      · obtain ⟨weekday, isWeekday⟩ := listed
        exact .inl ⟨_, .weekdayOfMonth isOrdinal isWeekday⟩
      · exact .inr ⟨_, .weekday isOrdinal listed⟩
    · exact .inr ⟨_, .ordinal (not_exists.mp valid)⟩

/-- A date with a day in it has a hyphen. -/
theorem IsCut.eq_append {date month day second : List Char} {n : Nat} (cut : IsCut date month day)
    (dayTrims : Trims day second) (isDay : IsDayOfMonth second n) : date = month ++ '-' :: day := by
  rcases cut.2 with hyphen | ⟨_, rfl⟩
  · exact hyphen
  · -- Without a hyphen the day is the empty text, which is no numeral.
    rw [← Text.trim_eq_of_trims dayTrims] at isDay
    exact absurd isDay.1 Text.not_isNumeral_nil

theorem yearly_denotes_or_fails (few : arguments.length ≤ 1) :
    (∃ rule, ArgumentsDenote .yearly arguments rule) ∨
      ∃ fault, ArgumentsFail .yearly arguments fault := by
  match arguments, few with
  | [], _ => exact .inr ⟨_, .noMonthDay⟩
  | [date], _ =>
    obtain ⟨before, after, cut⟩ := exists_isCut date
    have monthTrims := Text.trims_trim before
    have dayTrims := Text.trims_trim after
    by_cases monthValid : ∃ month : Month, IsNumeral (Text.trim before) month.number
    · obtain ⟨month, isMonth⟩ := monthValid
      by_cases dayValid : ∃ n, IsDayOfMonth (Text.trim after) n
      · obtain ⟨day, isDay⟩ := dayValid
        by_cases inMonth : day ≤ month.longest
        · left
          rw [cut.eq_append dayTrims isDay]
          exact ⟨_, .anniversary cut.1 monthTrims dayTrims isMonth isDay.1 isDay.2.1 inMonth⟩
        · have beyond : month.longest < day := Nat.not_le.mp inMonth
          exact .inr ⟨_, .impossibleDay cut monthTrims dayTrims isMonth isDay beyond⟩
      · exact .inr ⟨_, .day cut monthTrims dayTrims isMonth (not_exists.mp dayValid)⟩
    · exact .inr ⟨_, .month cut monthTrims (not_exists.mp monthValid)⟩

theorem arguments_denote_or_fail (keyword : Keyword) (arguments : List (List Char)) :
    (∃ rule, ArgumentsDenote keyword arguments rule) ∨
      ∃ fault, ArgumentsFail keyword arguments fault := by
  by_cases few : arguments.length ≤ argumentLimit keyword
  · cases keyword with
    | daily => exact daily_denotes_or_fails few
    | weekdays =>
      rw [List.length_eq_zero_iff.mp (Nat.le_zero.mp few)]
      exact .inl ⟨_, .weekdays⟩
    | weekly => exact weekly_denotes_or_fails few
    | monthly => exact monthly_denotes_or_fails few
    | yearly => exact yearly_denotes_or_fails few
  · exact .inr ⟨_, .tooMany (Nat.not_le.mp few)⟩

/-! ## Readers of whole texts -/

variable {text word : List Char}

theorem ofWord?_eq_some_iff : Keyword.ofWord? word = some keyword ↔ Spells word keyword :=
  Text.find?_word_eq_some_iff fun keyword => by cases keyword <;> rfl

theorem Spells.unique {other : Keyword} (spells : Spells word keyword)
    (others : Spells word other) : keyword = other := by
  rw [← ofWord?_eq_some_iff] at spells others
  exact Option.some.inj (spells.symm.trans others)

theorem hasParts_iff {pieces : List (List Char)} : HasParts text pieces ↔ parts text = pieces := by
  constructor
  · rintro ⟨core, trims, divides⟩
    rw [parts, Text.trim_eq_of_trims trims]
    exact Text.divides_iff.mp divides
  · exact fun split => ⟨_, Text.trims_trim text, Text.divides_iff.mpr split⟩

/-- Parts without blanks and colons are the ones of the text that they are joined to. -/
theorem hasParts_intercalate {pieces : List (List Char)} (nonempty : pieces ≠ [])
    (plain : ∀ piece ∈ pieces, ∀ c ∈ piece, Text.isBlank c = false ∧ c ≠ ':') :
    HasParts ([':'].intercalate pieces) pieces := by
  have solid : ∀ c ∈ [':'].intercalate pieces, Text.isBlank c = false := by
    intro c member
    rcases Text.eq_or_mem_of_mem_intercalate member with rfl | ⟨piece, listed, inPiece⟩
    · decide
    · exact (plain piece listed c inPiece).1
  refine ⟨_, Text.trim_eq_iff.mp (Text.trim_eq_self solid), ?_⟩
  apply Text.divides_intercalate nonempty
  · exact fun piece listed c inPiece => (plain piece listed c inPiece).1
  · exact fun piece listed colon => (plain piece listed ':' colon).2 rfl

theorem exists_hasParts (text : List Char) :
    ∃ word arguments, HasParts text (word :: arguments) := by
  have nonempty : parts text ≠ [] := by
    rw [parts, ne_eq, List.map_eq_nil_iff]
    exact List.splitOn_ne_nil _ _
  obtain ⟨word, arguments, split⟩ := List.exists_cons_of_ne_nil nonempty
  exact ⟨word, arguments, hasParts_iff.mpr split⟩

/-- A text of blanks has one part, which spells no keyword. -/
theorem trim_ne_nil_of_spells (parts : HasParts text (word :: arguments))
    (spells : Spells word keyword) : Text.trim text ≠ [] := by
  intro empty
  have split := hasParts_iff.mp parts
  rw [Pattern.parts, empty, List.splitOn_nil, List.map_singleton, List.cons.injEq] at split
  rw [← split.1] at spells
  have unspelled : ¬ Spells (Text.trim []) keyword := by cases keyword <;> decide
  exact unspelled spells

/-- A text whose first part spells a keyword is read by its other parts. -/
theorem read_eq_readArguments (parts : HasParts text (word :: arguments))
    (spells : Spells word keyword) : read text = readArguments keyword arguments := by
  simp only [read, if_neg (trim_ne_nil_of_spells parts spells), hasParts_iff.mp parts,
    ofWord?_eq_some_iff.mpr spells]

/-- A text whose first part spells a keyword denotes what its other parts denote. -/
theorem denotes_iff (parts : HasParts text (word :: arguments)) (spells : Spells word keyword) :
    Denotes text rule ↔ ArgumentsDenote keyword arguments rule := by
  constructor
  · rintro ⟨otherParts, otherSpells, denote⟩
    -- A text has one division into parts, and a word spells one keyword.
    obtain ⟨rfl, rfl⟩ :=
      List.cons.inj ((hasParts_iff.mp otherParts).symm.trans (hasParts_iff.mp parts))
    obtain rfl := otherSpells.unique spells
    exact denote
  · exact .intro parts spells

theorem read_eq_pure (denotes : Denotes text rule) : read text = pure rule := by
  obtain ⟨parts, spells, denote⟩ := denotes
  rw [read_eq_readArguments parts spells, readArguments_eq_pure denote]

theorem fault?_read (fails : Fails text fault) : (read text).fault? = some fault := by
  cases fails with
  | empty blank =>
    rw [read, if_pos (Text.trim_eq_of_trims blank)]
    rfl
  | keyword parts nonempty unknown =>
    have unspelled : Keyword.ofWord? _ = none :=
      Option.eq_none_iff_forall_ne_some.mpr fun keyword found =>
        unknown keyword (ofWord?_eq_some_iff.mp found)
    rw [← Text.trim_eq_iff] at nonempty
    simp only [read, if_neg nonempty, hasParts_iff.mp parts, unspelled, Reading.fault?_standIn]
  | arguments parts spells fail =>
    rw [read_eq_readArguments parts spells, fault?_readArguments fail]

theorem denotes_or_fails (text : List Char) :
    (∃ rule, Denotes text rule) ∨ ∃ fault, Fails text fault := by
  obtain ⟨word, arguments, parts⟩ := exists_hasParts text
  by_cases blank : Trims text []
  · exact .inr ⟨_, .empty blank⟩
  · by_cases known : ∃ keyword, Spells word keyword
    · obtain ⟨keyword, spells⟩ := known
      rcases arguments_denote_or_fail keyword arguments with ⟨rule, denote⟩ | ⟨fault, fail⟩
      · exact .inl ⟨rule, parts, spells, denote⟩
      · exact .inr ⟨fault, .arguments parts spells fail⟩
    · exact .inr ⟨_, .keyword parts blank (not_exists.mp known)⟩

theorem read_eq_pure_iff : read text = pure rule ↔ Denotes text rule := by
  constructor
  · intro read
    -- Whatever the text does instead, its reading would say so.
    rcases denotes_or_fails text with ⟨other, denotes⟩ | ⟨fault, fails⟩
    · have same : rule = other := congrArg Reading.value (read.symm.trans (read_eq_pure denotes))
      exact same ▸ denotes
    · have faulty := fault?_read fails
      rw [read] at faulty
      contradiction
  · exact read_eq_pure

theorem fault?_read_eq_some_iff : (read text).fault? = some fault ↔ Fails text fault := by
  constructor
  · intro faulty
    rcases denotes_or_fails text with ⟨rule, denotes⟩ | ⟨other, fails⟩
    · rw [read_eq_pure denotes] at faulty
      contradiction
    · have same : fault = other := Option.some.inj (faulty.symm.trans (fault?_read fails))
      exact same ▸ fails
  · exact fault?_read

end Pattern

namespace Rule

/-- The strict reader accepts the patterns and no other text, each for the rule that it denotes.  It
refuses any other text with its first fault, whose reason reads as it is written out, and with the
text as it was given. -/
theorem parseStrict_exact (text : String) :
    (∀ rule, parseStrict text = .ok rule ↔ Pattern.Denotes text.toList rule) ∧
      ∀ error, parseStrict text = .error error ↔
        error.input = text ∧ Pattern.Fails text.toList error.fault ∧
          error.fault.Reads error.fault.reason := by
  constructor
  · intro rule
    rw [parseStrict, parseWith, Reading.settle_strict_eq_ok_iff, Pattern.read_eq_pure_iff]
  · intro error
    rw [parseStrict, parseWith, Reading.settle_strict_eq_error_iff,
      Pattern.fault?_read_eq_some_iff, and_iff_left (Fault.reads_iff.mpr rfl)]

example : parseStrict " weekly:+02:7,,1 " =
    .error { fault := .invalidField .weekday "", input := " weekly:+02:7,,1 " } := by
  rfl

end Rule

end Cadence
