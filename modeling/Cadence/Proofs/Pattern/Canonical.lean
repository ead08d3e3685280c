import Cadence.Row
import Cadence.Proofs.Pattern.Grammar

/-!
# Canonical patterns

The canonical pattern of a rule, read back.  The parts of the pattern are the keyword and the
arguments that it was joined from, since none of these has a colon or a blank (`hasParts_pattern`),
and each argument is a numeral or a list of numerals for the field that it was written from.

A rule is *legible* if its pattern gives it back.  The lenient reader checks a day of the month
against the longest month only, so a rule for February 30 is legible though it never fires; a rule
without weekdays, or with a day that no month has, comes back with the default in that field.
-/

namespace Cadence

open Text (IsNumeral Divides isBlank)

namespace Rule

/-! ## Characters of a pattern -/

/-- The characters that arguments are made of. -/
def IsArgumentChar (c : Char) : Prop := c.isDigit = true ∨ c = ',' ∨ c = '-'

theorem isArgumentChar_of_mem_toString {n : Nat} {c : Char} (member : c ∈ (toString n).toList) :
    IsArgumentChar c :=
  .inl (Text.isDigit_of_mem_toString member)

theorem IsArgumentChar.not_blank {c : Char} (argument : IsArgumentChar c) : isBlank c = false := by
  rcases argument with digit | rfl | rfl
  · exact Text.isBlank_of_isDigit digit
  · decide
  · decide

theorem IsArgumentChar.ne_colon {c : Char} (argument : IsArgumentChar c) : c ≠ ':' := by
  rintro rfl
  rcases argument with digit | same | same
  · exact absurd digit (by decide)
  · exact absurd same (by decide)
  · exact absurd same (by decide)

theorem toList_dayList (days : WeekdaySet) :
    (String.intercalate "," (days.numbers.map toString)).toList =
      [','].intercalate (days.toList.map fun day => (toString day.number).toList) := by
  simp [WeekdaySet.numbers, String.toList_intercalate, Function.comp_def]

theorem isArgumentChar_of_mem_patternArguments {rule : Rule} {argument : String}
    (member : argument ∈ rule.patternArguments) : ∀ c ∈ argument.toList, IsArgumentChar c := by
  have number := @isArgumentChar_of_mem_toString
  cases rule with
  | daily interval =>
    simp only [patternArguments] at member
    split at member
    · contradiction
    · rw [List.mem_singleton.mp member]
      exact fun c => number
  | weekdays => contradiction
  | weekly interval days =>
    simp only [patternArguments, List.mem_cons, List.not_mem_nil, or_false] at member
    rcases member with rfl | rfl
    · exact fun c => number
    · intro c inList
      rw [toList_dayList] at inList
      -- A character of the list is a comma or belongs to one of the numbers.
      rcases Text.eq_or_mem_of_mem_intercalate inList with rfl | ⟨item, listed, inItem⟩
      · exact .inr (.inl rfl)
      · obtain ⟨day, _, rfl⟩ := List.mem_map.mp listed
        exact number inItem
  | dayOfMonth day =>
    rw [List.mem_singleton.mp member]
    exact fun c => number
  | weekdayOfMonth ordinal weekday =>
    simp only [patternArguments, List.mem_cons, List.not_mem_nil, or_false] at member
    rcases member with rfl | rfl <;> exact fun c => number
  | anniversary month day =>
    rw [List.mem_singleton.mp member]
    intro c inDate
    simp only [String.toList_append, List.mem_append] at inDate
    rcases inDate with (inMonth | hyphen) | inDay
    · exact number inMonth
    · exact .inr (.inr (by simpa using hyphen))
    · exact number inDay

/-! ## The parts of a pattern -/

theorem toList_pattern (rule : Rule) :
    rule.pattern.toList =
      [':'].intercalate (rule.keyword.text.toList :: rule.patternArguments.map String.toList) := by
  simp [pattern, String.toList_intercalate]

theorem keyword_text_plain (keyword : Keyword) :
    ∀ c ∈ keyword.text.toList, isBlank c = false ∧ c ≠ ':' := by
  have plain : (keyword.text.toList.all fun c => !isBlank c && c != ':') = true := by
    cases keyword <;> decide
  simpa using List.all_eq_true.mp plain

theorem pattern_parts_plain {rule : Rule} {part : List Char}
    (member : part ∈ rule.keyword.text.toList :: rule.patternArguments.map String.toList) :
    ∀ c ∈ part, isBlank c = false ∧ c ≠ ':' := by
  rcases List.mem_cons.mp member with rfl | member
  · exact keyword_text_plain rule.keyword
  · obtain ⟨argument, listed, rfl⟩ := List.mem_map.mp member
    intro c inArgument
    have argumentChar := isArgumentChar_of_mem_patternArguments listed c inArgument
    exact ⟨argumentChar.not_blank, argumentChar.ne_colon⟩

end Rule

namespace Pattern

theorem spells_text (keyword : Keyword) : Spells keyword.text.toList keyword := by
  cases keyword <;> decide

theorem hasParts_pattern (rule : Rule) :
    HasParts rule.pattern.toList
      (rule.keyword.text.toList :: rule.patternArguments.map String.toList) := by
  rw [Rule.toList_pattern]
  exact hasParts_intercalate (List.cons_ne_nil _ _) fun _ => Rule.pattern_parts_plain

theorem read_pattern (rule : Rule) :
    read rule.pattern.toList =
      readArguments rule.keyword (rule.patternArguments.map String.toList) :=
  read_eq_readArguments (hasParts_pattern rule) (spells_text rule.keyword)

/-! ## The arguments of a pattern -/

theorem isDayOfMonth_toString {n day : Nat} :
    IsDayOfMonth (toString n).toList day ↔ day = n ∧ 1 ≤ n ∧ n ≤ Rule.longestMonth := by
  constructor
  · rintro ⟨numeral, bounds⟩
    have same := numeral.unique (Text.isNumeral_toString n)
    exact ⟨same, same ▸ bounds⟩
  · rintro ⟨rfl, bounds⟩
    exact ⟨Text.isNumeral_toString day, bounds⟩

/-- The numbers of weekdays with commas between list the set of these weekdays, in any order. -/
theorem isDayList_numbers {days : WeekdaySet} {listed : List Weekday} (nonempty : listed ≠ [])
    (members : ∀ day, day ∈ days ↔ day ∈ listed) :
    IsDayList ([','].intercalate (listed.map fun day => (toString day.number).toList)) days := by
  refine ⟨_, Text.divides_intercalate ?_ ?_ ?_, ?_, ?_⟩
  · rwa [ne_eq, List.map_eq_nil_iff]
  · intro part member c inPart
    obtain ⟨day, _, rfl⟩ := List.mem_map.mp member
    exact Text.isBlank_of_isDigit (Text.isDigit_of_mem_toString inPart)
  · intro part member comma
    obtain ⟨day, _, rfl⟩ := List.mem_map.mp member
    exact Text.not_mem_toString (by decide) day.number comma
  · intro item member
    obtain ⟨day, _, rfl⟩ := List.mem_map.mp member
    exact ⟨day, Text.isNumeral_toString day.number⟩
  · intro day
    simp only [List.mem_map, exists_exists_and_eq_and, members]
    constructor
    · exact fun member => ⟨day, member, Text.isNumeral_toString day.number⟩
    · rintro ⟨other, member, denotes⟩
      have same := denotes.unique (Text.isNumeral_toString other.number)
      rwa [Weekday.number_injective same]

/-- The day list of a set lists the set. -/
theorem isDayList_toList {days : WeekdaySet} (nonempty : days ≠ ∅) :
    IsDayList ([','].intercalate (days.toList.map fun day => (toString day.number).toList))
      days :=
  isDayList_numbers (mt WeekdaySet.toList_eq_nil_iff.mp nonempty)
    fun _ => WeekdaySet.mem_toList.symm

theorem readDayList_toList {days : WeekdaySet} :
    (readDayList (some (String.intercalate "," (days.numbers.map toString)).toList)).value =
      days.orSingle .monday := by
  rw [Rule.toList_dayList]
  by_cases empty : days = ∅
  · -- An empty list names no day.
    subst empty
    rfl
  · rw [readDayList_eq_pure (isDayList_toList empty), WeekdaySet.orSingle_of_ne_empty empty]
    rfl

theorem value_readDayOfMonth_toString (day : Nat) :
    (readDayOfMonth (toString day).toList).value =
      if 1 ≤ day ∧ day ≤ Rule.longestMonth then day else 1 := by
  split
  · next bounds =>
    rw [readDayOfMonth_eq_pure (isDayOfMonth_toString.mpr ⟨rfl, bounds⟩)]
    rfl
  · next outside =>
    rw [readDayOfMonth_eq_standIn]
    · rfl
    · exact fun other denotes => outside (isDayOfMonth_toString.mp denotes).2

theorem hyphen_not_mem_toString (n : Nat) : '-' ∉ (toString n).toList :=
  Text.not_mem_toString (by decide) n

theorem toList_monthDay (month day : Nat) :
    (toString month ++ "-" ++ toString day).toList =
      (toString month).toList ++ '-' :: (toString day).toList := by
  simp [String.toList_append, List.append_assoc]

/-- A month and a day as they are written are cut at the hyphen between them. -/
theorem cutFirst_monthDay (month day : Nat) :
    Text.cutFirst '-' (toString month ++ "-" ++ toString day).toList =
      some ((toString month).toList, (toString day).toList) := by
  rw [toList_monthDay, Text.cutFirst_append (hyphen_not_mem_toString month)]

end Pattern

namespace Rule

/-- Whether the rule's pattern gives it back: its weekly set has a day, and its day is one that some
month has. -/
def IsLegible : Rule → Prop
  | weekly _ days => days ≠ ∅
  | dayOfMonth day | anniversary _ day => 1 ≤ day ∧ day ≤ 31
  | daily _ | weekdays | weekdayOfMonth _ _ => True

/-- The rule with the default in the field that can be illegible. -/
def withDefault : Rule → Rule
  | weekly interval _ => weekly interval (.single .monday)
  | dayOfMonth _ => dayOfMonth 1
  | anniversary month _ => anniversary month 1
  | other => other

/-- The rule that its pattern is read as. -/
def restored : Rule → Rule
  | weekly interval days => weekly interval (days.orSingle .monday)
  | dayOfMonth day => dayOfMonth (if 1 ≤ day ∧ day ≤ longestMonth then day else 1)
  | anniversary month day =>
    anniversary month (if 1 ≤ day ∧ day ≤ longestMonth then day else 1)
  | other => other

theorem restored_of_isLegible {rule : Rule} (legible : rule.IsLegible) : rule.restored = rule := by
  cases rule with
  | weekly interval days => rw [restored, WeekdaySet.orSingle_of_ne_empty legible]
  | dayOfMonth day => exact congrArg dayOfMonth (if_pos legible)
  | anniversary month day => exact congrArg (anniversary month) (if_pos legible)
  | daily _ | weekdays | weekdayOfMonth _ _ => rfl

theorem restored_of_not_isLegible {rule : Rule} (illegible : ¬ rule.IsLegible) :
    rule.restored = rule.withDefault := by
  cases rule with
  | weekly interval days =>
    have empty : days = ∅ := Decidable.not_not.mp illegible
    rw [empty]
    rfl
  | dayOfMonth day => exact congrArg dayOfMonth (if_neg illegible)
  | anniversary month day => exact congrArg (anniversary month) (if_neg illegible)
  | daily _ | weekdays | weekdayOfMonth _ _ => exact absurd trivial illegible

theorem isLegible_withDefault (rule : Rule) : rule.withDefault.IsLegible := by
  cases rule with
  | weekly interval days =>
    show WeekdaySet.single .monday ≠ ∅
    decide
  | dayOfMonth day | anniversary month day => exact ⟨by decide, by decide⟩
  | daily _ | weekdays | weekdayOfMonth _ _ => trivial

theorem restored_eq_self_iff {rule : Rule} : rule.restored = rule ↔ rule.IsLegible := by
  constructor
  · intro same
    -- The rule that comes back is legible, so an illegible rule is another one.
    by_contra illegible
    rw [restored_of_not_isLegible illegible] at same
    exact illegible (same ▸ rule.isLegible_withDefault)
  · exact restored_of_isLegible

open Pattern in
theorem parse_pattern (rule : Rule) : parse rule.pattern = rule.restored := by
  rw [parse, read_pattern]
  cases rule with
  | daily interval =>
    -- An interval of one is not written, and read as the default.
    by_cases one : interval = .one
    · simp [keyword, patternArguments, one, readArguments, readDaily, checkArguments, readInterval,
        restored]
    · have read := readInterval_eq_pure (Text.isNumeral_toString interval.value)
      simp only [keyword, patternArguments, if_neg one, readArguments, readDaily, List.map_cons,
        List.map_nil, List.getElem?_cons_zero, Reading.value_bind, Reading.value_pure, read,
        restored]
  | weekdays => rfl
  | weekly interval days =>
    have read := readInterval_eq_pure (Text.isNumeral_toString interval.value)
    simp only [keyword, patternArguments, readArguments, readWeekly, List.map_cons, List.map_nil,
      List.getElem?_cons_zero, List.getElem?_cons_succ, Reading.value_bind, Reading.value_pure,
      read, readDayList_toList, restored]
  | dayOfMonth day =>
    simp only [keyword, patternArguments, readArguments, readMonthly, List.map_cons, List.map_nil,
      Reading.value_bind, Reading.value_pure, value_readDayOfMonth_toString, restored]
  | weekdayOfMonth ordinal weekday =>
    have first := readOrdinal_eq_pure (Text.isNumeral_toString ordinal.number)
    have second := readWeekday_eq_pure (Text.isNumeral_toString weekday.number)
    simp only [keyword, patternArguments, readArguments, readMonthly, List.map_cons, List.map_nil,
      Reading.value_bind, Reading.value_pure, first, second, restored]
  | anniversary month day =>
    have read := @readMonth_eq_pure (toString month.number).toList _ _
      (Text.isNumeral_toString month.number)
    simp only [keyword, patternArguments, readArguments, readYearly, List.map_cons, List.map_nil,
      cutFirst_monthDay, Option.getD_some, Text.trim_toString, Reading.value_bind,
      Reading.value_pure, read, value_readDayOfMonth_toString, restored]

/-- A rule comes back from its canonical pattern, and from its stored form, exactly if it is
legible; if it is not, it comes back with the default in the field that is at fault. -/
theorem pattern_round_trip (rule : Rule) :
    (parse rule.pattern = rule ↔ rule.IsLegible) ∧
      (ofDatum? rule.value.datum = some rule ↔ rule.IsLegible) ∧
      (¬ rule.IsLegible → parse rule.pattern = rule.withDefault) := by
  have stored : ofDatum? rule.value.datum = some (parse rule.pattern) := rfl
  rw [stored, Option.some.injEq, parse_pattern]
  exact ⟨restored_eq_self_iff, restored_eq_self_iff, restored_of_not_isLegible⟩

end Rule

end Cadence
