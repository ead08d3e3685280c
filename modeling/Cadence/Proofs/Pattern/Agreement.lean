import Cadence.Proofs.Pattern.Canonical

/-!
# Strict reading, lenient reading and the checked constructors

Three places judge the fields of a rule: the constructors that check their arguments, the strict
reader, and the lenient reader with its defaults.  A text that the strict reader accepts is read
the same by the lenient one, and as a rule that its constructor builds (`isSound_of_denotes`).  The
other way round, the canonical pattern of a sound rule denotes it (`denotes_pattern`) and that of
any other rule fails (`fails_pattern`), so the strict reader accepts the canonical patterns of the
sound rules and of no other.

The lenient reader is wider: it keeps February 30, which no constructor builds.
-/

namespace Cadence

open Text (IsNumeral Divides Trims)

namespace Rule

variable {rule : Rule}

/-- What the checked constructor of the rule's form builds from the rule's fields. -/
def checked? : Rule → Option Rule
  | weekly interval days => some (weeklyOn interval days)
  | dayOfMonth day => onDayOfMonth? day
  | anniversary month day => onAnniversary? month day
  | other => some other

theorem checked?_eq_self_iff : rule.checked? = some rule ↔ rule.IsSound := by
  cases rule with
  | weekly interval days => simp [checked?, weeklyOn, IsSound, WeekdaySet.orSingle_eq_self_iff]
  | dayOfMonth day => exact onDayOfMonth?_eq_some_iff.trans (and_iff_left rfl)
  | anniversary month day => exact onAnniversary?_eq_some_iff.trans (and_iff_left rfl)
  | daily _ | weekdays | weekdayOfMonth _ _ => simp [checked?, IsSound]

end Rule

namespace Pattern

variable {text : List Char} {keyword : Keyword} {arguments : List (List Char)} {rule : Rule}

/-! ## From texts to rules -/

theorem isSound_of_argumentsDenote (denote : ArgumentsDenote keyword arguments rule) :
    rule.IsSound := by
  cases denote with
  | everyDay | daily _ | weekdays | weekdayOfMonth _ _ => trivial
  | weekly _ isList => exact isList.days_ne_empty
  | dayOfMonth isDay => exact isDay.2
  | anniversary _ _ _ _ _ positive inMonth => exact ⟨positive, inMonth⟩

theorem isSound_of_denotes (denotes : Denotes text rule) : rule.IsSound := by
  obtain ⟨_, _, denote⟩ := denotes
  exact isSound_of_argumentsDenote denote

/-! ## From rules to texts -/

theorem argumentsDenote_pattern (sound : rule.IsSound) :
    ArgumentsDenote rule.keyword (rule.patternArguments.map String.toList) rule := by
  cases rule with
  | daily interval =>
    by_cases one : interval = .one
    · subst one
      exact .everyDay
    · simp only [Rule.patternArguments, if_neg one]
      exact .daily (Text.isNumeral_toString interval.value)
  | weekdays => exact .weekdays
  | weekly interval days =>
    have isList := isDayList_toList sound
    rw [← Rule.toList_dayList] at isList
    exact .weekly (Text.isNumeral_toString interval.value) isList
  | dayOfMonth day => exact .dayOfMonth (isDayOfMonth_toString.mpr ⟨rfl, sound⟩)
  | weekdayOfMonth ordinal weekday =>
    exact .weekdayOfMonth (Text.isNumeral_toString ordinal.number)
      (Text.isNumeral_toString weekday.number)
  | anniversary month day =>
    simp only [Rule.patternArguments, List.map_cons, List.map_nil, toList_monthDay]
    exact .anniversary (hyphen_not_mem_toString month.number) (Text.trims_toString month.number)
      (Text.trims_toString day) (Text.isNumeral_toString month.number) (Text.isNumeral_toString day)
      sound.1 sound.2

theorem argumentsFail_pattern (unsound : ¬ rule.IsSound) :
    ∃ fault, ArgumentsFail rule.keyword (rule.patternArguments.map String.toList) fault := by
  cases rule with
  | weekly interval days =>
    -- The day list of the empty set is the empty text.
    have empty : days = ∅ := Decidable.not_not.mp unsound
    subst empty
    exact ⟨_, .emptyDayList (Text.isNumeral_toString interval.value)⟩
  | dayOfMonth day =>
    exact ⟨_, .dayOfMonth fun n denotes => unsound (isDayOfMonth_toString.mp denotes).2⟩
  | anniversary month day =>
    have cut : IsCut (toString month.number ++ "-" ++ toString day).toList
        (toString month.number).toList (toString day).toList :=
      ⟨hyphen_not_mem_toString month.number, .inl (toList_monthDay month.number day)⟩
    have isMonth := Text.isNumeral_toString month.number
    -- The day is out of the range of every month, or only of this one.
    by_cases bounds : 1 ≤ day ∧ day ≤ Rule.longestMonth
    · have beyond : month.longest < day := Nat.not_le.mp fun le => unsound ⟨bounds.1, le⟩
      exact ⟨_, .impossibleDay cut (Text.trims_toString month.number) (Text.trims_toString day)
        isMonth (isDayOfMonth_toString.mpr ⟨rfl, bounds⟩) beyond⟩
    · exact ⟨_, .day cut (Text.trims_toString month.number) (Text.trims_toString day) isMonth
        fun n denotes => bounds (isDayOfMonth_toString.mp denotes).2⟩
  | daily _ | weekdays | weekdayOfMonth _ _ => exact absurd trivial unsound

theorem denotes_pattern (sound : rule.IsSound) : Denotes rule.pattern.toList rule :=
  ⟨hasParts_pattern rule, spells_text rule.keyword, argumentsDenote_pattern sound⟩

theorem fails_pattern (unsound : ¬ rule.IsSound) : ∃ fault, Fails rule.pattern.toList fault := by
  obtain ⟨fault, fail⟩ := argumentsFail_pattern unsound
  exact ⟨fault, .arguments (hasParts_pattern rule) (spells_text rule.keyword) fail⟩

end Pattern

namespace Rule

variable {text : String} {rule : Rule}

theorem parseStrict_eq_ok_iff :
    parseStrict text = .ok rule ↔ Pattern.read text.toList = pure rule :=
  Reading.settle_strict_eq_ok_iff

theorem isSound_of_parseStrict (accepted : parseStrict text = .ok rule) : rule.IsSound := by
  rw [parseStrict_eq_ok_iff, Pattern.read_eq_pure_iff] at accepted
  exact Pattern.isSound_of_denotes accepted

theorem parse_of_parseStrict (accepted : parseStrict text = .ok rule) : parse text = rule := by
  rw [parse, parseStrict_eq_ok_iff.mp accepted]
  rfl

theorem parseStrict_pattern_of_isSound (sound : rule.IsSound) :
    parseStrict rule.pattern = .ok rule := by
  rw [parseStrict_eq_ok_iff]
  exact Pattern.read_eq_pure (Pattern.denotes_pattern sound)

theorem parseStrict_pattern_of_not_isSound (unsound : ¬ rule.IsSound) :
    ∃ error, parseStrict rule.pattern = .error error := by
  obtain ⟨fault, fails⟩ := Pattern.fails_pattern unsound
  refine ⟨⟨fault, rule.pattern⟩, ?_⟩
  exact Reading.settle_strict_eq_error_iff.mpr ⟨rfl, Pattern.fault?_read fails⟩

/-- Strict reading refines lenient reading and agrees with the checked constructors.  What the
strict reader accepts is read as the same rule by the lenient one, and that rule is sound.  The
strict reader takes a sound rule back from its canonical pattern, and refuses the canonical pattern
of every other rule.  The sound rules are those that their checked constructors build. -/
theorem strict_refines_lenient :
    (∀ text rule, parseStrict text = .ok rule → parse text = rule ∧ rule.IsSound) ∧
      (∀ rule : Rule, parseStrict rule.pattern = .ok rule ↔ rule.IsSound) ∧
      (∀ rule : Rule, (∃ error, parseStrict rule.pattern = .error error) ↔ ¬ rule.IsSound) ∧
      ∀ rule : Rule, rule.IsSound ↔ rule.checked? = some rule := by
  refine ⟨?_, ?_, ?_, fun rule => checked?_eq_self_iff.symm⟩
  · intro text rule accepted
    exact ⟨parse_of_parseStrict accepted, isSound_of_parseStrict accepted⟩
  · exact fun rule => ⟨isSound_of_parseStrict, parseStrict_pattern_of_isSound⟩
  · intro rule
    constructor
    · rintro ⟨error, refused⟩ sound
      rw [parseStrict_pattern_of_isSound sound] at refused
      contradiction
    · exact parseStrict_pattern_of_not_isSound

/-- A pattern for February 29 with blanks, a sign and small letters. -/
theorem parseStrict_leapDay :
    parseStrict " yearly: 2 - +29 " = .ok (anniversary .february 29) ∧
      parse " yearly: 2 - +29 " = anniversary .february 29 ∧
      (anniversary .february 29).IsSound := by
  have accepted : parseStrict " yearly: 2 - +29 " = .ok (anniversary .february 29) := by rfl
  exact ⟨accepted, strict_refines_lenient.1 _ _ accepted⟩

end Rule

end Cadence
