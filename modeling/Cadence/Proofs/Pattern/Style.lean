import Cadence.Proofs.Pattern.Agreement
import Cadence.Proofs.Pattern.Recovery
import Mathlib.Logic.Relation

/-!
# Styles of a pattern

A text is brought into another style by changes that do not count: blanks put in at its ends and
around its separators, and letters of its keyword in the other case.  `Restyles` is one such change,
at one place, whatever the text is; any number of them come one after the other.

Blanks at the ends and around a colon are trimmed off the parts of the text, so it keeps its parts.
The other changes each reach one part: the keyword, the day list of a weekly pattern, or the date of
a yearly one.  A faulty month is quoted with its blanks, so a reading does not stay the same in
every style; what stays is its value, and whether it has a fault (`Reading.Agrees`).
-/

namespace Cadence

namespace Reading

variable {α β : Type} {first second : Reading α}

/-- The readings have one value, and both of them have a fault or neither does. -/
structure Agrees (first second : Reading α) : Prop where
  value : first.value = second.value
  faultless : first.fault? = none ↔ second.fault? = none

theorem Agrees.refl (reading : Reading α) : reading.Agrees reading := ⟨rfl, Iff.rfl⟩

theorem Agrees.trans {third : Reading α} (agree : first.Agrees second)
    (others : second.Agrees third) : first.Agrees third :=
  ⟨agree.value.trans others.value, agree.faultless.trans others.faultless⟩

theorem Agrees.bind {next other : α → Reading β} (agree : first.Agrees second)
    (rest : ∀ a, (next a).Agrees (other a)) : (first >>= next).Agrees (second >>= other) := by
  constructor
  · rw [value_bind, value_bind, agree.value]
    exact (rest second.value).value
  · rw [fault?_bind, fault?_bind, Option.or_eq_none_iff, Option.or_eq_none_iff, agree.value,
      agree.faultless, (rest second.value).faultless]

theorem Agrees.eq_pure_iff (agree : first.Agrees second) {a : α} :
    first = pure a ↔ second = pure a := by
  have pureIff : ∀ reading : Reading α,
      reading = pure a ↔ reading.value = a ∧ reading.fault? = none := by
    rintro ⟨value, fault⟩
    exact mk.injEq .. ▸ Iff.rfl
  rw [pureIff, pureIff, agree.value, agree.faultless]

end Reading

namespace Pattern

open Text (isBlank Spaced)

variable {text styled : List Char}

/-! ## Changes of style -/

/-- The text is brought into another style at one place. -/
inductive Restyles : List Char → List Char → Prop where
  | atStart {text blanks : List Char} (blank : ∀ c ∈ blanks, isBlank c = true) :
      Restyles text (blanks ++ text)
  | atEnd {text blanks : List Char} (blank : ∀ c ∈ blanks, isBlank c = true) :
      Restyles text (text ++ blanks)
  | atColon {left right styled : List Char} (spaced : Spaced ':' left right styled) :
      Restyles (left ++ ':' :: right) styled
  -- The second argument is the day list; behind its comma the text may go on after the list.
  | atComma {word interval before rest styled : List Char}
      (spells : Spells (Text.trim word) .weekly)
      (noColon : ∀ part ∈ [word, interval, before], ':' ∉ part)
      (spaced : Spaced ',' before rest styled) :
      Restyles (word ++ ':' :: interval ++ ':' :: (before ++ ',' :: rest))
        (word ++ ':' :: interval ++ ':' :: styled)
  | atHyphen {word month rest styled : List Char} (spells : Spells (Text.trim word) .yearly)
      (noColon : ∀ part ∈ [word, month], ':' ∉ part) (noHyphen : '-' ∉ month)
      (spaced : Spaced '-' month rest styled) :
      Restyles (word ++ ':' :: (month ++ '-' :: rest)) (word ++ ':' :: styled)
  -- The keyword ends at the first colon, or with the text.
  | letters {word other rest : List Char} (noColon : ':' ∉ word) (ends : ∀ c ∈ rest.head?, c = ':')
      (same : Text.toLower word = Text.toLower other) : Restyles (word ++ rest) (other ++ rest)

/-! ## Letters of the keyword -/

theorem toUpper_congr {word other : List Char} (same : Text.toLower word = Text.toLower other) :
    Text.toUpper word = Text.toUpper other := by
  rw [← Text.toUpper_toLower word, same, Text.toUpper_toLower]

theorem ofWord?_congr {word other : List Char} (same : Text.toLower word = Text.toLower other) :
    Keyword.ofWord? (Text.trim word) = Keyword.ofWord? (Text.trim other) := by
  have trimmed : Text.toLower (Text.trim word) = Text.toLower (Text.trim other) := by
    rw [Text.toLower_trim, same, Text.toLower_trim]
  rw [Keyword.ofWord?, Keyword.ofWord?, toUpper_congr trimmed]

/-! ## Lists and dates -/

theorem trim_ne_nil {separator : Char} {before after : List Char}
    (solid : isBlank separator = false) : Text.trim (before ++ separator :: after) ≠ [] := by
  simp [Text.trim_append_cons solid]

/-- Blanks around a comma are trimmed off the items of the list. -/
theorem readDayList_spaced {before after : List Char} (spaced : Spaced ',' before after styled) :
    readDayList (some (Text.trim (before ++ ',' :: after))) =
      readDayList (some (Text.trim styled)) := by
  have same := spaced.map_trim_splitOn (by decide)
  have nonempty : Text.trim styled ≠ [] := by
    obtain ⟨_, _⟩ := spaced
    exact trim_ne_nil (by decide)
  rw [readDayList_of_ne_nil nonempty, readDayList_of_ne_nil (trim_ne_nil (by decide)),
    ← (Text.padded_trim _).map_trim_splitOn (by decide),
    ← (Text.padded_trim styled).map_trim_splitOn (by decide), same]

theorem agrees_readField {α : Type} {field : PatternField} {text other : List Char}
    {found : Option α} {default : α} :
    (readField field text found default).Agrees (readField field other found default) := by
  cases found with
  | none => exact ⟨rfl, by simp [readField, Reading.orStandIn]⟩
  | some a => exact .refl _

/-- Dates with the same month and day, blanks apart, are read alike. -/
theorem agrees_readYearly {date other before after first second : List Char}
    (cut : IsCut date before after) (otherCut : IsCut other first second)
    (sameMonth : Text.trim first = Text.trim before) (sameDay : Text.trim second = Text.trim after)
    (more : List (List Char)) :
    (readYearly (date :: more)).Agrees (readYearly (other :: more)) := by
  simp only [readYearly, cut.eq_cut, otherCut.eq_cut, sameMonth, sameDay]
  exact (Reading.Agrees.refl _).bind fun _ => agrees_readField.bind fun _ => .refl _

theorem agrees_readYearly_trim {date other before after first second : List Char}
    (cut : IsCut date before after) (otherCut : IsCut other first second)
    (sameMonth : Text.trim first = Text.trim before) (sameDay : Text.trim second = Text.trim after)
    (more : List (List Char)) :
    (readYearly (Text.trim date :: more)).Agrees (readYearly (Text.trim other :: more)) := by
  obtain ⟨_, _, trimmed, month, day⟩ := cut.trim
  obtain ⟨_, _, otherTrimmed, otherMonth, otherDay⟩ := otherCut.trim
  apply agrees_readYearly trimmed otherTrimmed
  · rw [month, otherMonth, sameMonth]
  · rw [day, otherDay, sameDay]

/-! ## Parts of a text -/

/-- A text whose first part spells no keyword is faulty, and fires every day. -/
theorem read_of_unspelled {word : List Char} {arguments : List (List Char)}
    (split : parts text = word :: arguments) (unspelled : Keyword.ofWord? word = none) :
    (read text).value = .everyDay ∧ (read text).fault? ≠ none := by
  simp only [read, split, unspelled]
  split <;> exact ⟨rfl, Option.some_ne_none _⟩

/-- Texts with the same keyword are read alike if their arguments are. -/
theorem agrees_read_of_parts {word other : List Char} {arguments others : List (List Char)}
    (split : parts text = word :: arguments) (otherSplit : parts styled = other :: others)
    (sameWord : Keyword.ofWord? word = Keyword.ofWord? other)
    (agree : ∀ keyword, Spells word keyword →
      (readArguments keyword arguments).Agrees (readArguments keyword others)) :
    (read text).Agrees (read styled) := by
  cases found : Keyword.ofWord? word with
  | none =>
    obtain ⟨value, faulty⟩ := read_of_unspelled split found
    obtain ⟨otherValue, otherFaulty⟩ := read_of_unspelled otherSplit (sameWord ▸ found)
    exact ⟨value.trans otherValue.symm, iff_of_false faulty otherFaulty⟩
  | some keyword =>
    have spells := ofWord?_eq_some_iff.mp found
    rw [read_eq_readArguments (hasParts_iff.mpr split) spells,
      read_eq_readArguments (hasParts_iff.mpr otherSplit)
        (ofWord?_eq_some_iff.mp (sameWord ▸ found))]
    exact agree keyword spells

theorem agrees_read_of_parts_eq (same : parts text = parts styled) :
    (read text).Agrees (read styled) := by
  obtain ⟨word, arguments, split⟩ := exists_hasParts text
  rw [hasParts_iff] at split
  exact agrees_read_of_parts split (same ▸ split) rfl fun _ _ => .refl _

theorem parts_of_not_mem {word : List Char} (noColon : ':' ∉ word) :
    parts word = [Text.trim word] := by
  rw [parts_eq_map_trim, Text.splitOn_of_not_mem noColon, List.map_singleton]

theorem parts_append_cons {word : List Char} (noColon : ':' ∉ word) (rest : List Char) :
    parts (word ++ ':' :: rest) = Text.trim word :: parts rest := by
  rw [parts_eq_map_trim, parts_eq_map_trim, Text.splitOn_append_cons noColon, List.map_cons]

/-- Blanks around a separator of the first part reach no other part. -/
theorem parts_spaced {separator : Char} {before rest : List Char} (solid : separator ≠ ':')
    (noColon : ':' ∉ before) (spaced : Spaced separator before rest styled) :
    ∃ first part more, Spaced separator before first part ∧
      parts (before ++ separator :: rest) = Text.trim (before ++ separator :: first) :: more ∧
      parts styled = Text.trim part :: more := by
  cases spaced with | @intro spaceBefore spaceAfter blankBefore blankAfter
  obtain ⟨first, more, split⟩ := List.exists_cons_of_ne_nil (List.splitOn_ne_nil ':' rest)
  have noColonBefore := Text.not_mem_of_blank (by decide : isBlank ':' = false) blankBefore
  have noColonAfter := Text.not_mem_of_blank (by decide : isBlank ':' = false) blankAfter
  have plain : ':' ∉ before ++ [separator] := by simp [noColon, solid.symm]
  have spacedPlain : ':' ∉ before ++ spaceBefore ++ separator :: spaceAfter := by
    simp [noColon, noColonBefore, noColonAfter, solid.symm]
  refine ⟨first, _, more.map Text.trim, ⟨blankBefore, blankAfter⟩, ?_, ?_⟩
  · have whole := Text.splitOn_append_of_not_mem plain split
    simp only [List.append_assoc, List.singleton_append] at whole
    rw [parts_eq_map_trim, whole, List.map_cons]
  · have whole := Text.splitOn_append_of_not_mem spacedPlain split
    simp only [List.append_assoc, List.cons_append] at whole ⊢
    rw [parts_eq_map_trim, whole, List.map_cons]

/-! ## Readings in every style -/

/-- One change of style. -/
theorem agrees_read_of_restyles (restyles : Restyles text styled) :
    (read text).Agrees (read styled) := by
  cases restyles with
  | atStart blank =>
    apply agrees_read_of_parts_eq
    rw [parts_eq_map_trim, parts_eq_map_trim,
      (Text.padded_append_left blank).map_trim_splitOn (by decide)]
  | atEnd blank =>
    apply agrees_read_of_parts_eq
    rw [parts_eq_map_trim, parts_eq_map_trim,
      (Text.padded_append_right blank).map_trim_splitOn (by decide)]
  | atColon spaced =>
    apply agrees_read_of_parts_eq
    rw [parts_eq_map_trim, parts_eq_map_trim, spaced.map_trim_splitOn (by decide)]
  | @atComma word interval before rest styled spells noColon spaced =>
    simp only [List.forall_mem_cons] at noColon
    obtain ⟨first, list, more, spacedList, split, styledSplit⟩ :=
      parts_spaced (by decide) noColon.2.2.1 spaced
    rw [List.append_assoc, List.append_assoc, List.cons_append, List.cons_append]
    apply agrees_read_of_parts (parts_append_cons noColon.1 _) (parts_append_cons noColon.1 _) rfl
    intro keyword others
    obtain rfl := others.unique spells
    rw [parts_append_cons noColon.2.1, parts_append_cons noColon.2.1, split, styledSplit]
    simp only [readArguments, readWeekly, List.getElem?_cons_succ, List.getElem?_cons_zero,
      readDayList_spaced spacedList]
    exact .refl _
  | @atHyphen word month rest styled spells noColon noHyphen spaced =>
    simp only [List.forall_mem_cons] at noColon
    obtain ⟨first, date, more, spacedDate, split, styledSplit⟩ :=
      parts_spaced (by decide) noColon.2.1 spaced
    apply agrees_read_of_parts (parts_append_cons noColon.1 _) (parts_append_cons noColon.1 _) rfl
    intro keyword others
    obtain rfl := others.unique spells
    rw [split, styledSplit]
    cases spacedDate with | @intro spaceBefore spaceAfter blankBefore blankAfter
    have noHyphenBefore := Text.not_mem_of_blank (by decide : isBlank '-' = false) blankBefore
    have spacedClean : '-' ∉ month ++ spaceBefore := by simp [noHyphen, noHyphenBefore]
    exact agrees_readYearly_trim ⟨noHyphen, .inl rfl⟩ ⟨spacedClean, .inl rfl⟩
      (Text.trim_append_right blankBefore) (Text.trim_append_left blankAfter) more
  | @letters word other rest noColon ends same =>
    have noColonOther : ':' ∉ other := by
      rwa [← Text.mem_toLower_iff (by decide), ← same, Text.mem_toLower_iff (by decide)]
    cases rest with
    | nil =>
      rw [List.append_nil, List.append_nil]
      exact agrees_read_of_parts (parts_of_not_mem noColon) (parts_of_not_mem noColonOther)
        (ofWord?_congr same) fun _ _ => .refl _
    | cons c rest =>
      obtain rfl := ends c rfl
      exact agrees_read_of_parts (parts_append_cons noColon rest)
        (parts_append_cons noColonOther rest) (ofWord?_congr same) fun _ _ => .refl _

/-- Any number of changes, by induction on them. -/
theorem agrees_read_of_styles (styles : Relation.ReflTransGen Restyles text styled) :
    (read text).Agrees (read styled) := by
  induction styles with
  | refl => exact .refl _
  | tail _ step ih => exact ih.trans (agrees_read_of_restyles step)

end Pattern

namespace Rule

/-- Blanks around the parts of a text and the case of its keyword never change its meaning.  In
every style the lenient reader takes it as the same rule, and the strict reader accepts it, for the
same rule, or refuses it. -/
theorem styles_read_alike {text styled : String}
    (styles : Relation.ReflTransGen Pattern.Restyles text.toList styled.toList) :
    parse styled = parse text ∧
      ∀ rule, parseStrict styled = .ok rule ↔ parseStrict text = .ok rule := by
  have agree := Pattern.agrees_read_of_styles styles
  refine ⟨agree.value.symm, ?_⟩
  intro rule
  rw [parseStrict_eq_ok_iff, parseStrict_eq_ok_iff, agree.eq_pure_iff]

/-- A weekly pattern with other letters, a tab, an ideographic space and two plain ones. -/
theorem parse_styled_weekly :
    parse "WeekLy\t:+2:7 ,\u30001 " = weekly { value := 2 } (.ofNumbers [1, 7]) ∧
      parseStrict "WeekLy\t:+2:7 ,\u30001 " =
        .ok (weekly { value := 2 } (.ofNumbers [1, 7])) := by
  have plain : parseStrict "weekly:+2:7,1" = .ok (weekly { value := 2 } (.ofNumbers [1, 7])) := by
    rfl
  have blank : Text.isBlank '\t' = true ∧ Text.isBlank '\u3000' = true ∧
      Text.isBlank ' ' = true := by decide
  have letters : Pattern.Restyles "weekly:+2:7,1".toList "WeekLy:+2:7,1".toList :=
    @Pattern.Restyles.letters "weekly".toList "WeekLy".toList ":+2:7,1".toList (by decide) (by simp)
      (by decide)
  have comma : Pattern.Restyles "WeekLy:+2:7,1".toList "WeekLy:+2:7 ,\u30001".toList :=
    @Pattern.Restyles.atComma "WeekLy".toList "+2".toList "7".toList "1".toList _ (by decide)
      (by simp) (@Text.Spaced.intro _ _ _ [' '] ['\u3000'] (by simpa using blank.2.2)
        (by simpa using blank.2.1))
  have colon : Pattern.Restyles "WeekLy:+2:7 ,\u30001".toList "WeekLy\t:+2:7 ,\u30001".toList :=
    @Pattern.Restyles.atColon "WeekLy".toList "+2:7 ,\u30001".toList _
      (@Text.Spaced.intro _ _ _ ['\t'] [] (by simpa using blank.1) nofun)
  have behind : Pattern.Restyles "WeekLy\t:+2:7 ,\u30001".toList
      "WeekLy\t:+2:7 ,\u30001 ".toList :=
    @Pattern.Restyles.atEnd "WeekLy\t:+2:7 ,\u30001".toList [' '] (by simpa using blank.2.2)
  have styled := styles_read_alike ((((Relation.ReflTransGen.single letters).tail comma).tail
    colon).tail behind)
  exact ⟨styled.1.trans (parse_of_parseStrict plain), (styled.2 _).mpr plain⟩

end Rule

end Cadence
