import Cadence.Rule.Phrase
import Cadence.Proofs.Calendar.WeekdaySet
import Cadence.Proofs.Text.Numeral

/-!
# Phrases that tell rules apart

The English phrase of a rule, read back.  A phrase is cut at its spaces into the words that it was
joined from, since none of them has a space in it (`Rule.splitOn_phrase`).  `Rule.ofWords?` finds
the rule again in the words: the second word tells the form, or is an interval or a weekday, and the
weekdays are the words that name one once a comma behind them is left out.

So rules with one phrase are equal (`Rule.phrase_eq_iff`), but for weekly rules without any day: all
of these have one phrase, which does not tell the interval.
-/

namespace Cadence

/-! ## Lists of names -/

/-- The words of a list of names. -/
def nameWords : List (List Char) → List (List Char)
  | [] => []
  | [only] => [only]
  | [first, second] => [first, "and".toList, second]
  | names => names.dropLast.map (· ++ [',']) ++ ["and".toList, names.getLastD []]

/-- Lists of names are joined in one way if they are short, and in another if they are not. -/
theorem names_cases {α : Type} {motive : List α → Prop} (names : List α) (none : motive [])
    (one : ∀ only, motive [only]) (two : ∀ first second, motive [first, second])
    (more : ∀ init last, 2 ≤ init.length → motive (init ++ [last])) : motive names := by
  match names with
  | [] => exact none
  | [only] => exact one only
  | [first, second] => exact two first second
  | first :: second :: third :: rest =>
    have nonempty : first :: second :: third :: rest ≠ [] := List.cons_ne_nil _ _
    rw [← List.dropLast_append_getLast nonempty]
    exact more _ _ (by simp)

theorem exists_three {α : Type} {init : List α} (last : α) (several : 2 ≤ init.length) :
    ∃ first second third rest, init ++ [last] = first :: second :: third :: rest := by
  match init, several with
  | [_, _], _ => exact ⟨_, _, _, _, rfl⟩
  | _ :: _ :: _ :: _, _ => exact ⟨_, _, _, _, rfl⟩

theorem joinNames_concat {init : List String} (last : String) (several : 2 ≤ init.length) :
    joinNames (init ++ [last]) = String.intercalate ", " init ++ ", and " ++ last := by
  obtain ⟨first, second, third, rest, split⟩ := exists_three last several
  rw [split, joinNames, ← split, List.dropLast_concat, List.getLastD_concat]
  all_goals simp

theorem nameWords_concat {init : List (List Char)} (last : List Char) (several : 2 ≤ init.length) :
    nameWords (init ++ [last]) = init.map (· ++ [',']) ++ ["and".toList, last] := by
  obtain ⟨first, second, third, rest, split⟩ := exists_three last several
  rw [split, nameWords, ← split, List.dropLast_concat, List.getLastD_concat]
  all_goals simp

/-- A comma and a space divide as a space does whose words end in a comma. -/
theorem intercalate_commas {init : List (List Char)} (nonempty : init ≠ []) (last : List Char) :
    ", ".toList.intercalate init ++ ", and ".toList ++ last =
      [' '].intercalate (init.map (· ++ [',']) ++ ["and".toList, last]) := by
  induction init with
  | nil => contradiction
  | cons first init ih =>
    cases init with
    | nil => simp [List.intercalate]
    | cons second init =>
      rw [List.intercalate_cons_cons, List.append_assoc, List.append_assoc,
        ← List.append_assoc _ _ last, ih (List.cons_ne_nil _ _)]
      simp [List.intercalate_cons_cons]

theorem toList_joinNames (names : List String) :
    (joinNames names).toList = [' '].intercalate (nameWords (names.map String.toList)) := by
  induction names using names_cases with
  | none => rfl
  | one only => simp [joinNames, nameWords]
  | two first second => simp [joinNames, nameWords, List.intercalate]
  | more init last several =>
    rw [joinNames_concat last several, List.map_append, List.map_singleton, nameWords_concat]
    · simp only [String.toList_append, String.toList_intercalate]
      apply intercalate_commas
      rw [ne_eq, List.map_eq_nil_iff]
      rintro rfl
      contradiction
    · rwa [List.length_map]

/-- The word without the comma behind it. -/
def bareWord (word : List Char) : List Char := word.takeWhile (· ≠ ',')

theorem bareWord_append {word : List Char} (plain : ',' ∉ word) (comma : List Char)
    (behind : ∀ c ∈ comma, c = ',') : bareWord (word ++ comma) = word := by
  rw [bareWord, List.takeWhile_append_of_pos (Text.passes_of_not_mem plain)]
  cases comma with
  | nil => simp
  | cons c rest => simp [behind c List.mem_cons_self]

theorem bareWord_of_plain {word : List Char} (plain : ',' ∉ word) : bareWord word = word := by
  simpa using bareWord_append plain [] nofun

theorem bareWord_comma {word : List Char} (plain : ',' ∉ word) : bareWord (word ++ [',']) = word :=
  bareWord_append plain [','] (by simp)

theorem nameWords_ne_nil {names : List (List Char)} (nonempty : names ≠ []) :
    nameWords names ≠ [] := by
  induction names using names_cases with
  | none => contradiction
  | one only => simp [nameWords]
  | two first second => simp [nameWords]
  | more init last several => simp [nameWords_concat last several]

/-- A word of a list of names is a name, with or without a comma behind it, or the "and". -/
theorem mem_nameWords {names : List (List Char)} {word : List Char}
    (member : word ∈ nameWords names) :
    word = "and".toList ∨ ∃ name ∈ names, word = name ∨ word = name ++ [','] := by
  induction names using names_cases with
  | none => simp [nameWords] at member
  | one only =>
    simp only [nameWords, List.mem_singleton] at member
    exact .inr ⟨only, List.mem_singleton.mpr rfl, .inl member⟩
  | two first second =>
    simp only [nameWords, List.mem_cons, List.not_mem_nil, or_false] at member
    rcases member with same | same | same
    · exact .inr ⟨first, by simp, .inl same⟩
    · exact .inl same
    · exact .inr ⟨second, by simp, .inl same⟩
  | more init last several =>
    rw [nameWords_concat last several, List.mem_append, List.mem_map] at member
    simp only [List.mem_cons, List.not_mem_nil, or_false] at member
    rcases member with ⟨name, listed, same⟩ | same | same
    · exact .inr ⟨name, List.mem_append_left _ listed, .inr same.symm⟩
    · exact .inl same
    · exact .inr ⟨last, by simp, .inl same⟩

/-- Without the commas, the words are the names, and an "and" between the last two. -/
theorem mem_bareWords {names : List (List Char)} (plain : ∀ name ∈ names, ',' ∉ name)
    {text : List Char} (noAnd : text ≠ "and".toList) :
    text ∈ (nameWords names).map bareWord ↔ text ∈ names := by
  have bareAnd : bareWord "and".toList = "and".toList := bareWord_of_plain (by decide)
  induction names using names_cases with
  | none => simp [nameWords]
  | one only =>
    rw [List.forall_mem_singleton] at plain
    simp [nameWords, bareWord_of_plain plain]
  | two first second =>
    simp only [List.forall_mem_cons] at plain
    simp only [nameWords, List.map_cons, List.map_nil, bareWord_of_plain plain.1,
      bareWord_of_plain plain.2.1, bareAnd, List.mem_cons, noAnd, false_or]
  | more init last several =>
    rw [List.forall_mem_append, List.forall_mem_singleton] at plain
    have bareInit : (init.map (· ++ [','])).map bareWord = init := by
      rw [List.map_map]
      exact (List.map_congr_left fun name member => bareWord_comma (plain.1 name member)).trans
        (List.map_id init)
    simp only [nameWords_concat last several, List.map_append, List.map_cons, List.map_nil,
      bareInit, bareAnd, bareWord_of_plain plain.2, List.mem_append, List.mem_cons, noAnd, false_or]

/-! ## Numerals as words -/

/-- A numeral is no word with a letter in it. -/
theorem toString_ne (n : Nat) {word : List Char} (letter : word.all Char.isDigit = false) :
    (toString n).toList ≠ word := by
  rintro rfl
  rw [← Bool.not_eq_true, List.all_eq_true] at letter
  exact letter fun c member => Text.isDigit_of_mem_toString member

theorem read?_toString (interval : Count) :
    Count.read? (toString interval.value).toList = some interval :=
  Count.read?_eq_some_iff.mpr (Text.isNumeral_toString _)

theorem ordinalSuffix_mem (n : Nat) : ordinalSuffix n ∈ ["st", "nd", "rd", "th"] := by
  unfold ordinalSuffix
  split
  · simp
  · split <;> simp

theorem takeWhile_ordinalNumeral (n : Nat) :
    (ordinalNumeral n).toList.takeWhile Char.isDigit = (toString n).toList := by
  have letters : ∀ suffix ∈ ["st", "nd", "rd", "th"],
      suffix.toList.takeWhile Char.isDigit = [] := by decide
  rw [ordinalNumeral, String.toList_append,
    List.takeWhile_append_of_pos fun c => Text.isDigit_of_mem_toString,
    letters _ (ordinalSuffix_mem n), List.append_nil]

/-! ## The words of a phrase -/

/-- What tells a word of a list of weekdays from the other words of a phrase. -/
structure IsDayWord (word : List Char) : Prop where
  whole : ' ' ∉ word
  noForm : word ∉ ["weekday", "month", "year"].map String.toList
  noCount : Count.read? word = none

namespace WeekdaySet

variable {days : WeekdaySet} {day : Weekday}

def names (days : WeekdaySet) : List (List Char) := days.toList.map fun day => day.name.toList

/-- The words that list the days of a set. -/
def words (days : WeekdaySet) : List (List Char) := nameWords days.names

theorem mem_names {name : List Char} :
    name ∈ days.names ↔ ∃ day ∈ days, day.name.toList = name := by
  simp [names]

theorem name_mem_names : day.name.toList ∈ days.names ↔ day ∈ days := by
  rw [names, Weekday.name_mem_map, mem_toList]

theorem toList_joinNames (days : WeekdaySet) :
    (joinNames (days.toList.map Weekday.name)).toList = [' '].intercalate days.words := by
  rw [Cadence.toList_joinNames, List.map_map]
  rfl

theorem exists_words (nonempty : days ≠ ∅) : ∃ first rest, days.words = first :: rest := by
  apply List.exists_cons_of_ne_nil
  apply nameWords_ne_nil
  rwa [names, ne_eq, List.map_eq_nil_iff, toList_eq_nil_iff]

theorem isDayWord_of_mem_words {word : List Char} (member : word ∈ days.words) :
    IsDayWord word := by
  rcases mem_nameWords member with rfl | ⟨name, listed, same⟩
  · exact ⟨by decide, by decide, by decide⟩
  · obtain ⟨day, -, rfl⟩ := mem_names.mp listed
    rcases same with rfl | rfl <;> cases day <;> exact ⟨by decide, by decide, by decide⟩

end WeekdaySet

namespace Rule

/-- The set of weekdays of the rule, if it has one, is not empty. -/
def HasDay : Rule → Prop
  | weekly _ days => days ≠ ∅
  | daily _ | weekdays | dayOfMonth _ | weekdayOfMonth _ _ | anniversary _ _ => True

/-- The words of the phrase of a rule that has a day. -/
def phraseWords : Rule → List (List Char)
  | daily interval =>
    if interval = .one then ["Every", "day"].map String.toList
    else ["Every", toString interval.value, "days"].map String.toList
  | weekdays => ["Every", "weekday", "(Mon-Fri)"].map String.toList
  | weekly interval days =>
    if interval = .one then "Every".toList :: days.words
    else ["Every", toString interval.value, "weeks", "on"].map String.toList ++ days.words
  | dayOfMonth day => ["Every", "month", "on", "the", ordinalNumeral day].map String.toList
  | weekdayOfMonth ordinal weekday =>
    ["Every", "month", "on", "the", ordinal.label, weekday.name].map String.toList
  | anniversary month day => ["Every", "year", "on", month.name, toString day].map String.toList

variable {rule : Rule}

theorem toList_phrase (hasDay : rule.HasDay) :
    rule.phrase.toList = [' '].intercalate rule.phraseWords := by
  unfold phrase phraseWords
  cases rule with
  | daily interval =>
    by_cases one : interval = .one
    · simp only [if_pos one]
      decide
    · simp [one, List.intercalate]
  | weekdays => decide
  | weekly interval days =>
    obtain ⟨first, rest, words⟩ := WeekdaySet.exists_words hasDay
    have names := days.toList_joinNames
    have nonempty : days.isEmpty = false := by simpa using mt WeekdaySet.isEmpty_iff.mp hasDay
    rw [words] at names
    by_cases one : interval = .one <;>
      simp [one, nonempty, names, words, List.intercalate_cons_cons]
  | dayOfMonth day | weekdayOfMonth ordinal weekday | anniversary month day =>
    simp [List.intercalate]

/-- No word has a space in it. -/
theorem whole_of_mem_phraseWords : ∀ word ∈ rule.phraseWords, ' ' ∉ word := by
  have numeral : ∀ n, ' ' ∉ Nat.toDigits 10 n := fun n => by
    simpa using Text.not_mem_toString (rfl : ' '.isDigit = false) n
  cases rule with
  | daily interval =>
    rw [phraseWords]
    split <;> simp [numeral]
  | weekdays => simp [phraseWords]
  | weekly interval days =>
    have words : ∀ word ∈ days.words, ' ' ∉ word :=
      fun _ member => (WeekdaySet.isDayWord_of_mem_words member).whole
    rw [phraseWords]
    split <;> simpa [numeral] using words
  | dayOfMonth day =>
    have suffixes : ∀ suffix ∈ ["st", "nd", "rd", "th"], ' ' ∉ suffix.toList := by decide
    simp [phraseWords, ordinalNumeral, numeral, suffixes _ (ordinalSuffix_mem day)]
  | weekdayOfMonth ordinal weekday =>
    have label : ' ' ∉ ordinal.label.toList := by cases ordinal <;> decide
    have name : ' ' ∉ weekday.name.toList := by cases weekday <;> decide
    simp [phraseWords, label, name]
  | anniversary month day =>
    have name : ' ' ∉ month.name.toList := by cases month <;> decide
    simp [phraseWords, numeral, name]

theorem exists_phraseWords (rule : Rule) : ∃ rest, rule.phraseWords = "Every".toList :: rest := by
  cases rule with
  | daily interval | weekly interval days =>
    rw [phraseWords]
    split <;> exact ⟨_, rfl⟩
  | weekdays | dayOfMonth day | weekdayOfMonth ordinal weekday | anniversary month day =>
    exact ⟨_, rfl⟩

theorem splitOn_phrase (hasDay : rule.HasDay) :
    rule.phrase.toList.splitOn ' ' = rule.phraseWords := by
  rw [toList_phrase hasDay]
  apply List.splitOn_intercalate ' ' whole_of_mem_phraseWords
  obtain ⟨rest, words⟩ := rule.exists_phraseWords
  rw [words]
  exact List.cons_ne_nil _ _

/-! ## Reading a phrase -/

/-- The weekdays that the words name. -/
def namedDays (words : List (List Char)) : WeekdaySet :=
  .ofList (words.filterMap fun word => Weekday.ofName? (bareWord word))

/-- The ordinal with the given label in phrases. -/
def ordinalOf? (label : List Char) : Option Ordinal :=
  [.first, .second, .third, .fourth, .last].find? fun ordinal => ordinal.label.toList == label

/-- The month whose English name is exactly `name`. -/
def monthOf? (name : List Char) : Option Month :=
  Month.all.find? fun month => month.name.toList == name

def monthlyOf? : List (List Char) → Option Rule
  | [_, _, day] => .dayOfMonth <$> Text.digits? (day.takeWhile Char.isDigit)
  | [_, _, label, weekday] => .weekdayOfMonth <$> ordinalOf? label <*> Weekday.ofName? weekday
  | _ => none

def yearlyOf? : List (List Char) → Option Rule
  | [_, month, day] => .anniversary <$> monthOf? month <*> Text.digits? day
  | _ => none

/-- The rule whose phrase has these words. -/
def ofWords? : List (List Char) → Option Rule
  | _ :: form :: rest =>
    if form = "weekday".toList then some .weekdays
    else if form = "month".toList then monthlyOf? rest
    else if form = "year".toList then yearlyOf? rest
    else
      let interval := (Count.read? form).getD .one
      let days := namedDays (form :: rest)
      some (if days = ∅ then .daily interval else .weekly interval days)
  | _ => none

theorem ofWords?_of_noForm {every form : List Char} {rest : List (List Char)}
    (noForm : form ∉ ["weekday", "month", "year"].map String.toList) :
    ofWords? (every :: form :: rest) =
      some (if namedDays (form :: rest) = ∅ then .daily ((Count.read? form).getD .one)
        else .weekly ((Count.read? form).getD .one) (namedDays (form :: rest))) := by
  simp only [List.map_cons, List.map_nil, List.mem_cons, List.not_mem_nil, or_false, not_or]
    at noForm
  rw [ofWords?, if_neg noForm.1, if_neg noForm.2.1, if_neg noForm.2.2]

theorem namedDays_cons {word : List Char} {words : List (List Char)}
    (noName : Weekday.ofName? (bareWord word) = none) :
    namedDays (word :: words) = namedDays words := by
  simp [namedDays, noName]

theorem namedDays_words (days : WeekdaySet) : namedDays days.words = days := by
  apply WeekdaySet.ext
  intro day
  have plain : ∀ name ∈ days.names, ',' ∉ name := by
    intro name listed
    obtain ⟨day, -, rfl⟩ := WeekdaySet.mem_names.mp listed
    cases day <;> decide
  have noAnd : day.name.toList ≠ "and".toList := by cases day <;> decide
  calc
    day ∈ namedDays days.words ↔ day.name.toList ∈ days.words.map bareWord := by
      simp [namedDays, Weekday.ofName?_eq_some_iff]
    _ ↔ day.name.toList ∈ days.names := mem_bareWords plain noAnd
    _ ↔ day ∈ days := WeekdaySet.name_mem_names

theorem noForm_toString (n : Nat) :
    (toString n).toList ∉ ["weekday", "month", "year"].map String.toList := by
  simp only [List.map_cons, List.map_nil, List.mem_cons, List.not_mem_nil, or_false, not_or]
  exact ⟨toString_ne n (by decide), toString_ne n (by decide), toString_ne n (by decide)⟩

theorem ofName?_toString (n : Nat) : Weekday.ofName? (bareWord (toString n).toList) = none := by
  rw [bareWord_of_plain (Text.not_mem_toString rfl n), Option.eq_none_iff_forall_ne_some]
  intro day found
  refine toString_ne n ?_ (Weekday.ofName?_eq_some_iff.mp found)
  cases day <;> decide

theorem ofWords?_phraseWords (hasDay : rule.HasDay) : ofWords? rule.phraseWords = some rule := by
  cases rule with
  | daily interval =>
    by_cases one : interval = .one
    · subst one
      decide
    · have words : (daily interval).phraseWords =
          "Every".toList :: (toString interval.value).toList :: ["days".toList] := if_neg one
      have none : namedDays ((toString interval.value).toList :: ["days".toList]) = ∅ := by
        rw [namedDays_cons (ofName?_toString _)]
        decide
      rw [words, ofWords?_of_noForm (noForm_toString _), if_pos none, read?_toString,
        Option.getD_some]
  | weekdays => decide
  | weekly interval days =>
    have named := namedDays_words days
    by_cases one : interval = .one
    · have words : (weekly interval days).phraseWords = "Every".toList :: days.words := if_pos one
      obtain ⟨first, rest, split⟩ := WeekdaySet.exists_words hasDay
      have dayWord : IsDayWord first :=
        WeekdaySet.isDayWord_of_mem_words (split ▸ List.mem_cons_self)
      rw [split] at words named
      rw [words, ofWords?_of_noForm dayWord.noForm, named, if_neg hasDay, dayWord.noCount,
        Option.getD_none, one]
    · have words : (weekly interval days).phraseWords = "Every".toList ::
          (toString interval.value).toList :: "weeks".toList :: "on".toList :: days.words :=
        if_neg one
      rw [words, ofWords?_of_noForm (noForm_toString _), namedDays_cons (ofName?_toString _),
        namedDays_cons (by decide), namedDays_cons (by decide), named, if_neg hasDay,
        read?_toString, Option.getD_some]
  | dayOfMonth day =>
    have read : ofWords? (dayOfMonth day).phraseWords =
        .dayOfMonth <$> Text.digits? ((ordinalNumeral day).toList.takeWhile Char.isDigit) := rfl
    rw [read, takeWhile_ordinalNumeral, Text.digits?_toString]
    rfl
  | weekdayOfMonth ordinal weekday =>
    have read : ofWords? (weekdayOfMonth ordinal weekday).phraseWords =
        .weekdayOfMonth <$> ordinalOf? ordinal.label.toList <*>
          Weekday.ofName? weekday.name.toList := rfl
    have label : ordinalOf? ordinal.label.toList = some ordinal := by cases ordinal <;> decide
    rw [read, label, Weekday.ofName?_eq_some_iff.mpr rfl]
    rfl
  | anniversary month day =>
    have read : ofWords? (anniversary month day).phraseWords =
        .anniversary <$> monthOf? month.name.toList <*> Text.digits? (toString day).toList := rfl
    have name : monthOf? month.name.toList = some month := by cases month <;> rfl
    rw [read, name, Text.digits?_toString]
    rfl

/-- Reading the phrase of a rule gives the rule back. -/
theorem ofWords?_splitOn_phrase (hasDay : rule.HasDay) :
    ofWords? (rule.phrase.toList.splitOn ' ') = some rule := by
  rw [splitOn_phrase hasDay, ofWords?_phraseWords hasDay]

theorem phrase_of_not_hasDay (noDay : ¬ rule.HasDay) : rule.phrase = "No days selected" := by
  cases rule with
  | weekly interval days =>
    obtain rfl : days = ∅ := not_not.mp noDay
    rfl
  | daily | weekdays | dayOfMonth | weekdayOfMonth | anniversary => exact absurd trivial noDay

theorem phrase_ne_of_hasDay (hasDay : rule.HasDay) : rule.phrase ≠ "No days selected" := by
  intro same
  obtain ⟨rest, words⟩ := rule.exists_phraseWords
  rw [← splitOn_phrase hasDay, same] at words
  exact absurd (List.cons.inj words).1 (by decide)

/-- Two rules have one phrase where they are equal, or where neither selects a day. -/
theorem phrase_eq_iff (rule other : Rule) :
    rule.phrase = other.phrase ↔ rule = other ∨ ¬ rule.HasDay ∧ ¬ other.HasDay := by
  constructor
  · intro same
    by_cases hasDay : rule.HasDay <;> by_cases otherDay : other.HasDay
    · have read := ofWords?_splitOn_phrase hasDay
      rw [same, ofWords?_splitOn_phrase otherDay] at read
      exact .inl (Option.some.inj read).symm
    · exact absurd (same.trans (phrase_of_not_hasDay otherDay)) (phrase_ne_of_hasDay hasDay)
    · exact absurd (same.symm.trans (phrase_of_not_hasDay hasDay)) (phrase_ne_of_hasDay otherDay)
    · exact .inr ⟨hasDay, otherDay⟩
  · rintro (rfl | ⟨noDay, otherNoDay⟩)
    · rfl
    · rw [phrase_of_not_hasDay noDay, phrase_of_not_hasDay otherNoDay]

end Rule

end Cadence
