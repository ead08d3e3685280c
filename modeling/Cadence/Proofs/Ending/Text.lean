import Cadence.Ending.Text
import Cadence.Proofs.Calendar.DateText
import Cadence.Proofs.Text.Division

/-!
# Which texts are endings

`Ending.Denotes` says which ending a text denotes and `Ending.Fails` what is wrong with a text that
denotes none, both without the parser: the text is cut at its first colon, if it has one, into a
word and a value with the blanks around each of them left out.

The parser decides both (`Ending.parse_exact`).  So it reads what is written for an ending as that
ending, also with more blanks and with the word in capitals (`Restyles`), since that changes neither
the kind nor the value.
-/

namespace Cadence

open Text (IsNumeral Trims Padded isBlank)

namespace Ending

variable {text word value : List Char} {kind : EndingKind} {ending : Ending} {fault : EndingFault}

/-! ## The grammar -/

/-- The text has this word and, if it has a colon, this value after the first one. -/
inductive HasParts : List Char → List Char → Option (List Char) → Prop where
  | bare {text word : List Char} (noColon : ':' ∉ text) (trims : Trims text word) :
      HasParts text word none
  | valued {left right word value : List Char} (noColon : ':' ∉ left) (wordTrims : Trims left word)
      (valueTrims : Trims right value) : HasParts (left ++ ':' :: right) word (some value)

/-- The word is that of the kind in letters of either case. -/
def Spells (word : List Char) (kind : EndingKind) : Prop :=
  Text.toLower word = kind.text.toList

instance (word : List Char) (kind : EndingKind) : Decidable (Spells word kind) :=
  inferInstanceAs (Decidable (_ = _))

/-- The text denotes the ending. -/
inductive Denotes (text : List Char) : Ending → Prop where
  | never {word : List Char} (parts : HasParts text word none) (spells : Spells word .never) :
      Denotes text .never
  | after {word value : List Char} {count : Count} (parts : HasParts text word (some value))
      (spells : Spells word .after) (isCount : IsNumeral value count.value) :
      Denotes text (.after count)
  | on {word value : List Char} {date : Date} (parts : HasParts text word (some value))
      (spells : Spells word .on) (isDate : IsDateText .tight value date) : Denotes text (.on date)

/-- What is wrong with a text that denotes no ending. -/
inductive Fails (text : List Char) : EndingFault → Prop where
  | noCount {word : List Char} (parts : HasParts text word none) (spells : Spells word .after) :
      Fails text (.missingField .after .count)
  | noDate {word : List Char} (parts : HasParts text word none) (spells : Spells word .on) :
      Fails text (.missingField .on .date)
  | count {word value : List Char} (parts : HasParts text word (some value))
      (spells : Spells word .after) (faulty : ∀ count : Count, ¬ IsNumeral value count.value) :
      Fails text (.invalidCount (.ofList value))
  | date {word value : List Char} (parts : HasParts text word (some value))
      (spells : Spells word .on) (faulty : ∀ date, ¬ IsDateText .tight value date) :
      Fails text (.invalidDate (.ofList value))
  -- The fault quotes the whole text here, without the blanks at its ends only.
  | neverValue {core word value : List Char} (trims : Trims text core)
      (parts : HasParts text word (some value)) (spells : Spells word .never) :
      Fails text (.unknownKind (.ofList core))
  | kind {core word : List Char} {value : Option (List Char)} (trims : Trims text core)
      (parts : HasParts text word value) (unknown : ∀ kind, ¬ Spells word kind) :
      Fails text (.unknownKind (.ofList core))

/-! ## The parts of a text -/

theorem exists_hasParts (text : List Char) : ∃ word value, HasParts text word value := by
  by_cases colon : ':' ∈ text
  · obtain ⟨left, right, rfl, noColon⟩ := List.eq_append_cons_of_mem colon
    exact ⟨_, _, .valued noColon (Text.trims_trim left) (Text.trims_trim right)⟩
  · exact ⟨_, none, .bare colon (Text.trims_trim text)⟩

/-- Trimming the whole text first takes nothing from its parts. -/
theorem cutKind_trim {value : Option (List Char)} (parts : HasParts text word value) :
    cutKind (Text.trim text) = (word, value) := by
  cases parts with
  | bare noColon trims =>
    have clean : ':' ∉ Text.trim text := Padded.not_mem (Text.trims_trim text).around noColon
    rw [cutKind, Text.cutFirst_eq_none clean, Text.trim_eq_of_trims trims]
  | @valued left right word value noColon wordTrims valueTrims =>
    -- What is trimmed from the whole text would be trimmed from its parts.
    have clean : ':' ∉ Text.trimStart left := (Text.padded_trimStart left).not_mem noColon
    have wordSame : Text.trim (Text.trimStart left) = word :=
      (Text.padded_trimStart left).trim_eq.symm.trans (Text.trim_eq_of_trims wordTrims)
    have valueSame : Text.trim (Text.trimEnd right) = value :=
      (Text.padded_trimEnd right).trim_eq.symm.trans (Text.trim_eq_of_trims valueTrims)
    rw [cutKind, Text.trim_append_cons (by decide), Text.cutFirst_append clean]
    simp only [wordSame, valueSame]

theorem HasParts.unique {other : List Char} {value otherValue : Option (List Char)}
    (first : HasParts text word value) (second : HasParts text other otherValue) :
    word = other ∧ value = otherValue :=
  Prod.mk.inj ((cutKind_trim first).symm.trans (cutKind_trim second))

theorem ofWord?_eq_some_iff :
    EndingKind.ofWord? (Text.toLower word) = some kind ↔ Spells word kind :=
  Text.find?_word_eq_some_iff fun kind => by cases kind <;> rfl

/-! ## The parser -/

theorem parse_of_denotes {text : String} (denotes : Denotes text.toList ending) :
    parse text = .ok ending := by
  cases denotes with
  | never parts spells =>
    simp only [parse, cutKind_trim parts, ofWord?_eq_some_iff.mpr spells]
  | after parts spells isCount =>
    simp only [parse, cutKind_trim parts, ofWord?_eq_some_iff.mpr spells,
      Count.read?_eq_some_iff.mpr isCount]
  | on parts spells isDate =>
    simp only [parse, cutKind_trim parts, ofWord?_eq_some_iff.mpr spells,
      Date.read?_of_isDateText isDate]

theorem parse_of_fails {text : String} (fails : Fails text.toList fault) :
    parse text = .error fault := by
  cases fails with
  | noCount parts spells | noDate parts spells =>
    simp only [parse, cutKind_trim parts, ofWord?_eq_some_iff.mpr spells]
  | count parts spells faulty =>
    have unread : Count.read? _ = none := Option.eq_none_iff_forall_ne_some.mpr fun count found =>
      faulty count (Count.read?_eq_some_iff.mp found)
    simp only [parse, cutKind_trim parts, ofWord?_eq_some_iff.mpr spells, unread]
  | date parts spells faulty =>
    have unread : Date.read? .tight _ = none :=
      Option.eq_none_iff_forall_ne_some.mpr fun date found =>
        faulty date (Date.read?_eq_some_iff.mp found)
    simp only [parse, cutKind_trim parts, ofWord?_eq_some_iff.mpr spells, unread]
  | neverValue trims parts spells =>
    rw [← Text.trim_eq_of_trims trims]
    simp only [parse, cutKind_trim parts, ofWord?_eq_some_iff.mpr spells]
  | kind trims parts unknown =>
    have unspelled : EndingKind.ofWord? (Text.toLower _) = none :=
      Option.eq_none_iff_forall_ne_some.mpr fun kind found =>
        unknown kind (ofWord?_eq_some_iff.mp found)
    rw [← Text.trim_eq_of_trims trims]
    simp only [parse, cutKind_trim parts, unspelled]

theorem denotes_or_fails (text : List Char) :
    (∃ ending, Denotes text ending) ∨ ∃ fault, Fails text fault := by
  obtain ⟨word, value, parts⟩ := exists_hasParts text
  by_cases known : ∃ kind, Spells word kind
  · obtain ⟨kind, spells⟩ := known
    cases kind with
    | never =>
      cases value with
      | none => exact .inl ⟨_, .never parts spells⟩
      | some value => exact .inr ⟨_, .neverValue (Text.trims_trim text) parts spells⟩
    | after =>
      cases value with
      | none => exact .inr ⟨_, .noCount parts spells⟩
      | some value =>
        by_cases count : ∃ count : Count, IsNumeral value count.value
        · obtain ⟨count, isCount⟩ := count
          exact .inl ⟨_, .after parts spells isCount⟩
        · exact .inr ⟨_, .count parts spells (not_exists.mp count)⟩
    | on =>
      cases value with
      | none => exact .inr ⟨_, .noDate parts spells⟩
      | some value =>
        by_cases date : ∃ date, IsDateText .tight value date
        · obtain ⟨date, isDate⟩ := date
          exact .inl ⟨_, .on parts spells isDate⟩
        · exact .inr ⟨_, .date parts spells (not_exists.mp date)⟩
  · exact .inr ⟨_, .kind (Text.trims_trim text) parts (not_exists.mp known)⟩

theorem parse_eq_ok_iff {text : String} : parse text = .ok ending ↔ Denotes text.toList ending := by
  constructor
  · intro parsed
    rcases denotes_or_fails text.toList with ⟨other, denotes⟩ | ⟨fault, fails⟩
    · obtain rfl := Except.ok.inj (parsed.symm.trans (parse_of_denotes denotes))
      exact denotes
    · rw [parse_of_fails fails] at parsed
      contradiction
  · exact parse_of_denotes

theorem parse_eq_error_iff {text : String} :
    parse text = .error fault ↔ Fails text.toList fault := by
  constructor
  · intro parsed
    rcases denotes_or_fails text.toList with ⟨other, denotes⟩ | ⟨fault, fails⟩
    · rw [parse_of_denotes denotes] at parsed
      contradiction
    · obtain rfl := Except.error.inj (parsed.symm.trans (parse_of_fails fails))
      exact fails
  · exact parse_of_fails

/-! ## Styles of a text -/

/-- The text is the other one with blanks added at the ends and around the first colon, and with
what stands before the colon in letters of either case. -/
inductive Restyles : List Char → List Char → Prop where
  | bare {text word other : List Char} (padded : Padded text word)
      (letters : Text.toLower word = Text.toLower other) (noColon : ':' ∉ other) :
      Restyles text other
  | valued {left right word value kind : List Char} (wordPadded : Padded left word)
      (letters : Text.toLower word = Text.toLower kind) (noColon : ':' ∉ kind)
      (valuePadded : Padded right value) : Restyles (left ++ ':' :: right) (kind ++ ':' :: value)

/-- Neither the blanks around a word nor the case of its letters bring in a colon. -/
theorem colon_not_mem {other : List Char} (padded : Padded text word)
    (letters : Text.toLower word = Text.toLower other) (noColon : ':' ∉ other) : ':' ∉ text := by
  obtain ⟨before, after, rfl, blankBefore, blankAfter⟩ := padded
  have noColonWord : ':' ∉ word := by
    rw [← Text.mem_toLower_iff (by decide), letters, Text.mem_toLower_iff (by decide)]
    exact noColon
  have noColonBlank : ∀ {blanks : List Char}, (∀ c ∈ blanks, isBlank c = true) → ':' ∉ blanks :=
    fun blank member => absurd (blank ':' member) (by decide)
  simp [noColonWord, noColonBlank blankBefore, noColonBlank blankAfter]

theorem toLower_trim_of_padded {other : List Char} (padded : Padded text word)
    (letters : Text.toLower word = Text.toLower other) :
    Text.toLower (Text.trim text) = Text.toLower (Text.trim other) := by
  rw [padded.trim_eq, Text.toLower_trim, letters, ← Text.toLower_trim]

/-- A text has the same parts in every style, up to the letters of its word. -/
theorem HasParts.restyle {other : List Char} {value : Option (List Char)}
    (parts : HasParts other word value) (restyles : Restyles text other) :
    ∃ styled, HasParts text styled value ∧ Text.toLower styled = Text.toLower word := by
  cases restyles with
  | bare padded letters noColon =>
    obtain ⟨rfl, rfl⟩ := parts.unique (.bare noColon (Text.trims_trim other))
    exact ⟨_, .bare (colon_not_mem padded letters noColon) (Text.trims_trim text),
      toLower_trim_of_padded padded letters⟩
  | @valued left right _ value kind wordPadded letters noColon valuePadded =>
    obtain ⟨rfl, rfl⟩ :=
      parts.unique (.valued noColon (Text.trims_trim kind) (Text.trims_trim value))
    have valueTrims : Trims right (Text.trim value) := Text.trim_eq_iff.mp valuePadded.trim_eq
    exact ⟨_, .valued (colon_not_mem wordPadded letters noColon) (Text.trims_trim left) valueTrims,
      toLower_trim_of_padded wordPadded letters⟩

/-- A text denotes the same ending in every style. -/
theorem Denotes.restyle {other : List Char} (denotes : Denotes other ending)
    (restyles : Restyles text other) : Denotes text ending := by
  cases denotes with
  | never parts spells =>
    obtain ⟨styled, parts, letters⟩ := parts.restyle restyles
    exact .never parts (letters.trans spells)
  | after parts spells isCount =>
    obtain ⟨styled, parts, letters⟩ := parts.restyle restyles
    exact .after parts (letters.trans spells) isCount
  | on parts spells isDate =>
    obtain ⟨styled, parts, letters⟩ := parts.restyle restyles
    exact .on parts (letters.trans spells) isDate

/-! ## Endings as they are written -/

theorem trims_kind (kind : EndingKind) : Trims kind.text.toList kind.text.toList :=
  Text.trim_eq_iff.mp (by cases kind <;> decide)

theorem hasParts_kind (kind : EndingKind) (trims : Trims value value) :
    HasParts (kind.text.toList ++ ':' :: value) kind.text.toList (some value) :=
  .valued (by cases kind <;> decide) (trims_kind kind) trims

theorem denotes_text (ending : Ending) : Denotes ending.text.toList ending := by
  have spells : ∀ kind : EndingKind, Spells kind.text.toList kind := by
    intro kind
    cases kind <;> decide
  cases ending with
  | never => exact .never (.bare (by decide) (trims_kind .never)) (spells .never)
  | after count =>
    have written : (after count).text.toList =
        EndingKind.after.text.toList ++ ':' :: (toString count.value).toList := by
      simp [text, String.toList_append]
    rw [written]
    exact .after (hasParts_kind .after (Text.trims_toString count.value)) (spells .after)
      (Text.isNumeral_toString count.value)
  | on date =>
    have written : (on date).text.toList =
        EndingKind.on.text.toList ++ ':' :: date.text.toList := by
      simp [text, String.toList_append]
    rw [written]
    exact .on (hasParts_kind .on (Text.trim_eq_iff.mp date.trim_text)) (spells .on)
      (date.isDateText_text .tight)

theorem parse_text (ending : Ending) : parse ending.text = .ok ending :=
  parse_of_denotes (denotes_text ending)

/-- An ending is read from what is written for it, in every style, and so is a date, which has a
sign if its year is not one of four digits.  The parser accepts the texts that denote an ending and
no other, each as that ending, and refuses any other text with the one fault that it has. -/
theorem parse_exact :
    (∀ ending : Ending, parse ending.text = .ok ending ∧
      ∀ text : String, Restyles text.toList ending.text.toList → parse text = .ok ending) ∧
    (∀ date : Date, Date.parse date.text = .ok date ∧
      (date.text.toList.head? = some '-' ↔ date.year < 0) ∧
      (date.text.toList.head? = some '+' ↔ 9999 < date.year)) ∧
    (∀ text ending, parse text = .ok ending ↔ Denotes text.toList ending) ∧
    (∀ text : String, (∀ ending, ¬ Denotes text.toList ending) →
      ∃! fault, Fails text.toList fault) ∧
    ∀ text fault, parse text = .error fault ↔ Fails text.toList fault := by
  refine ⟨?_, ?_, fun text ending => parse_eq_ok_iff, ?_, fun text fault => parse_eq_error_iff⟩
  · intro ending
    refine ⟨parse_text ending, ?_⟩
    intro text restyles
    exact parse_of_denotes ((denotes_text ending).restyle restyles)
  · exact fun date => ⟨date.parse_text, date.head?_text⟩
  · intro text nothing
    obtain ⟨fault, fails⟩ := (denotes_or_fails text.toList).resolve_left (not_exists.mpr nothing)
    refine ⟨fault, fails, ?_⟩
    intro other otherFails
    exact Except.error.inj ((parse_of_fails otherFails).symm.trans (parse_of_fails fails))

/-- The first of January 12025 in another style: capitals, and blanks of three kinds. -/
theorem parse_styled_12025 :
    ∃ date : Date, date.text = "+12025-01-01" ∧
      parse "\tON\u3000: +12025-01-01 " = .ok (.on date) := by
  have written : (Date.mk 4391676 (by decide)).text = "+12025-01-01" := by decide +kernel
  refine ⟨_, written, (parse_exact.1 _).2 _ ?_⟩
  have blank : isBlank '\t' = true ∧ isBlank '\u3000' = true ∧ isBlank ' ' = true := by decide
  have wordPadded : Padded "\tON\u3000".toList "ON".toList :=
    ⟨['\t'], ['\u3000'], by decide, by simpa using blank.1, by simpa using blank.2.1⟩
  have valuePadded : Padded " +12025-01-01 ".toList "+12025-01-01".toList :=
    ⟨[' '], [' '], by decide, by simpa using blank.2.2, by simpa using blank.2.2⟩
  have letters : Text.toLower "ON".toList = Text.toLower "on".toList := by decide
  have restyles := Restyles.valued wordPadded letters (by decide) valuePadded
  rw [text, written]
  simpa [EndingKind.text, String.toList_append] using restyles

example : parse " Never : " = .error (.unknownKind "Never :") := by rfl

end Ending

end Cadence
