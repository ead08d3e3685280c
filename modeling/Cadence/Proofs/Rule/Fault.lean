import Cadence.Proofs.Text.Numeral
import Cadence.Rule.Fault
import Mathlib.Data.List.Nodup

/-!
# The wording of faults

What the reason of each fault says, written out: `Fault.Reads` gives the words and where among them
stands what the fault carries, a text in quotes or a number in digits.  The headings of the faults
that quote a text are one table.

* `Fault.reads_iff`: it is what `Fault.reason` says.
* `Fault.reason_injective`: faults that differ read differently.  A reason with quotes is cut at the
  first of them, which no heading has; any other one is cut into its words, and no word that comes
  from a number, a keyword or a month has a space in it.
-/

namespace Cadence

namespace Fault

/-- The faults that quote the given text, each under its heading. -/
def headings (text : String) : List (String × Fault) :=
  [("unknown keyword", .unknownKeyword text), ("invalid interval", .invalidField .interval text),
    ("invalid weekday", .invalidField .weekday text),
    ("invalid ordinal", .invalidField .ordinal text),
    ("invalid day of month", .invalidField .dayOfMonth text),
    ("invalid month", .invalidField .month text),
    ("invalid weekday name", .invalidWeekdayName text),
    ("invalid month-day", .invalidMonthDay text)]

def keywordNames : List (Keyword × String) :=
  [(.daily, "DAILY"), (.weekdays, "WEEKDAYS"), (.weekly, "WEEKLY"), (.monthly, "MONTHLY"),
    (.yearly, "YEARLY")]

def monthNames : List String :=
  ["January", "February", "March", "April", "May", "June", "July", "August", "September",
    "October", "November", "December"]

/-- The reason of the fault is the given text. -/
inductive Reads : Fault → String → Prop where
  | emptyPattern : Reads .emptyPattern "empty pattern"
  | quoting {heading text : String} {fault : Fault} (listed : (heading, fault) ∈ headings text) :
      Reads fault (heading ++ " '" ++ text ++ "'")
  | tooManyArguments {keyword : Keyword} {name : String} (limit given : Nat)
      (named : (keyword, name) ∈ keywordNames) :
      Reads (.tooManyArguments keyword limit given)
        (name ++ " takes at most " ++ toString limit ++ " argument(s), got " ++ toString given)
  | missingDayList : Reads .missingDayList "missing day list"
  | missingDayOfMonth : Reads .missingDayOfMonth "missing day of month"
  | missingMonthDay : Reads .missingMonthDay "missing month-day"
  | impossibleDay {month : Month} {name : String} (day : Nat)
      (named : monthNames[month.number - 1]? = some name) :
      Reads (.impossibleDay month day) (name ++ " has no day " ++ toString day)
  | missingList : Reads .missingList "missing recurrence config"
  | severalDates (listed : Nat) :
      Reads (.severalDates listed)
        (toString listed ++ " dates listed, only one rule per task is supported")

variable {fault other : Fault} {heading text : String}

theorem text_of_keywordNames {keyword : Keyword} {name : String}
    (named : (keyword, name) ∈ keywordNames) : keyword.text = name := by
  revert named
  cases keyword <;> simp +contextual [keywordNames, Keyword.text]

theorem name_of_monthNames {month : Month} {name : String}
    (named : monthNames[month.number - 1]? = some name) : month.name = name := by
  cases month <;> simpa [monthNames, Month.number, Month.name] using named

theorem reason_of_listed (listed : (heading, fault) ∈ headings text) :
    fault.reason = heading ++ " '" ++ text ++ "'" := by
  unfold reason
  simp only [headings, List.mem_cons, Prod.mk.injEq, List.not_mem_nil, or_false] at listed
  rcases listed with ⟨rfl, rfl⟩ | ⟨rfl, rfl⟩ | ⟨rfl, rfl⟩ | ⟨rfl, rfl⟩ | ⟨rfl, rfl⟩ | ⟨rfl, rfl⟩ |
    ⟨rfl, rfl⟩ | ⟨rfl, rfl⟩ <;>
    simp [toString, PatternField.label]

theorem reason_of_reads (reads : fault.Reads text) : fault.reason = text := by
  unfold reason
  cases reads with
  | quoting listed => exact reason_of_listed listed
  | tooManyArguments limit given named =>
    rw [← text_of_keywordNames named]
    rfl
  | impossibleDay day named =>
    rw [← name_of_monthNames named]
    rfl
  | _ => rfl

theorem exists_keywordName (keyword : Keyword) : ∃ name, (keyword, name) ∈ keywordNames := by
  cases keyword <;> simp [keywordNames]

theorem exists_monthName (month : Month) :
    ∃ name, monthNames[month.number - 1]? = some name := by
  cases month <;> exact ⟨_, rfl⟩

theorem exists_reads (fault : Fault) : ∃ text, fault.Reads text := by
  cases fault with
  | emptyPattern => exact ⟨_, .emptyPattern⟩
  | unknownKeyword word => exact ⟨_, .quoting List.mem_cons_self⟩
  | tooManyArguments keyword limit given =>
    obtain ⟨name, named⟩ := exists_keywordName keyword
    exact ⟨_, .tooManyArguments limit given named⟩
  | invalidField field text =>
    have listed : ∃ heading, (heading, invalidField field text) ∈ headings text := by
      cases field <;> simp [headings]
    obtain ⟨heading, listed⟩ := listed
    exact ⟨_, .quoting listed⟩
  | missingDayList => exact ⟨_, .missingDayList⟩
  | missingDayOfMonth => exact ⟨_, .missingDayOfMonth⟩
  | missingMonthDay => exact ⟨_, .missingMonthDay⟩
  | impossibleDay month day =>
    obtain ⟨name, named⟩ := exists_monthName month
    exact ⟨_, .impossibleDay day named⟩
  | missingList => exact ⟨_, .missingList⟩
  | severalDates listed => exact ⟨_, .severalDates listed⟩
  | invalidWeekdayName text =>
    exact ⟨_, .quoting (show ("invalid weekday name", _) ∈ headings text by simp [headings])⟩
  | invalidMonthDay text =>
    exact ⟨_, .quoting (show ("invalid month-day", _) ∈ headings text by simp [headings])⟩

/-- Every fault has the reason that is written out for it and no other. -/
theorem reads_iff : fault.Reads text ↔ fault.reason = text := by
  constructor
  · exact reason_of_reads
  · rintro rfl
    obtain ⟨text, reads⟩ := fault.exists_reads
    rwa [reason_of_reads reads]

/-! ## Telling faults by their reasons -/

/-- A word of a reason that quotes nothing. -/
def IsWord (word : String) : Prop := ' ' ∉ word.toList ∧ '\'' ∉ word.toList

instance (word : String) : Decidable (IsWord word) := inferInstanceAs (Decidable (_ ∧ _))

/-- The words of a reason, if it quotes nothing. -/
def words : Fault → List String
  | .emptyPattern => ["empty", "pattern"]
  | .tooManyArguments keyword limit given =>
    [keyword.text, "takes", "at", "most", toString limit, "argument(s),", "got", toString given]
  | .missingDayList => ["missing", "day", "list"]
  | .missingDayOfMonth => ["missing", "day", "of", "month"]
  | .missingMonthDay => ["missing", "month-day"]
  | .impossibleDay month day => [month.name, "has", "no", "day", toString day]
  | .missingList => ["missing", "recurrence", "config"]
  | .severalDates listed =>
    [toString listed, "dates", "listed,", "only", "one", "rule", "per", "task", "is", "supported"]
  | .unknownKeyword _ | .invalidField _ _ | .invalidWeekdayName _ | .invalidMonthDay _ => []

theorem isWord_of_mem_words : ∀ word ∈ fault.words, IsWord word := by
  have numeral (n : Nat) : IsWord (toString n) :=
    ⟨Text.not_mem_toString rfl n, Text.not_mem_toString rfl n⟩
  have keywords (keyword : Keyword) : IsWord keyword.text := by cases keyword <;> decide
  have months (month : Month) : IsWord month.name := by cases month <;> decide
  cases fault with
  | tooManyArguments keyword limit given =>
    simp only [words, List.forall_mem_cons]
    exact ⟨keywords keyword, by decide, by decide, by decide, numeral limit, by decide, by decide,
      numeral given, List.forall_mem_nil _⟩
  | impossibleDay month day =>
    simp only [words, List.forall_mem_cons]
    exact ⟨months month, by decide, by decide, by decide, numeral day, List.forall_mem_nil _⟩
  | severalDates listed =>
    rw [words, List.forall_mem_cons]
    exact ⟨numeral listed, by decide⟩
  | unknownKeyword _ | invalidField _ _ | invalidWeekdayName _ | invalidMonthDay _ =>
    exact List.forall_mem_nil _
  | _ => decide

/-- A reason either quotes a text after its heading, or it quotes nothing. -/
theorem quoting_or_words (fault : Fault) :
    (∃ heading text, (heading, fault) ∈ headings text) ∨ fault.words ≠ [] ∧
      fault.reason.toList = [' '].intercalate (fault.words.map String.toList) := by
  obtain ⟨text, reads⟩ := fault.exists_reads
  rw [reason_of_reads reads]
  cases reads with
  | quoting listed => exact .inl ⟨_, _, listed⟩
  | tooManyArguments limit given named =>
    refine .inr ⟨List.cons_ne_nil _ _, ?_⟩
    simp [words, text_of_keywordNames named, List.intercalate]
  | impossibleDay day named =>
    refine .inr ⟨List.cons_ne_nil _ _, ?_⟩
    simp [words, name_of_monthNames named, List.intercalate]
  | _ => exact .inr ⟨List.cons_ne_nil _ _, by simp [words, List.intercalate]⟩

/-- The words of a reason tell its fault: faults of two kinds differ in a word or in how many there
are, and a word that is no fixed one tells what it comes from. -/
theorem eq_of_words_eq (plain : fault.words ≠ []) (same : fault.words = other.words) :
    fault = other := by
  have numbers : Function.Injective Nat.repr := fun m n same => by
    have digits : some m = some n := by
      rw [← Text.digits?_toString m, ← Text.digits?_toString n]
      exact congrArg (fun word => Text.digits? word.toList) same
    exact Option.some.inj digits
  have keywords : Function.Injective Keyword.text := fun keyword => by
    cases keyword <;> intro other <;> cases other <;> decide
  have months : Function.Injective Month.name := fun month => by
    cases month <;> intro other <;> cases other <;> decide
  cases fault <;> cases other <;>
    simp_all [words, numbers.eq_iff, keywords.eq_iff, months.eq_iff]

theorem splitOn_reason (plain : fault.words ≠ [])
    (joined : fault.reason.toList = [' '].intercalate (fault.words.map String.toList)) :
    fault.reason.toList.splitOn ' ' = fault.words.map String.toList := by
  rw [joined]
  apply List.splitOn_intercalate ' '
  · rw [List.forall_mem_map]
    exact fun word member => (isWord_of_mem_words word member).1
  · rwa [ne_eq, List.map_eq_nil_iff]

theorem not_mem_reason
    (joined : fault.reason.toList = [' '].intercalate (fault.words.map String.toList)) :
    '\'' ∉ fault.reason.toList := by
  rw [joined, Text.mem_intercalate_iff (by decide)]
  rintro ⟨piece, isPiece, member⟩
  obtain ⟨word, isWord, rfl⟩ := List.mem_map.mp isPiece
  exact (isWord_of_mem_words word isWord).2 member

theorem cutFirst_reason (listed : (heading, fault) ∈ headings text) :
    Text.cutFirst '\'' fault.reason.toList =
      some (heading.toList ++ [' '], text.toList ++ ['\'']) := by
  have clean : '\'' ∉ heading.toList ++ [' '] := by
    have inTable : heading ∈ (headings text).map Prod.fst := List.mem_map_of_mem listed
    have all : ∀ heading ∈ (headings text).map Prod.fst, '\'' ∉ heading.toList := by
      simp [headings]
    rw [List.mem_append, not_or]
    exact ⟨all heading inTable, by decide⟩
  rw [reason_of_listed listed, ← Text.cutFirst_append clean]
  simp

/-- No heading stands for two faults. -/
theorem eq_of_listed (listed : (heading, fault) ∈ headings text)
    (otherListed : (heading, other) ∈ headings text) : fault = other := by
  have distinct : ((headings text).map Prod.fst).Nodup := by simp [headings]
  exact congrArg Prod.snd (List.inj_on_of_nodup_map distinct listed otherListed rfl)

/-- Faults that differ read differently. -/
theorem reason_injective : Function.Injective reason := by
  intro fault other same
  rcases fault.quoting_or_words with ⟨heading, text, listed⟩ | ⟨plain, joined⟩
  · have cut := cutFirst_reason listed
    rw [same] at cut
    rcases other.quoting_or_words with ⟨otherHeading, otherText, otherListed⟩ | ⟨_, otherJoined⟩
    · -- On the two sides of the first quote stand the heading and the text.
      rw [cutFirst_reason otherListed, Option.some.injEq, Prod.mk.injEq, List.append_left_inj,
        List.append_left_inj, String.toList_inj, String.toList_inj] at cut
      obtain ⟨rfl, rfl⟩ := cut
      exact eq_of_listed listed otherListed
    · rw [Text.cutFirst_eq_none (not_mem_reason otherJoined)] at cut
      contradiction
  · have words := splitOn_reason plain joined
    rw [same] at words
    rcases other.quoting_or_words with ⟨_, _, otherListed⟩ | ⟨otherPlain, otherJoined⟩
    · have cut := cutFirst_reason otherListed
      rw [← same, Text.cutFirst_eq_none (not_mem_reason joined)] at cut
      contradiction
    · rw [splitOn_reason otherPlain otherJoined] at words
      refine eq_of_words_eq plain (List.map_injective_iff.mpr ?_ words.symm)
      exact fun word other => String.toList_inj.mp

end Fault

end Cadence
