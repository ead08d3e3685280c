import Cadence.Legacy.Columns
import Cadence.Proofs.Pattern.Agreement

/-!
# Legacy columns and patterns

Legacy columns and patterns spell the same fields in two ways, and two readers read them.  The
importer takes an item as it stands and asks the constructors of a rule whether its fields fit; the
strict reader of patterns trims every part and compares the fields itself.

An item that the importer accepts is built from digits, signs and a hyphen.  It has no blank to trim
and no colon to divide it, so it denotes the same rule as the argument of a pattern
(`monthly?_eq_some_iff`, `yearly?_eq_some_iff`).  Weekdays are named in the columns and numbered in
patterns, and in both the order and the repetition of them do not matter.
-/

namespace Cadence

open Text (IsNumeral Trims isBlank)
open Pattern (ArgumentsDenote)

/-! ## Arguments of patterns -/

/-- The text can stand as the argument of a pattern and stays as it is there. -/
def IsArgument (text : List Char) : Prop := ∀ c ∈ text, isBlank c = false ∧ c ≠ ':'

theorem Text.IsNumeral.isArgument {text : List Char} {n : Nat} (numeral : IsNumeral text n) :
    IsArgument text := by
  have digit : ∀ c : Char, c.isDigit = true → isBlank c = false ∧ c ≠ ':' := by
    intro c isDigit
    refine ⟨Text.isBlank_of_isDigit isDigit, ?_⟩
    rintro rfl
    contradiction
  obtain ⟨digits, rfl | rfl, _, allDigits, _⟩ := numeral
  · exact fun c member => digit c (allDigits c member)
  · rintro c (_ | ⟨_, member⟩)
    · decide
    · exact digit c (allDigits c member)

theorem IsArgument.trims {text : List Char} (argument : IsArgument text) : Trims text text :=
  Text.trim_eq_iff.mp (Text.trim_eq_self fun c member => (argument c member).1)

/-- The strict reader takes arguments that are written after a keyword as they stand. -/
theorem Rule.parseStrict_arguments {keyword : Keyword} {arguments : List (List Char)}
    (plain : ∀ argument ∈ arguments, IsArgument argument) {text : String} {rule : Rule}
    (joined : text.toList = [':'].intercalate (keyword.text.toList :: arguments)) :
    parseStrict text = .ok rule ↔ ArgumentsDenote keyword arguments rule := by
  have parts : Pattern.HasParts text.toList (keyword.text.toList :: arguments) := by
    rw [joined]
    exact Pattern.hasParts_intercalate (List.cons_ne_nil _ _)
      (List.forall_mem_cons.mpr ⟨Rule.keyword_text_plain keyword, plain⟩)
  rw [parseStrict_eq_ok_iff, Pattern.read_eq_pure_iff,
    Pattern.denotes_iff parts (Pattern.spells_text keyword)]

/-- The strict reader takes the numbers of weekdays as the set of these weekdays, in any order. -/
theorem Rule.parseStrict_weekly {days : WeekdaySet} {listed : List Weekday} (nonempty : listed ≠ [])
    (members : ∀ day, day ∈ days ↔ day ∈ listed) :
    parseStrict ("WEEKLY:1:" ++
      String.intercalate "," (listed.map fun day => toString day.number)) =
      .ok (.weekly .one days) := by
  have isList := Pattern.isDayList_numbers nonempty members
  generalize written : [','].intercalate
    (listed.map fun day => (toString day.number).toList) = list at isList
  have plain : IsArgument list := by
    intro c member
    rw [← written] at member
    rcases Text.eq_or_mem_of_mem_intercalate member with rfl | ⟨piece, inList, inPiece⟩
    · decide
    · obtain ⟨day, _, rfl⟩ := List.mem_map.mp inList
      exact (Text.isNumeral_toString day.number).isArgument c inPiece
  have one : IsNumeral ['1'] Count.one.value := Text.isNumeral_toString 1
  refine (parseStrict_arguments ?_ ?_).mpr (.weekly one isList)
  · simp only [List.forall_mem_cons]
    exact ⟨one.isArgument, plain, nofun⟩
  · simp [← written, String.toList_intercalate, Function.comp_def, Keyword.text, List.intercalate]

theorem Rule.parseStrict_monthly {item : String} {rule : Rule} (argument : IsArgument item.toList) :
    parseStrict ("MONTHLY:" ++ item) = .ok rule ↔
      ArgumentsDenote .monthly [item.toList] rule :=
  parseStrict_arguments (by simpa using argument) (by simp [Keyword.text, List.intercalate])

theorem Rule.parseStrict_yearly {item : String} {rule : Rule} (argument : IsArgument item.toList) :
    parseStrict ("YEARLY:" ++ item) = .ok rule ↔ ArgumentsDenote .yearly [item.toList] rule :=
  parseStrict_arguments (by simpa using argument) (by simp [Keyword.text, List.intercalate])

namespace LegacyColumns

variable {columns : LegacyColumns} {items : List (List Char)} {item : List Char} {rule : Rule}

/-! ## Items -/

theorem weekdays_cons (day : Weekday) (items : List (List Char)) :
    weekdays (day.name.toList :: items) = (weekdays items).map (day :: ·) := by
  have named := Weekday.ofName?_eq_some_iff.mpr (rfl : day.name.toList = day.name.toList)
  cases read : weekdays items <;>
    simp only [weekdays] at read <;>
    simp [weekdays, List.mapM_cons, named, read, bind, Except.bind, pure, Except.pure, Except.map]

theorem weekdays_names (days : List Weekday) :
    weekdays (days.map fun day => day.name.toList) = .ok days := by
  induction days with
  | nil => rfl
  | cons day days ih => rw [List.map_cons, weekdays_cons, ih, Except.map]

/-- The items are read as weekdays exactly if each of them names one. -/
theorem weekdays_eq_ok_iff {days : List Weekday} :
    weekdays items = .ok days ↔ items = days.map fun day => day.name.toList := by
  constructor
  · intro read
    induction items generalizing days with
    | nil =>
      cases read
      rfl
    | cons item items ih =>
      cases named : Weekday.ofName? item with
      | none => simp [weekdays, named, bind, Except.bind] at read
      | some first =>
        obtain rfl := Weekday.ofName?_eq_some_iff.mp named
        rw [weekdays_cons] at read
        cases rest : weekdays items with
        | error fault => simp [rest, Except.map] at read
        | ok others =>
          simp only [rest, Except.map, Except.ok.injEq] at read
          rw [← read, List.map_cons, ← ih rest]
  · rintro rfl
    exact weekdays_names days

theorem onlyItem_eq_ok_iff : onlyItem items = .ok item ↔ items = [item] := by
  match items with
  | [] => simp [onlyItem]
  | [only] => simp [onlyItem]
  | _ :: _ :: _ => simp [onlyItem]

theorem monthly?_eq_some_iff :
    monthly? item = some rule ↔ ArgumentsDenote .monthly [item] rule := by
  simp only [monthly?, Option.bind_eq_bind, Option.bind_eq_some_iff, Text.numeral?_eq_some_iff,
    Rule.onDayOfMonth?_eq_some_iff]
  constructor
  · rintro ⟨day, numeral, bounds, rfl⟩
    exact .dayOfMonth ⟨numeral, bounds⟩
  · intro denote
    cases denote with
    | dayOfMonth isDay => exact ⟨_, isDay.1, isDay.2, rfl⟩

theorem monthly?_nil : monthly? [] = none := rfl

theorem yearly?_nil : yearly? [] = none := rfl

theorem isArgument_of_monthly? (found : monthly? item = some rule) : IsArgument item := by
  cases monthly?_eq_some_iff.mp found with
  | dayOfMonth isDay => exact isDay.1.isArgument

theorem yearly?_parts :
    yearly? item = some rule ↔
      ∃ before after, ('-' ∉ before ∧ item = before ++ '-' :: after) ∧
        ∃ (month : Month) (day : Nat), IsNumeral before month.number ∧ IsNumeral after day ∧
          (1 ≤ day ∧ day ≤ month.longest) ∧ .anniversary month day = rule := by
  simp only [yearly?, Option.bind_eq_bind, Option.bind_eq_some_iff, Prod.exists,
    Text.cutFirst_eq_some_iff, Text.numeral?_eq_some_iff, Month.ofNumber?_eq_some_iff,
    Rule.onAnniversary?_eq_some_iff]
  constructor
  · rintro ⟨before, after, cut, _, isMonth, month, rfl, day, isDay, bounds, built⟩
    exact ⟨before, after, cut, month, day, isMonth, isDay, bounds, built⟩
  · rintro ⟨before, after, cut, month, day, isMonth, isDay, bounds, built⟩
    exact ⟨before, after, cut, _, isMonth, month, rfl, day, isDay, bounds, built⟩

theorem isArgument_of_yearly? (found : yearly? item = some rule) : IsArgument item := by
  obtain ⟨before, after, ⟨_, rfl⟩, month, day, isMonth, isDay, _⟩ := yearly?_parts.mp found
  refine List.forall_mem_append.mpr ⟨isMonth.isArgument, List.forall_mem_cons.mpr ⟨?_, ?_⟩⟩
  · decide
  · exact isDay.isArgument

/-- Where the strict reader has nothing to trim, it takes the same months and days. -/
theorem yearly?_eq_some_iff (argument : IsArgument item) :
    yearly? item = some rule ↔ ArgumentsDenote .yearly [item] rule := by
  rw [yearly?_parts]
  constructor
  · rintro ⟨before, after, ⟨noHyphen, rfl⟩, month, day, isMonth, isDay, bounds, rfl⟩
    exact .anniversary noHyphen isMonth.isArgument.trims isDay.isArgument.trims isMonth isDay
      bounds.1 bounds.2
  · intro denote
    cases denote with
    | @anniversary before after first second month day noHyphen monthTrims dayTrims isMonth isDay
        positive inMonth =>
      obtain ⟨plain, plainRest⟩ := List.forall_mem_append.mp argument
      have plainMonth : IsArgument before := plain
      have plainDay : IsArgument after := (List.forall_mem_cons.mp plainRest).2
      obtain rfl : before = first := plainMonth.trims.unique monthTrims
      obtain rfl : after = second := plainDay.trims.unique dayTrims
      exact ⟨before, after, ⟨noHyphen, rfl⟩, month, day, isMonth, isDay, ⟨positive, inMonth⟩, rfl⟩

/-! ## Columns -/

theorem rule_eq_ok_iff :
    columns.rule = .ok rule ↔ ruleOf columns.items columns.pattern = .ok rule := by
  rw [LegacyColumns.rule]
  cases ruleOf columns.items columns.pattern <;> simp

theorem ruleOf_weekly_eq_ok_iff :
    ruleOf items .weekly = .ok rule ↔
      ∃ days : List Weekday, days ≠ [] ∧ (items = days.map fun day => day.name.toList) ∧
        rule = .weekly .one (.ofList days) := by
  simp only [← weekdays_eq_ok_iff]
  by_cases empty : items = []
  · subst empty
    simp [ruleOf, weekdays_eq_ok_iff, throw, throwThe, MonadExceptOf.throw, bind, Except.bind]
  · cases read : weekdays items with
    | error fault => simp [ruleOf, empty, read, bind, Except.bind]
    | ok days =>
      have named : days ≠ [] := by
        rintro rfl
        exact empty (weekdays_eq_ok_iff.mp read)
      simp [ruleOf, empty, read, named, bind, Except.bind, pure, Except.pure, eq_comm]

/-- A reader of items reads a list of one item only. -/
theorem ruleOf_onlyItem {read? : List Char → Option Rule} {fault : List Char → Fault} :
    (do
      let item ← onlyItem items
      match read? item with
      | some rule => return rule
      | none => throw (fault item)) = Except.ok rule ↔
      ∃ item, items = [item] ∧ read? item = some rule := by
  simp only [← onlyItem_eq_ok_iff]
  cases only : onlyItem items with
  | error fault => simp [bind, Except.bind]
  | ok item =>
    cases found : read? item <;>
      simp [found, bind, Except.bind, pure, Except.pure, throw, throwThe, MonadExceptOf.throw]

theorem ruleOf_monthly_eq_ok_iff :
    ruleOf items .monthly = .ok rule ↔ ∃ item, items = [item] ∧ monthly? item = some rule :=
  ruleOf_onlyItem

theorem ruleOf_yearly_eq_ok_iff :
    ruleOf items .yearly = .ok rule ↔ ∃ item, items = [item] ∧ yearly? item = some rule :=
  ruleOf_onlyItem

/-- A text without blanks and commas is the only item of the list that it makes. -/
theorem items_of_plain {item : String} {pattern : LegacyPattern} (nonempty : item.toList ≠ [])
    (argument : IsArgument item.toList) (noComma : ',' ∉ item.toList) :
    LegacyColumns.items { pattern, config := some item } = [item.toList] := by
  simp [LegacyColumns.items, Text.splitOn_of_not_mem noComma, Text.trim_eq_of_trims argument.trims,
    nonempty]

theorem ofList_ne_empty {days : List Weekday} (nonempty : days ≠ []) :
    WeekdaySet.ofList days ≠ ∅ := by
  obtain ⟨day, member⟩ := List.exists_mem_of_ne_nil days nonempty
  exact WeekdaySet.ne_empty_of_mem (WeekdaySet.mem_ofList.mpr member)

theorem isSound_of_ruleOf {pattern : LegacyPattern} (built : ruleOf items pattern = .ok rule) :
    rule.IsSound := by
  cases pattern with
  | daily =>
    cases built
    trivial
  | weekly =>
    obtain ⟨days, nonempty, _, rfl⟩ := ruleOf_weekly_eq_ok_iff.mp built
    exact ofList_ne_empty nonempty
  | monthly =>
    obtain ⟨item, _, found⟩ := ruleOf_monthly_eq_ok_iff.mp built
    exact Pattern.isSound_of_argumentsDenote (monthly?_eq_some_iff.mp found)
  | yearly =>
    obtain ⟨item, _, found⟩ := ruleOf_yearly_eq_ok_iff.mp built
    have argument := isArgument_of_yearly? found
    exact Pattern.isSound_of_argumentsDenote ((yearly?_eq_some_iff argument).mp found)

/-! ## Imported rules as patterns -/

theorem parseStrict_of_weekly (imported : ruleOf items .weekly = .ok rule) {days : List Weekday}
    (listed : ∀ day, day ∈ days ↔ day.name.toList ∈ items) :
    Rule.parseStrict ("WEEKLY:1:" ++
      String.intercalate "," (days.map fun day => toString day.number)) = .ok rule := by
  obtain ⟨named, nonempty, rfl, rfl⟩ := ruleOf_weekly_eq_ok_iff.mp imported
  have same : ∀ day, day ∈ days ↔ day ∈ named := fun day => by
    rw [listed, List.mem_map_of_injective Weekday.name_injective]
  apply Rule.parseStrict_weekly
  · rintro rfl
    simp only [List.not_mem_nil, false_iff] at same
    exact nonempty (List.eq_nil_iff_forall_not_mem.mpr same)
  · exact fun day => WeekdaySet.mem_ofList.trans (same day).symm

theorem parseStrict_of_monthly (imported : ruleOf items .monthly = .ok rule) :
    ∃ item : String, items = [item.toList] ∧ Rule.parseStrict ("MONTHLY:" ++ item) = .ok rule := by
  obtain ⟨item, rfl, found⟩ := ruleOf_monthly_eq_ok_iff.mp imported
  refine ⟨.ofList item, by rw [String.toList_ofList], ?_⟩
  rw [Rule.parseStrict_monthly] <;> rw [String.toList_ofList]
  · exact monthly?_eq_some_iff.mp found
  · exact isArgument_of_monthly? found

theorem parseStrict_of_yearly (imported : ruleOf items .yearly = .ok rule) :
    ∃ item : String, items = [item.toList] ∧ Rule.parseStrict ("YEARLY:" ++ item) = .ok rule := by
  obtain ⟨item, rfl, found⟩ := ruleOf_yearly_eq_ok_iff.mp imported
  have argument := isArgument_of_yearly? found
  refine ⟨.ofList item, by rw [String.toList_ofList], ?_⟩
  rw [Rule.parseStrict_yearly] <;> rw [String.toList_ofList]
  · exact (yearly?_eq_some_iff argument).mp found
  · exact argument

/-- The importer and the strict reader of patterns agree.  The reader takes a rule that was imported
back from its pattern, and from the imported columns written as a pattern: the only item for a
monthly or a yearly rule, and the numbers of the named weekdays in any order for a weekly one.  The
other way round, an item without blanks, colons and commas that the reader takes as the argument of
a monthly or a yearly pattern is imported as the same rule. -/
theorem import_agrees :
    (∀ (columns : LegacyColumns) rule, columns.rule = .ok rule →
      Rule.parseStrict rule.pattern = .ok rule ∧
      match columns.pattern with
      | .daily => True
      | .weekly => ∀ days : List Weekday,
        (∀ day, day ∈ days ↔ day.name.toList ∈ columns.items) →
          Rule.parseStrict ("WEEKLY:1:" ++
            String.intercalate "," (days.map fun day => toString day.number)) = .ok rule
      | .monthly => ∃ item : String, columns.items = [item.toList] ∧
        Rule.parseStrict ("MONTHLY:" ++ item) = .ok rule
      | .yearly => ∃ item : String, columns.items = [item.toList] ∧
        Rule.parseStrict ("YEARLY:" ++ item) = .ok rule) ∧
    ∀ (item : String) rule, (∀ c ∈ item.toList, c ≠ ':' ∧ c ≠ ',' ∧ isBlank c = false) →
      (Rule.parseStrict ("MONTHLY:" ++ item) = .ok rule →
        LegacyColumns.rule { pattern := .monthly, config := some item } = .ok rule) ∧
      (Rule.parseStrict ("YEARLY:" ++ item) = .ok rule →
        LegacyColumns.rule { pattern := .yearly, config := some item } = .ok rule) := by
  constructor
  · intro columns rule imported
    rw [rule_eq_ok_iff] at imported
    refine ⟨Rule.parseStrict_pattern_of_isSound (isSound_of_ruleOf imported), ?_⟩
    cases pattern : columns.pattern with
    | daily => trivial
    | weekly => exact fun days => parseStrict_of_weekly (pattern ▸ imported)
    | monthly => exact parseStrict_of_monthly (pattern ▸ imported)
    | yearly => exact parseStrict_of_yearly (pattern ▸ imported)
  · intro item rule plain
    have argument : IsArgument item.toList := fun c member =>
      ⟨(plain c member).2.2, (plain c member).1⟩
    have noComma : ',' ∉ item.toList := fun member => (plain ',' member).2.1 rfl
    rw [Rule.parseStrict_monthly argument, Rule.parseStrict_yearly argument,
      ← monthly?_eq_some_iff, ← yearly?_eq_some_iff argument]
    constructor
    · intro found
      have nonempty : item.toList ≠ [] := fun empty => by simp [empty, monthly?_nil] at found
      rw [rule_eq_ok_iff, items_of_plain nonempty argument noComma]
      exact ruleOf_monthly_eq_ok_iff.mpr ⟨_, rfl, found⟩
    · intro found
      have nonempty : item.toList ≠ [] := fun empty => by simp [empty, yearly?_nil] at found
      rw [rule_eq_ok_iff, items_of_plain nonempty argument noComma]
      exact ruleOf_yearly_eq_ok_iff.mpr ⟨_, rfl, found⟩

/-- The leap day with a sign and a zero in front. -/
theorem import_leapDay :
    LegacyColumns.rule { pattern := .yearly, config := some " ,+02-29," } =
        .ok (.anniversary .february 29) ∧
      Rule.parseStrict "YEARLY:2-29" = .ok (.anniversary .february 29) ∧
      LegacyColumns.rule { pattern := .yearly, config := some "+02-29" } =
        .ok (.anniversary .february 29) := by
  have imported : LegacyColumns.rule { pattern := .yearly, config := some " ,+02-29," } =
      .ok (.anniversary .february 29) := by rfl
  have accepted : Rule.parseStrict "YEARLY:+02-29" = .ok (.anniversary .february 29) := by rfl
  have plain : ∀ c ∈ "+02-29".toList, c ≠ ':' ∧ c ≠ ',' ∧ isBlank c = false := by
    simp
    decide
  exact ⟨imported, (import_agrees.1 _ _ imported).1, (import_agrees.2 "+02-29" _ plain).2 accepted⟩

end LegacyColumns

end Cadence
