import Cadence.Proofs.Legacy.Columns

/-!
# Which columns are rules

The legacy columns that the importer accepts, said without it.  `HasItems` takes the items out of
the list, `ItemsDenote` says for which rule they stand under a pattern, and `ItemsFail` names the
first fault of items that stand for none.

A list of weekdays is told by its members alone, so neither their order nor their number counts, and
blank pieces are no items at all.  A date has to be the only item, and nothing in it is trimmed:
numerals have no blanks, so there are none around its hyphen.
-/

namespace Cadence

namespace LegacyColumns

open Text (IsNumeral Divides)
open Pattern (IsDayOfMonth)

variable {columns : LegacyColumns} {pattern : LegacyPattern} {items : List (List Char)}
  {rule : Rule} {fault : Fault}

/-! ## The grammar -/

/-- The items of a list: its pieces between commas, trimmed, without the ones that were blank.  A
list that is left out has none. -/
inductive HasItems : Option String → List (List Char) → Prop where
  | absent : HasItems none []
  | listed {list : String} {pieces : List (List Char)} (divides : Divides ',' list.toList pieces) :
      HasItems (some list) (pieces.filter (· ≠ []))

/-- The text is the English name of a weekday. -/
def IsWeekdayName (text : List Char) : Prop := ∃ day : Weekday, text = day.name.toList

/-- The items denote the rule. -/
inductive ItemsDenote : LegacyPattern → List (List Char) → Rule → Prop where
  | daily {items : List (List Char)} : ItemsDenote .daily items (.daily .one)
  | weekly {items : List (List Char)} {days : WeekdaySet} (nonempty : items ≠ [])
      (named : ∀ item ∈ items, IsWeekdayName item)
      (members : ∀ day, day ∈ days ↔ day.name.toList ∈ items) :
      ItemsDenote .weekly items (.weekly .one days)
  | monthly {item : List Char} {day : Nat} (isDay : IsDayOfMonth item day) :
      ItemsDenote .monthly [item] (.dayOfMonth day)
  | yearly {before after : List Char} {month : Month} {day : Nat} (noHyphen : '-' ∉ before)
      (isMonth : IsNumeral before month.number) (isDay : IsNumeral after day) (positive : 1 ≤ day)
      (inMonth : day ≤ month.longest) :
      ItemsDenote .yearly [before ++ '-' :: after] (.anniversary month day)

/-- The first fault of items that denote no rule. -/
inductive ItemsFail : LegacyPattern → List (List Char) → Fault → Prop where
  | noItems {pattern : LegacyPattern} (looked : pattern ≠ .daily) :
      ItemsFail pattern [] .missingList
  | weekdayName {before after : List (List Char)} {item : List Char}
      (named : ∀ name ∈ before, IsWeekdayName name) (unnamed : ¬ IsWeekdayName item) :
      ItemsFail .weekly (before ++ item :: after) (.invalidWeekdayName (.ofList item))
  -- How many dates there are is looked at before what they are.
  | severalDates {pattern : LegacyPattern} {items : List (List Char)}
      (dated : pattern = .monthly ∨ pattern = .yearly) (several : 2 ≤ items.length) :
      ItemsFail pattern items (.severalDates items.length)
  | dayOfMonth {item : List Char} (faulty : ∀ day, ¬ IsDayOfMonth item day) :
      ItemsFail .monthly [item] (.invalidField .dayOfMonth (.ofList item))
  | monthDay {item : List Char} (faulty : ∀ rule, ¬ ItemsDenote .yearly [item] rule) :
      ItemsFail .yearly [item] (.invalidMonthDay (.ofList item))

/-! ## Items -/

theorem hasItems_iff : HasItems columns.config items ↔ columns.items = items := by
  obtain ⟨pattern, config⟩ := columns
  cases config with
  | none =>
    have none : LegacyColumns.items { pattern, config := none } = [] := rfl
    rw [none]
    constructor
    · rintro ⟨⟩
      rfl
    · rintro rfl
      exact .absent
  | some list =>
    constructor
    · intro has
      cases has with
      | listed divides =>
        rw [LegacyColumns.items, ← Text.divides_iff.mp divides]
        rfl
    · rintro rfl
      exact .listed (Text.divides_iff.mpr rfl)

theorem isWeekdayName_iff {text : List Char} :
    IsWeekdayName text ↔ ∃ day, Weekday.ofName? text = some day := by
  simp only [IsWeekdayName, Weekday.ofName?_eq_some_iff]

/-- Names of weekdays are the names of the weekdays of a list, by induction on them. -/
theorem exists_weekdays (named : ∀ item ∈ items, IsWeekdayName item) :
    ∃ days : List Weekday, items = days.map fun day => day.name.toList := by
  induction items with
  | nil => exact ⟨[], rfl⟩
  | cons item items ih =>
    rw [List.forall_mem_cons] at named
    obtain ⟨day, rfl⟩ := named.1
    obtain ⟨days, rfl⟩ := ih named.2
    exact ⟨day :: days, rfl⟩

/-- The weekdays are read up to the first item that names none. -/
theorem weekdays_eq_error {before after : List (List Char)} {item : List Char}
    (named : ∀ name ∈ before, IsWeekdayName name) (unnamed : ¬ IsWeekdayName item) :
    weekdays (before ++ item :: after) = .error (.invalidWeekdayName (.ofList item)) := by
  obtain ⟨days, rfl⟩ := exists_weekdays named
  have unread : Weekday.ofName? item = none :=
    Option.eq_none_iff_forall_ne_some.mpr fun day found =>
      unnamed (isWeekdayName_iff.mpr ⟨day, found⟩)
  induction days with
  | nil => simp [weekdays, unread, bind, Except.bind]
  | cons day days ih =>
    rw [List.forall_mem_map] at named
    rw [List.map_cons, List.cons_append, weekdays_cons, ih]
    · rfl
    · exact List.forall_mem_map.mpr fun other member => ⟨other, rfl⟩

theorem yearly?_iff_itemsDenote {item : List Char} :
    yearly? item = some rule ↔ ItemsDenote .yearly [item] rule := by
  rw [yearly?_parts]
  constructor
  · rintro ⟨before, after, ⟨noHyphen, rfl⟩, month, day, isMonth, isDay, ⟨positive, inMonth⟩, rfl⟩
    exact .yearly noHyphen isMonth isDay positive inMonth
  · intro denote
    cases denote with
    | yearly noHyphen isMonth isDay positive inMonth =>
      exact ⟨_, _, ⟨noHyphen, rfl⟩, _, _, isMonth, isDay, ⟨positive, inMonth⟩, rfl⟩

/-! ## The importer -/

theorem ruleOf_of_denote (denote : ItemsDenote pattern items rule) :
    ruleOf items pattern = .ok rule := by
  cases denote with
  | daily => rfl
  | weekly nonempty named members =>
    obtain ⟨listed, rfl⟩ := exists_weekdays named
    have same : _ = WeekdaySet.ofList listed := WeekdaySet.ext fun day => by
      rw [members, Weekday.name_mem_map, WeekdaySet.mem_ofList]
    exact ruleOf_weekly_eq_ok_iff.mpr ⟨listed, by simpa using nonempty, rfl, by rw [same]⟩
  | monthly isDay =>
    exact ruleOf_monthly_eq_ok_iff.mpr ⟨_, rfl, monthly?_eq_some_iff.mpr (.dayOfMonth isDay)⟩
  | yearly noHyphen isMonth isDay positive inMonth =>
    exact ruleOf_yearly_eq_ok_iff.mpr
      ⟨_, rfl, yearly?_iff_itemsDenote.mpr (.yearly noHyphen isMonth isDay positive inMonth)⟩

theorem ruleOf_of_fail (fail : ItemsFail pattern items fault) :
    ruleOf items pattern = .error fault := by
  cases fail with
  | noItems looked =>
    cases pattern with
    | daily => contradiction
    | weekly | monthly | yearly => rfl
  | weekdayName named unnamed =>
    simp [ruleOf, weekdays_eq_error named unnamed, bind, Except.bind]
  | severalDates dated several =>
    rcases items with _ | ⟨first, _ | ⟨second, rest⟩⟩
    · contradiction
    · contradiction
    · rcases dated with rfl | rfl <;> rfl
  | @dayOfMonth item faulty =>
    have unread : monthly? item = none := Option.eq_none_iff_forall_ne_some.mpr fun rule found => by
      cases monthly?_eq_some_iff.mp found with
      | dayOfMonth isDay => exact faulty _ isDay
    simp [ruleOf, onlyItem, unread, bind, Except.bind, throw, throwThe, MonadExceptOf.throw]
  | @monthDay item faulty =>
    have unread : yearly? item = none := Option.eq_none_iff_forall_ne_some.mpr fun rule found =>
      faulty rule (yearly?_iff_itemsDenote.mp found)
    simp [ruleOf, onlyItem, unread, bind, Except.bind, throw, throwThe, MonadExceptOf.throw]

theorem date_denotes_or_fails {item : List Char} (dated : pattern = .monthly ∨ pattern = .yearly) :
    (∃ rule, ItemsDenote pattern [item] rule) ∨ ∃ fault, ItemsFail pattern [item] fault := by
  rcases dated with rfl | rfl
  · by_cases valid : ∃ day, IsDayOfMonth item day
    · obtain ⟨day, isDay⟩ := valid
      exact .inl ⟨_, .monthly isDay⟩
    · exact .inr ⟨_, .dayOfMonth (not_exists.mp valid)⟩
  · by_cases valid : ∃ rule, ItemsDenote .yearly [item] rule
    · exact .inl valid
    · exact .inr ⟨_, .monthDay (not_exists.mp valid)⟩

theorem dates_denote_or_fail (dated : pattern = .monthly ∨ pattern = .yearly) :
    (∃ rule, ItemsDenote pattern items rule) ∨ ∃ fault, ItemsFail pattern items fault := by
  match items with
  | [] => exact .inr ⟨_, .noItems (by rintro rfl; simp at dated)⟩
  | [item] => exact date_denotes_or_fails dated
  | _ :: _ :: _ => exact .inr ⟨_, .severalDates dated (by simp)⟩

theorem names_denote_or_fail :
    (∃ rule, ItemsDenote .weekly items rule) ∨ ∃ fault, ItemsFail .weekly items fault := by
  by_cases empty : items = []
  · subst empty
    exact .inr ⟨_, .noItems (by decide)⟩
  · rcases Text.all_or_first_not IsWeekdayName items with named | ⟨before, item, after, rfl, first⟩
    · obtain ⟨listed, rfl⟩ := exists_weekdays named
      have members : ∀ day, day ∈ WeekdaySet.ofList listed ↔
          day.name.toList ∈ listed.map fun day => day.name.toList := fun day => by
        rw [WeekdaySet.mem_ofList, Weekday.name_mem_map]
      exact .inl ⟨_, .weekly empty named members⟩
    · exact .inr ⟨_, .weekdayName first.1 first.2⟩

theorem denote_or_fail (pattern : LegacyPattern) (items : List (List Char)) :
    (∃ rule, ItemsDenote pattern items rule) ∨ ∃ fault, ItemsFail pattern items fault := by
  cases pattern with
  | daily => exact .inl ⟨_, .daily⟩
  | weekly => exact names_denote_or_fail
  | monthly => exact dates_denote_or_fail (.inl rfl)
  | yearly => exact dates_denote_or_fail (.inr rfl)

theorem itemsDenote_iff : ItemsDenote pattern items rule ↔ ruleOf items pattern = .ok rule := by
  constructor
  · exact ruleOf_of_denote
  · intro imported
    rcases denote_or_fail pattern items with ⟨other, denote⟩ | ⟨fault, fail⟩
    · obtain rfl := Except.ok.inj (imported.symm.trans (ruleOf_of_denote denote))
      exact denote
    · rw [ruleOf_of_fail fail] at imported
      contradiction

theorem itemsFail_iff : ItemsFail pattern items fault ↔ ruleOf items pattern = .error fault := by
  constructor
  · exact ruleOf_of_fail
  · intro refused
    rcases denote_or_fail pattern items with ⟨rule, denote⟩ | ⟨other, fail⟩
    · rw [ruleOf_of_denote denote] at refused
      contradiction
    · obtain rfl := Except.error.inj (refused.symm.trans (ruleOf_of_fail fail))
      exact fail

theorem rule_eq_error_iff {error : Malformed} :
    columns.rule = .error error ↔
      error.input = columns.input ∧ ruleOf columns.items columns.pattern = .error error.fault := by
  obtain ⟨fault, input⟩ := error
  rw [LegacyColumns.rule]
  cases ruleOf columns.items columns.pattern <;> simp [and_comm, eq_comm]

/-- A list of weekdays stands for the rule that every list of the same ones stands for. -/
theorem ItemsDenote.of_members {others : List (List Char)} (denote : ItemsDenote .weekly items rule)
    (same : ∀ item, item ∈ others ↔ item ∈ items) : ItemsDenote .weekly others rule := by
  cases denote with
  | weekly nonempty named members =>
    refine .weekly ?_ (fun item member => named item ((same item).mp member)) fun day => ?_
    · obtain ⟨item, member⟩ := List.exists_mem_of_ne_nil items nonempty
      exact List.ne_nil_of_mem ((same item).mpr member)
    · rw [members, same]

/-- The importer accepts the columns whose items denote a rule and no others, each for that rule.
It refuses any other columns with the first fault of their items, whose reason reads as it is
written out, and with the name of the pattern and the list as they were given.  Which rule a list of
weekdays stands for depends on its members alone: not on their order, on how often each is named or
on blank pieces between them. -/
theorem import_exact :
    (∀ columns : LegacyColumns, ∃ items, HasItems columns.config items ∧
      (∀ rule, columns.rule = .ok rule ↔ ItemsDenote columns.pattern items rule) ∧
      ∀ error, columns.rule = .error error ↔
        (error.input =
          match columns.config with
          | none => columns.pattern.name
          | some list => columns.pattern.name ++ ":" ++ list) ∧
        ItemsFail columns.pattern items error.fault ∧
        error.fault.Reads error.fault.reason) ∧
    ∀ list other items others, HasItems list items → HasItems other others →
      (∀ item, item ∈ others ↔ item ∈ items) → ∀ rule,
      LegacyColumns.rule { pattern := .weekly, config := list } = .ok rule ↔
        LegacyColumns.rule { pattern := .weekly, config := other } = .ok rule := by
  constructor
  · intro columns
    refine ⟨columns.items, hasItems_iff.mpr rfl, ?_, ?_⟩
    · intro rule
      rw [rule_eq_ok_iff, itemsDenote_iff]
    · intro error
      rw [rule_eq_error_iff, itemsFail_iff, and_iff_left (Fault.reads_iff.mpr rfl)]
      rfl
  · intro list other items others has otherHas same rule
    have first := @hasItems_iff { pattern := .weekly, config := list } items
    have second := @hasItems_iff { pattern := .weekly, config := other } others
    rw [rule_eq_ok_iff, rule_eq_ok_iff, first.mp has, second.mp otherHas, ← itemsDenote_iff,
      ← itemsDenote_iff]
    exact ⟨fun denote => denote.of_members same, fun denote => denote.of_members fun item =>
      (same item).symm⟩

/-- The same two weekdays, in order and out of it with one of them twice and a blank piece. -/
theorem import_reordered :
    LegacyColumns.rule { pattern := .weekly, config := some "Monday,Friday" } =
        .ok (.weekly .one (.ofNumbers [1, 5])) ∧
      LegacyColumns.rule { pattern := .weekly, config := some " Friday,, Monday\t,Friday" } =
        .ok (.weekly .one (.ofNumbers [1, 5])) := by
  have same : ∀ monday friday item : List Char,
      item ∈ [friday, monday, friday] ↔ item ∈ [monday, friday] := by
    intro monday friday item
    simp only [List.mem_cons]
    tauto
  have plain : LegacyColumns.rule { pattern := .weekly, config := some "Monday,Friday" } =
      .ok (.weekly .one (.ofNumbers [1, 5])) := by rfl
  have items := @hasItems_iff { pattern := .weekly, config := some "Monday,Friday" }
    (["Monday", "Friday"].map String.toList)
  have others := @hasItems_iff { pattern := .weekly, config := some " Friday,, Monday\t,Friday" }
    (["Friday", "Monday", "Friday"].map String.toList)
  exact ⟨plain, (import_exact.2 _ _ _ _ (items.mpr (by rfl)) (others.mpr (by rfl))
    (same "Monday".toList "Friday".toList) _).mp plain⟩

end LegacyColumns

end Cadence
