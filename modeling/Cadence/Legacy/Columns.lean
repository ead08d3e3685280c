import Cadence.Rule.Pattern

/-!
# Legacy columns

Older stores kept a recurrence as two columns: the name of a pattern, and a list of values divided
by commas.  `LegacyColumns.rule` converts the columns into a rule.  A row holds one rule, so a list
that would need several is refused, and so is a list with any faulty value.

    daily      the list is not looked at
    weekly     weekday names, as in `Monday,Friday`
    monthly    one day of the month
    yearly     one month and day, as in `12-25`
-/

namespace Cadence

inductive LegacyPattern where
  | daily
  | weekly
  | monthly
  | yearly
deriving DecidableEq, Repr

/-- A text that was refused as the name of a legacy pattern. -/
structure LegacyPatternFault where
  name : String
deriving DecidableEq, Repr

def LegacyPatternFault.message (fault : LegacyPatternFault) : String :=
  s!"Invalid recurrence pattern '{fault.name}'. Valid options are: daily, weekly, monthly, yearly"

namespace LegacyPattern

def all : List LegacyPattern := [.daily, .weekly, .monthly, .yearly]

def name : LegacyPattern → String
  | .daily => "daily"
  | .weekly => "weekly"
  | .monthly => "monthly"
  | .yearly => "yearly"

/-- The pattern with exactly the given name. -/
def ofName? (name : List Char) : Option LegacyPattern :=
  all.find? fun pattern => pattern.name.toList == name

/-- Reads a name, with any blanks around it. -/
def parse (text : String) : Except LegacyPatternFault LegacyPattern :=
  let name := Text.trim text.toList
  match ofName? name with
  | some pattern => .ok pattern
  | none => .error ⟨.ofList name⟩

end LegacyPattern

structure LegacyColumns where
  pattern : LegacyPattern
  config : Option String := none
deriving DecidableEq, Repr

namespace LegacyColumns

/-- The columns as one text. -/
def input (columns : LegacyColumns) : String :=
  match columns.config with
  | none => columns.pattern.name
  | some config => columns.pattern.name ++ ":" ++ config

/-- The values of the list: its pieces, trimmed, without the blank ones. -/
def items (columns : LegacyColumns) : List (List Char) :=
  (((columns.config.getD "").toList.splitOn ',').map Text.trim).filter (· ≠ [])

/-- The weekdays that the items name. -/
def weekdays (items : List (List Char)) : Except Fault (List Weekday) :=
  items.mapM fun item =>
    match Weekday.ofName? item with
    | some day => .ok day
    | none => .error (.invalidWeekdayName (.ofList item))

/-- The only item of the list. -/
def onlyItem : List (List Char) → Except Fault (List Char)
  | [] => .error .missingList
  | [item] => .ok item
  | items => .error (.severalDates items.length)

/-- The monthly rule of an item. -/
def monthly? (item : List Char) : Option Rule := do
  Rule.onDayOfMonth? (← Text.numeral? item)

/-- The yearly rule of an item: a month and a day, cut at the first hyphen. -/
def yearly? (item : List Char) : Option Rule := do
  let (month, day) ← Text.cutFirst '-' item
  let month ← Month.ofNumber? (← Text.numeral? month)
  Rule.onAnniversary? month (← Text.numeral? day)

/-- The rule of a pattern with the given items. -/
def ruleOf (items : List (List Char)) : LegacyPattern → Except Fault Rule
  | .daily => .ok .everyDay
  | .weekly => do
    -- The list has to name a day, so the set that comes of it is not empty.
    if items = [] then throw .missingList
    return .weekly .one (.ofList (← weekdays items))
  | .monthly => do
    let item ← onlyItem items
    match monthly? item with
    | some rule => return rule
    | none => throw (.invalidField .dayOfMonth (.ofList item))
  | .yearly => do
    let item ← onlyItem items
    match yearly? item with
    | some rule => return rule
    | none => throw (.invalidMonthDay (.ofList item))

def rule (columns : LegacyColumns) : Except Malformed Rule :=
  match ruleOf columns.items columns.pattern with
  | .ok rule => .ok rule
  | .error fault => .error { fault, input := columns.input }

end LegacyColumns

end Cadence
