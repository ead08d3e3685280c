import Cadence.Rule.Reading
import Cadence.Text.Blank
import Cadence.Text.Separator

/-!
# Patterns

The text form of a rule: a keyword and its arguments, divided by colons.

    DAILY[:interval]
    WEEKDAYS
    WEEKLY:interval:day[,day...]     days 1 to 7, Monday first
    MONTHLY:day                      one argument: by date
    MONTHLY:ordinal:weekday          two arguments: by weekday, ordinal 5 is the last
    YEARLY:month-day

* `Rule.pattern` writes the canonical pattern: capitals, no blanks, weekdays ascending, and no
  interval for a rule that fires every day.
* `Pattern.read` reads any text.  Blanks around a part and the case of the keyword do not count.
  A faulty part is replaced by its default, with the fault noted.
* `Rule.parse`, `Rule.parseStrict` and `Rule.parseWith` settle the reading by a policy, and
  `Rule.normalize` and `Rule.normalizeWith` write the rule back.
-/

namespace Cadence

namespace Rule

/-- The arguments of the canonical pattern. -/
def patternArguments : Rule → List String
  | .daily interval => if interval = .one then [] else [toString interval.value]
  | .weekdays => []
  | .weekly interval days =>
    [toString interval.value, String.intercalate "," (days.numbers.map toString)]
  | .dayOfMonth day => [toString day]
  | .weekdayOfMonth ordinal weekday => [toString ordinal.number, toString weekday.number]
  | .anniversary month day => [toString month.number ++ "-" ++ toString day]

def pattern (rule : Rule) : String :=
  String.intercalate ":" (rule.keyword.text :: rule.patternArguments)

end Rule

/-- The keyword that a word spells, in capitals or not. -/
def Keyword.ofWord? (word : List Char) : Option Keyword :=
  all.find? fun keyword => keyword.text.toList == Text.toUpper word

namespace Pattern

/-- Notes a fault if there are more arguments than the keyword takes. -/
def checkArguments (keyword : Keyword) (limit : Nat) (arguments : List (List Char)) :
    Reading Unit :=
  .note (limit < arguments.length) (.tooManyArguments keyword limit arguments.length)

/-- A field with the value that it was found to have, or else its default. -/
def readField {α : Type} (field : PatternField) (text : List Char) (found : Option α)
    (default : α) : Reading α :=
  .orStandIn found (.invalidField field (.ofList text)) default

/-- An interval; one if it is left out. -/
def readInterval : Option (List Char) → Reading Count
  | none => pure .one
  | some text => readField .interval text (Count.read? text) .one

def readDayOfMonth (text : List Char) : Reading Nat :=
  let found := (Text.numeral? text).filter fun day => 1 ≤ day && day ≤ Rule.longestMonth
  readField .dayOfMonth text found 1

/-- The days of a list, each item added to those before it.  An item that is no weekday adds
none. -/
def readDays (days : WeekdaySet) : List (List Char) → Reading WeekdaySet
  | [] => pure days
  | item :: items => do
    let found := Text.numeral? item >>= Weekday.ofNumber?
    let days ← readField .weekday item (found.map days.insert) days
    readDays days items

/-- The day list of a weekly pattern; Monday if it names no day. -/
def readDayList : Option (List Char) → Reading WeekdaySet
  | none | some [] => .standIn .missingDayList (.single .monday)
  | some text => do
    let days ← readDays ∅ ((text.splitOn ',').map Text.trim)
    return days.orSingle .monday

def readDaily (arguments : List (List Char)) : Reading Rule := do
  checkArguments .daily 1 arguments
  return .daily (← readInterval arguments[0]?)

def readWeekdays (arguments : List (List Char)) : Reading Rule := do
  checkArguments .weekdays 0 arguments
  return .weekdays

def readWeekly (arguments : List (List Char)) : Reading Rule := do
  checkArguments .weekly 2 arguments
  let interval ← readInterval arguments[0]?
  let days ← readDayList arguments[1]?
  return .weekly interval days

/-- The arguments of a monthly pattern, whose number alone decides between its two forms. -/
def readMonthly : List (List Char) → Reading Rule
  | [] => .standIn .missingDayOfMonth (.dayOfMonth 1)
  | [day] => return .dayOfMonth (← readDayOfMonth day)
  | ordinal :: weekday :: more => do
    -- Surplus arguments are noted here alone: without two arguments there are none.
    checkArguments .monthly 2 (ordinal :: weekday :: more)
    let ordinal ← readField .ordinal ordinal (Text.numeral? ordinal >>= Ordinal.ofNumber?) .first
    let weekday ← readField .weekday weekday (Text.numeral? weekday >>= Weekday.ofNumber?) .monday
    return .weekdayOfMonth ordinal weekday

/-- The arguments of a yearly pattern: a month and a day, cut at the first hyphen. -/
def readYearly : List (List Char) → Reading Rule
  | [] => .standIn .missingMonthDay (.anniversary .january 1)
  | date :: more => do
    checkArguments .yearly 1 (date :: more)
    -- Without a hyphen it is the day that is missing.
    let (month, day) := (Text.cutFirst '-' date).getD (date, [])
    let found := Text.numeral? (Text.trim month) >>= Month.ofNumber?
    let month ← readField .month month found .january
    let day ← readDayOfMonth (Text.trim day)
    -- The lenient reader keeps such a day: the rule is then one that never fires.
    .note (month.longest < day) (.impossibleDay month day)
    return .anniversary month day

/-- The arguments of a pattern, by its keyword. -/
def readArguments : Keyword → List (List Char) → Reading Rule
  | .daily => readDaily
  | .weekdays => readWeekdays
  | .weekly => readWeekly
  | .monthly => readMonthly
  | .yearly => readYearly

/-- The parts of a pattern: the whole trimmed, cut at every colon, and each part trimmed. -/
def parts (text : List Char) : List (List Char) :=
  ((Text.trim text).splitOn ':').map Text.trim

/-- Reads any text as a pattern; one without a keyword fires every day. -/
def read (text : List Char) : Reading Rule :=
  if Text.trim text = [] then .standIn .emptyPattern .everyDay
  else
    match parts text with
    | [] => .standIn .emptyPattern .everyDay
    | word :: arguments =>
      match Keyword.ofWord? word with
      | some keyword => readArguments keyword arguments
      | none => .standIn (.unknownKeyword (.ofList word)) .everyDay

end Pattern

namespace Rule

/-- Reads a pattern under a policy.  The lenient policy never refuses. -/
def parseWith (policy : Policy) (text : String) : Except Malformed Rule :=
  (Pattern.read text.toList).settle policy text

/-- Reads a pattern, with a default for each faulty part. -/
def parse (text : String) : Rule := (Pattern.read text.toList).value

/-- Reads a well-formed pattern. -/
def parseStrict (text : String) : Except Malformed Rule := parseWith .strict text

/-- The canonical pattern of whatever rule the text is read as. -/
def normalize (text : String) : String := (parse text).pattern

/-- The canonical pattern of the rule that the text is read as under a policy. -/
def normalizeWith (policy : Policy) (text : String) : Except Malformed String :=
  (parseWith policy text).map pattern

end Rule

end Cadence
