import Cadence.Rule.Basic

/-!
# Faults in recurrence texts

Why a text was refused as a rule.  A fault names its cause; `Fault.reason` is the only place with
its wording, and `Malformed` adds the text exactly as it was given.
-/

namespace Cadence

inductive PatternField where
  | interval
  | weekday
  | ordinal
  | dayOfMonth
  | month
deriving DecidableEq, Repr

/-- The name of the field in messages. -/
def PatternField.label : PatternField → String
  | .interval => "interval"
  | .weekday => "weekday"
  | .ordinal => "ordinal"
  | .dayOfMonth => "day of month"
  | .month => "month"

/-- Why a text is no well-formed rule. -/
inductive Fault where
  /-- The pattern holds blanks at most. -/
  | emptyPattern
  /-- No pattern starts with this word. -/
  | unknownKeyword (word : String)
  /-- The pattern has more arguments than its keyword takes. -/
  | tooManyArguments (keyword : Keyword) (limit given : Nat)
  /-- A field holds no number in its range. -/
  | invalidField (field : PatternField) (text : String)
  /-- A weekly pattern names no days. -/
  | missingDayList
  /-- A monthly pattern has no argument. -/
  | missingDayOfMonth
  /-- A yearly pattern has no argument. -/
  | missingMonthDay
  /-- The month never has that day. -/
  | impossibleDay (month : Month) (day : Nat)
  /-- The legacy columns list no day. -/
  | missingList
  /-- The legacy columns list several dates. -/
  | severalDates (listed : Nat)
  /-- The legacy columns list a word that names no weekday. -/
  | invalidWeekdayName (text : String)
  /-- The legacy columns list a text that is no month and day. -/
  | invalidMonthDay (text : String)
deriving DecidableEq, Repr

def Fault.reason : Fault → String
  | .emptyPattern => "empty pattern"
  | .unknownKeyword word => s!"unknown keyword '{word}'"
  | .tooManyArguments keyword limit given =>
    s!"{keyword.text} takes at most {limit} argument(s), got {given}"
  | .invalidField field text => s!"invalid {field.label} '{text}'"
  | .missingDayList => "missing day list"
  | .missingDayOfMonth => "missing day of month"
  | .missingMonthDay => "missing month-day"
  | .impossibleDay month day => s!"{month.name} has no day {day}"
  | .missingList => "missing recurrence config"
  | .severalDates listed => s!"{listed} dates listed, only one rule per task is supported"
  | .invalidWeekdayName text => s!"invalid weekday name '{text}'"
  | .invalidMonthDay text => s!"invalid month-day '{text}'"

/-- A refused text: its first fault, and the text as it was given. -/
structure Malformed where
  fault : Fault
  input : String
deriving DecidableEq, Repr

def Malformed.message (error : Malformed) : String :=
  s!"Malformed recurrence pattern '{error.input}': {error.fault.reason}"

end Cadence
