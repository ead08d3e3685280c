import Cadence.Rule.Basic

/-!
# English phrases

`Rule.phrase` says in English when a rule fires, as in "Every 2 weeks on Monday and Thursday".
Weekdays are listed Monday first, and a list of three or more has a comma before its "and".
-/

namespace Cadence

/-- The ending of an English ordinal: 1st, 2nd, 3rd, 4th; 11 to 13 of each hundred take "th". -/
def ordinalSuffix (n : Nat) : String :=
  if 11 ≤ n % 100 ∧ n % 100 ≤ 13 then "th"
  else
    match n % 10 with
    | 1 => "st"
    | 2 => "nd"
    | 3 => "rd"
    | _ => "th"

def ordinalNumeral (n : Nat) : String := toString n ++ ordinalSuffix n

/-- The ordinal in phrases: "1st" to "4th", or "Last". -/
def Ordinal.label : Ordinal → String
  | .last => "Last"
  | ordinal => ordinalNumeral ordinal.number

/-- Joins names as English does: "A", "A and B", "A, B, and C". -/
def joinNames : List String → String
  | [] => ""
  | [only] => only
  | [first, second] => first ++ " and " ++ second
  | names => String.intercalate ", " names.dropLast ++ ", and " ++ names.getLastD ""

namespace Rule

def phrase : Rule → String
  | .daily interval =>
    if interval = .one then "Every day" else "Every " ++ toString interval.value ++ " days"
  | .weekdays => "Every weekday (Mon-Fri)"
  | .weekly interval days =>
    let names := joinNames (days.toList.map Weekday.name)
    if days.isEmpty then "No days selected"
    else if interval = .one then "Every " ++ names
    else "Every " ++ toString interval.value ++ " weeks on " ++ names
  | .dayOfMonth day => "Every month on the " ++ ordinalNumeral day
  | .weekdayOfMonth ordinal weekday =>
    "Every month on the " ++ ordinal.label ++ " " ++ weekday.name
  | .anniversary month day => "Every year on " ++ month.name ++ " " ++ toString day

end Rule

example : (Rule.weekly .one (.ofNumbers [7, 2, 4])).phrase =
    "Every Tuesday, Thursday, and Sunday" := by decide

end Cadence
