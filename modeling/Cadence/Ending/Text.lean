import Cadence.Calendar.DateText
import Cadence.Ending.Basic
import Cadence.Text.Separator

/-!
# Endings as text

An ending is written `never`, `after:N` or `on:YYYY-MM-DD`.  `Ending.parse` reads these with any
blanks around the kind and the value and with the kind in any case of letters, and names the first
fault of every other text.
-/

namespace Cadence

/-- A value that an ending of some kind carries. -/
inductive EndingField where
  | count
  | date
deriving DecidableEq, Repr

def EndingField.text : EndingField → String
  | .count => "count"
  | .date => "date"

/-- Why an ending was refused. -/
inductive EndingFault where
  /-- The text has none of the three forms. -/
  | unknownKind (text : String)
  | invalidCount (text : String)
  | invalidDate (text : String)
  /-- The kind needs a value and has none. -/
  | missingField (kind : EndingKind) (field : EndingField)
deriving DecidableEq, Repr

def EndingFault.message : EndingFault → String
  | .unknownKind text =>
    s!"Invalid end condition '{text}'. Valid forms: never, after:N, on:YYYY-MM-DD"
  | .invalidCount text =>
    s!"Invalid occurrence count '{text}'. Use a positive integer (e.g., 'after:10')"
  | .invalidDate text => s!"Invalid end date '{text}'. Use YYYY-MM-DD (e.g., 'on:2025-03-15')"
  | .missingField kind field =>
    s!"End condition '{kind.text}' is missing its '{field.text}' value"

namespace Ending

def text : Ending → String
  | never => EndingKind.never.text
  | after count => EndingKind.after.text ++ ":" ++ toString count.value
  | on date => EndingKind.on.text ++ ":" ++ date.text

/-- The value of an ending: the trimmed text after the first colon, if there is a colon. -/
def cutKind (text : List Char) : List Char × Option (List Char) :=
  match Text.cutFirst ':' text with
  | some (kind, value) => (Text.trim kind, some (Text.trim value))
  | none => (text, none)

def parse (text : String) : Except EndingFault Ending :=
  let trimmed := Text.trim text.toList
  let (kind, value) := cutKind trimmed
  match EndingKind.ofWord? (Text.toLower kind), value with
  | some .never, none => .ok never
  | some .after, some value =>
    match Count.read? value with
    | some count => .ok (after count)
    | none => .error (.invalidCount (.ofList value))
  | some .after, none => .error (.missingField .after .count)
  | some .on, some value =>
    match Date.read? .tight value with
    | some date => .ok (on date)
    | none => .error (.invalidDate (.ofList value))
  | some .on, none => .error (.missingField .on .date)
  | some .never, some _ | none, _ => .error (.unknownKind (.ofList trimmed))

end Ending

end Cadence
