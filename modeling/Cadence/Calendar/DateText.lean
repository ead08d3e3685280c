import Cadence.Calendar.Date
import Cadence.Text.Blank
import Cadence.Text.Numeral

/-!
# Dates as text

A date is written as year, month and day with hyphens between, as in `2025-03-15`.  The year has at
least four digits, and a sign if it lies outside `0` to `9999`.

* `Date.text` writes a date.
* `Date.read?` reads one.  A year without a sign has at most four digits, a month and a day at most
  two; leading zeros may be missing.  Blanks may precede each number, and under `Spacing.loose` also
  each hyphen and the end.
-/

namespace Cadence

/-- The year as dates write it. -/
def yearText (year : Int) : String :=
  let digits := Text.zeroPadded 4 year.natAbs
  if year < 0 then "-" ++ digits else if year ≤ 9999 then digits else "+" ++ digits

/-- The date as `YYYY-MM-DD`. -/
def Date.text (date : Date) : String :=
  yearText date.year ++ "-" ++ Text.zeroPadded 2 date.month.number ++ "-" ++
    Text.zeroPadded 2 date.day

/-- Where blanks may stand in the text of a date. -/
inductive Spacing where
  /-- Before each number. -/
  | tight
  /-- Before each number, before each hyphen and at the end. -/
  | loose
deriving DecidableEq, Repr

namespace DateText

/-- Takes a number of one to `width` digits off the front of a text. -/
def takeNumber? (width : Nat) (text : List Char) : Option (Nat × List Char) :=
  let digits := (text.take width).takeWhile Char.isDigit
  (Text.digits? digits).map fun value => (value, text.drop digits.length)

/-- Takes the year off the front of a text. -/
def takeYear? (text : List Char) : Option (Int × List Char) :=
  match Text.trimStart text with
  | '-' :: rest => (takeNumber? rest.length rest).map fun (year, rest) => (-year, rest)
  | '+' :: rest => (takeNumber? rest.length rest).map fun (year, rest) => (year, rest)
  | rest => (takeNumber? 4 rest).map fun (year, rest) => (year, rest)

/-- Takes a month or a day off the front of a text. -/
def takeTwoDigits? (text : List Char) : Option (Nat × List Char) :=
  takeNumber? 2 (Text.trimStart text)

/-- Skips the blanks that may stand before a hyphen or the end. -/
def skipGap : Spacing → List Char → List Char
  | .tight, text => text
  | .loose, text => Text.trimStart text

/-- Takes a hyphen off the front of a text. -/
def takeHyphen? (spacing : Spacing) (text : List Char) : Option (List Char) :=
  match skipGap spacing text with
  | '-' :: rest => some rest
  | _ => none

end DateText

open DateText in
def Date.read? (spacing : Spacing) (text : List Char) : Option Date := do
  let (year, text) ← takeYear? text
  let text ← takeHyphen? spacing text
  let (month, text) ← takeTwoDigits? text
  let text ← takeHyphen? spacing text
  let (day, text) ← takeTwoDigits? text
  guard (skipGap spacing text = [])
  Date.ofYearMonthDay? year month day

structure DateFault where
  input : String
deriving DecidableEq, Repr

def DateFault.message (fault : DateFault) : String :=
  s!"Invalid date format '{fault.input}'. Use YYYY-MM-DD (e.g., '2025-03-15')"

/-- Reads a date with any blanks around it. -/
def Date.parse (text : String) : Except DateFault Date :=
  match Date.read? .tight (Text.trim text.toList) with
  | some date => .ok date
  | none => .error ⟨text⟩

end Cadence
