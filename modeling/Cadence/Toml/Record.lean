import Cadence.Datum
import Cadence.Toml.Gap

/-!
# Records

The documents that the library writes: texts and numbers under plain names, and tables of those.
`Record.document` writes a record, and `Record.fields` are the fields that the document has.

A text is written in the plainest form that holds it, as `StringForm.plainest` chooses: an ordinary
string if that needs no escapes, then a literal one, then either over several lines.
-/

namespace Cadence.Toml

/-! ## Strings -/

inductive StringForm where
  | basic
  | literal
  | basicLines
  | literalLines
deriving DecidableEq, Repr

/-- The length of the longest run of `c`, the run at the front having `run` more before it. -/
def longestRun (c : Char) (run : Nat) : List Char → Nat
  | [] => run
  | d :: text => if d = c then longestRun c (run + 1) text else max run (longestRun c 0 text)

namespace StringForm

/-- The quotes around a string of this form. -/
def delimiter : StringForm → List Char
  | basic => ['"']
  | literal => ['\'']
  | basicLines => ['"', '"', '"']
  | literalLines => ['\'', '\'', '\'']

/-- Whether a string of this form may be split over lines. -/
def hasLines : StringForm → Bool
  | basic | literal => false
  | basicLines | literalLines => true

/-- The plainest form that holds the text. -/
def plainest (text : List Char) : StringForm :=
  let isPlain := text.all fun c => !isControl c || c == '\n'
  let isOneLine := !text.contains '\n'
  let hasBackslash := text.contains '\\'
  let doubleQuotes := longestRun '"' 0 text
  let singleQuotes := longestRun '\'' 0 text
  if isPlain && isOneLine && !hasBackslash && doubleQuotes == 0 then basic
  else if isPlain && isOneLine && singleQuotes == 0 then literal
  else if isPlain && !hasBackslash && doubleQuotes ≤ 2 then basicLines
  else if isPlain && singleQuotes ≤ 2 then literalLines
  else if isOneLine then basic
  else basicLines

end StringForm

/-- A character as basic strings write it, the quote and the line end apart. -/
def escaped (c : Char) : List Char :=
  match c with
  | '\x08' => ['\\', 'b']
  | '\t' => ['\\', 't']
  | '\x0c' => ['\\', 'f']
  | '\r' => ['\\', 'r']
  | '\\' => ['\\', '\\']
  | c =>
    if isControl c then
      let digits := (Nat.toDigits 16 c.toNat).map Char.toUpper
      ['\\', 'u'] ++ List.replicate (4 - digits.length) '0' ++ digits
    else [c]

/-- The body of a basic string, after `quotes` bare quotes.  Over several lines, line ends and up to
two quotes in a row stand as themselves. -/
def basicBody (lines : Bool) (quotes : Nat) : List Char → List Char
  | [] => []
  | '"' :: text =>
    if lines && quotes < 2 then '"' :: basicBody lines (quotes + 1) text
    else ['\\', '"'] ++ basicBody lines 0 text
  | '\n' :: text => (if lines then ['\n'] else ['\\', 'n']) ++ basicBody lines 0 text
  | c :: text => escaped c ++ basicBody lines 0 text

/-- The text as a string.  One that has line ends starts on a line of its own. -/
def quoted (text : List Char) : List Char :=
  let form := StringForm.plainest text
  let start := if form.hasLines && text.contains '\n' then ['\n'] else []
  let body := match form with
    | .basic | .basicLines => basicBody form.hasLines 0 text
    | .literal | .literalLines => text
  form.delimiter ++ start ++ body ++ form.delimiter

/-! ## Records -/

/-- A value of a record. -/
inductive Scalar where
  | text (value : String)
  | number (value : Nat)
deriving DecidableEq, Repr

/-- The value as a document holds it. -/
def Scalar.datum : Scalar → Datum
  | text value => .text value
  | number value => .integer value

/-- The value as it is written. -/
def Scalar.document : Scalar → String
  | text value => .ofList (quoted value.toList)
  | number value => toString value

/-- Named values, and named tables of such values. -/
structure Record where
  values : List (String × Scalar)
  tables : List (String × List (String × Scalar)) := []

namespace Record

/-- The fields that named values have in a document. -/
def valueFields (values : List (String × Scalar)) : List (String × Datum) :=
  values.map fun (key, value) => (key, value.datum)

/-- The fields of the record in a document. -/
def fields (record : Record) : List (String × Datum) :=
  valueFields record.values ++
    record.tables.map fun (key, values) => (key, .table (valueFields values))

/-- Named values, one a line. -/
def valueLines (values : List (String × Scalar)) : String :=
  String.join (values.map fun (key, value) => key ++ " = " ++ value.document ++ "\n")

/-- The record as a document.  The keys have to be bare. -/
def document (record : Record) : String :=
  valueLines record.values ++
    String.join (record.tables.map fun (key, values) => "\n[" ++ key ++ "]\n" ++ valueLines values)

end Record

end Cadence.Toml
