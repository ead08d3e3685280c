/-!
# Separators and letter case

A text is cut at every separator with `List.splitOn`; this module adds the cut at the first one, and
the comparison of keywords in which the case of ASCII letters does not count.
-/

namespace Cadence.Text

/-- The parts before and after the first `separator`, if the text has one. -/
def cutFirst (separator : Char) (text : List Char) : Option (List Char × List Char) :=
  match text.dropWhile (· ≠ separator) with
  | [] => none
  | _ :: after => some (text.takeWhile (· ≠ separator), after)

/-- Replaces the ASCII letters by their capitals. -/
def toUpper (text : List Char) : List Char := text.map Char.toUpper

/-- Replaces the ASCII letters by their small forms. -/
def toLower (text : List Char) : List Char := text.map Char.toLower

example : cutFirst '-' "2-2-9".toList = some (['2'], "2-9".toList) := by decide

example : cutFirst '-' "229".toList = none := by decide

end Cadence.Text
