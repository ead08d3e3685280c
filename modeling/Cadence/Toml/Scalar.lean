import Cadence.Calendar.Month
import Cadence.Calendar.Civil
import Cadence.Datum
import Cadence.Text.Numeral

/-!
# Bare scalars

The TOML values that are written without quotes and brackets: truth values, integers in four bases,
floats, and dates and times.

`bare?` reads the value that a whole word denotes, and `takeBare?` a word off the front of a text.
-/

namespace Cadence.Toml

/-! ## Numbers -/

/-- The digits of groups that underscores divide; no group may be empty. -/
def grouped? (isDigit : Char → Bool) (text : List Char) : Option (List Char) :=
  let groups := text.splitOn '_'
  if groups.all fun group => !group.isEmpty && group.all isDigit then some groups.flatten else none

/-- The natural number whose digits in some base the text holds, underscores left out. -/
def based? (base : Nat) (text : List Char) : Option Nat :=
  (grouped? (fun c => Text.isHexDigit c && Text.hexDigitValue c < base) text).map
    (Text.ofDigits base)

/-- The digits of a decimal number without a sign: no zero in front of others. -/
def wholeDigits? (text : List Char) : Option (List Char) :=
  match text with
  | '0' :: _ :: _ => none
  | _ => grouped? Char.isDigit text

/-- The text without the sign that it may start with, and whether that was a minus. -/
def cutSign : List Char → Bool × List Char
  | '-' :: rest => (true, rest)
  | '+' :: rest => (false, rest)
  | text => (false, text)

/-- The number with the given absolute value. -/
def signed (negative : Bool) (value : Nat) : Int := if negative then -value else value

/-- The integer that the text is. -/
def integer? (text : List Char) : Option Int :=
  match text with
  -- Only decimal integers take a sign.
  | '0' :: 'x' :: rest => (based? 16 rest).map Int.ofNat
  | '0' :: 'o' :: rest => (based? 8 rest).map Int.ofNat
  | '0' :: 'b' :: rest => (based? 2 rest).map Int.ofNat
  | _ =>
    let (negative, rest) := cutSign text
    (wholeDigits? rest).map fun digits => signed negative (Text.ofDigits 10 digits)

/-- Whether the integer fits in a word of 128 bits, with or without a sign. -/
def fitsWord (value : Int) : Bool :=
  -Int.ofNat (Nat.pow 2 127) ≤ value && value < Int.ofNat (Nat.pow 2 128)

/-- A decimal number without a sign: its digits, and the power of ten of the last one. -/
structure Decimal where
  digits : List Char
  exponent : Int

/-- The least number that is too large for a float of 64 bits.  It lies half a step above the
largest float, and a number halfway between two floats goes to the even one. -/
def floatLimit : Nat := Nat.pow 2 1024 - Nat.pow 2 970

/-- Whether the number is below `floatLimit`, which has 309 digits.  Numbers with another count of
digits in front of the point need no exact comparison. -/
def Decimal.fitsFloat (number : Decimal) : Bool :=
  let digits := number.digits.dropWhile (· == '0')
  -- The point stands after this many digits.
  let places := digits.length + number.exponent
  if digits.isEmpty || places < 309 then true
  else if 309 < places then false
  else
    Text.ofDigits 10 digits * Nat.pow 10 number.exponent.toNat <
      floatLimit * Nat.pow 10 (-number.exponent).toNat

/-- The exponent that stands here: a letter with a signed number, or zero if there is none. -/
def exponent? : List Char → Option Int
  | [] => some 0
  | c :: rest =>
    if c == 'e' || c == 'E' then
      let (negative, rest) := cutSign rest
      (based? 10 rest).map (signed negative)
    else none

/-- The number with a fraction or an exponent that the text is. -/
def fractional? (text : List Char) : Option Decimal := do
  let isDigit c := c.isDigit || c == '_'
  let whole ← wholeDigits? (text.takeWhile isDigit)
  match text.dropWhile isDigit with
  | [] => none
  | '.' :: rest =>
    let fraction ← grouped? Char.isDigit (rest.takeWhile isDigit)
    let exponent ← exponent? (rest.dropWhile isDigit)
    return { digits := whole ++ fraction, exponent := exponent - fraction.length }
  | rest => return { digits := whole, exponent := ← exponent? rest }

/-- The float that the text is. -/
def float? (text : List Char) : Option Datum :=
  let (_, rest) := cutSign text
  if rest == "inf".toList || rest == "nan".toList then some (.float (.ofList text))
  else
    (fractional? rest).map fun number =>
      if number.fitsFloat then .float (.ofList text) else .overflow

example : (fractional? "1.7976931348623158e308".toList).map (·.fitsFloat) = some true := by
  decide +kernel

example : (fractional? "1.797693134862315808e308".toList).map (·.fitsFloat) = some false := by
  decide +kernel

/-! ## Dates and times -/

/-- Whether the text is a number of digits only, within a range. -/
def isWithin (least most : Nat) (text : List Char) : Bool :=
  (Text.digits? text).any fun value => least ≤ value && value ≤ most

def isDate (text : List Char) : Bool :=
  match text with
  | [y₁, y₂, y₃, y₄, '-', m₁, m₂, '-', d₁, d₂] =>
    match Text.digits? [y₁, y₂, y₃, y₄], Text.digits? [m₁, m₂] >>= Month.ofNumber? with
    | some year, some month => isWithin 1 (month.length (isLeapYear year)) [d₁, d₂]
    | _, _ => false
  | _ => false

/-- Whether the text is a fraction of a second, or nothing. -/
def isFraction : List Char → Bool
  | [] => true
  | c :: rest => c == '.' && !rest.isEmpty && rest.all Char.isDigit

/-- Whether the text is a time of day as in `07:32:00.5`.  A minute may have a second 60. -/
def isTime (text : List Char) : Bool :=
  match text with
  | h₁ :: h₂ :: ':' :: m₁ :: m₂ :: ':' :: s₁ :: s₂ :: rest =>
    isWithin 0 23 [h₁, h₂] && isWithin 0 59 [m₁, m₂] && isWithin 0 60 [s₁, s₂] &&
      isFraction rest
  | _ => false

/-- Whether the text is an offset from universal time, or nothing. -/
def isOffset (text : List Char) : Bool :=
  match text with
  | [] => true
  | [z] => z == 'Z' || z == 'z'
  | [sign, h₁, h₂, ':', m₁, m₂] =>
    (sign == '+' || sign == '-') && isWithin 0 23 [h₁, h₂] && isWithin 0 59 [m₁, m₂]
  | _ => false

/-- Whether the text is a date, a time, or both with or without an offset. -/
def isMoment (text : List Char) : Bool :=
  isDate text || isTime text ||
    match text.drop 10 with
    | divider :: clock =>
      let isClock c := c.isDigit || c == ':' || c == '.'
      isDate (text.take 10) && (divider == 'T' || divider == 't' || divider == ' ') &&
        isTime (clock.takeWhile isClock) && isOffset (clock.dropWhile isClock)
    | [] => false

/-! ## Words -/

/-- The value that a bare word denotes. -/
def bare? (text : List Char) : Option Datum :=
  if text == "true".toList then some (.boolean true)
  else if text == "false".toList then some (.boolean false)
  else
    match integer? text with
    | some value => some (if fitsWord value then .integer value else .overflow)
    | none =>
      match float? text with
      | some value => some value
      | none => if isMoment text then some (.moment (.ofList text)) else none

/-- Whether the character may stand in a bare value. -/
def isBare (c : Char) : Bool :=
  c.isAlphanum || c == '+' || c == '-' || c == '.' || c == '_' || c == ':'

/-- How many characters at the front of a text make up a bare value.  A blank may divide a date from
a time. -/
def bareLength (text : List Char) : Nat :=
  let word := text.takeWhile isBare
  match text.drop word.length with
  | ' ' :: rest =>
    if isDate word && (rest.head?.map Char.isDigit).getD false then
      word.length + 1 + (rest.takeWhile isBare).length
    else word.length
  | _ => word.length

/-- Takes a bare value off the front of a text. -/
def takeBare? (text : List Char) : Option (Datum × List Char) :=
  let length := bareLength text
  (bare? (text.take length)).map fun value => (value, text.drop length)

theorem bare?_nil : bare? [] = none := by decide

theorem length_lt_of_takeBare? {text rest : List Char} {value : Datum}
    (taken : takeBare? text = some (value, rest)) : rest.length < text.length := by
  obtain ⟨_, found, pair⟩ := Option.map_eq_some_iff.1 taken
  simp only [Prod.mk.injEq] at pair
  rw [← pair.2, List.length_drop]
  cases text with
  | nil => simp [bare?_nil] at found
  | cons c text =>
    cases length : bareLength (c :: text) with
    | zero => simp [length, bare?_nil] at found
    | succ n => grind

end Cadence.Toml
