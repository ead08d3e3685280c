/-!
# Decimal numerals

Numbers as they stand in patterns and dates: ASCII digits, leading zeros allowed, nothing else.  The
value is exact however long the numeral is, so a limit on it is a comparison and never wraps.
-/

namespace Cadence.Text

/-- The value of a text that consists of one or more digits. -/
def digits? (text : List Char) : Option Nat :=
  if text ≠ [] ∧ text.all Char.isDigit then some (Nat.ofDigitChars 10 text 0) else none

/-- The value of a numeral: digits, after a plus sign or none. -/
def numeral? : List Char → Option Nat
  | '+' :: text => digits? text
  | text => digits? text

/-- Whether the character is a digit of a hexadecimal numeral. -/
def isHexDigit (c : Char) : Bool :=
  c.isDigit || ('a' ≤ c && c ≤ 'f') || ('A' ≤ c && c ≤ 'F')

/-- The value of a hexadecimal digit. -/
def hexDigitValue (c : Char) : Nat :=
  if c.isDigit then c.toNat - '0'.toNat else c.toLower.toNat - 'a'.toNat + 10

/-- The value of the digits of a numeral in some base up to sixteen. -/
def ofDigits (base : Nat) (digits : List Char) : Nat :=
  digits.foldl (fun value c => base * value + hexDigitValue c) 0

/-- The decimal digits of `n`, with zeros in front up to the given width. -/
def zeroPadded (width n : Nat) : String :=
  let digits := Nat.toDigits 10 n
  String.ofList (List.replicate (width - digits.length) '0' ++ digits)

theorem digits?_toDigits (n : Nat) : digits? (Nat.toDigits 10 n) = some n := by
  have allDigits : (Nat.toDigits 10 n).all Char.isDigit = true := by
    rw [List.all_eq_true]
    exact fun c mem => Nat.isDigit_of_mem_toDigits (by decide) (by decide) mem
  simp [digits?, allDigits, Nat.toDigits_ne_nil, Nat.ofDigitChars_toDigits]

example : numeral? "+007".toList = some 7 := by decide

example : numeral? "+".toList = none ∧ numeral? "1_0".toList = none := by decide

end Cadence.Text
