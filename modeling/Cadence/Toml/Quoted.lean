import Cadence.Text.Numeral
import Cadence.Toml.Gap

/-!
# Strings

TOML has four forms of string: basic ones in double quotes with escapes, literal ones in single
quotes without, and either form over several lines between three quotes.

`quoted?` reads a string of any form off the front of a text, and `quotedLine?` one of a single
line.  Both take at least the quotes, so what they leave is shorter than what they were given.
-/

namespace Cadence.Toml

/-! ## Escapes -/

/-- The character with the code point that the hexadecimal digits give. -/
def codePoint? (digits : List Char) : Option Char :=
  let value := Text.ofDigits 16 digits
  if digits.all Text.isHexDigit && value.isValidChar then some (Char.ofNat value) else none

/-- The character that a letter stands for after a backslash. -/
def letterEscape? : Char → Option Char
  | 'b' => some '\x08'
  | 't' => some '\t'
  | 'n' => some '\n'
  | 'f' => some '\x0c'
  | 'r' => some '\r'
  | '"' => some '"'
  | '\\' => some '\\'
  | _ => none

/-- The character of `width` hexadecimal digits at the front of a text. -/
def takeCodePoint? (width : Nat) (text : List Char) : Option (Char × List Char) :=
  if width ≤ text.length then
    (codePoint? (text.take width)).map fun c => (c, text.drop width)
  else none

/-- The character of the escape that follows a backslash. -/
def takeEscape? : List Char → Option (Char × List Char)
  | [] => none
  | 'u' :: rest => takeCodePoint? 4 rest
  | 'U' :: rest => takeCodePoint? 8 rest
  | c :: rest => (letterEscape? c).map fun c => (c, rest)

theorem length_le_of_takeCodePoint? {width : Nat} {text rest : List Char} {c : Char}
    (taken : takeCodePoint? width text = some (c, rest)) : rest.length ≤ text.length := by
  unfold takeCodePoint? at taken
  split at taken
  · obtain ⟨_, _, pair⟩ := Option.map_eq_some_iff.1 taken
    rw [Prod.mk.injEq] at pair
    rw [← pair.2, List.length_drop]
    omega
  · simp at taken

theorem length_lt_of_takeEscape? {text rest : List Char} {c : Char}
    (taken : takeEscape? text = some (c, rest)) : rest.length < text.length := by
  unfold takeEscape? at taken
  split at taken
  · simp at taken
  · exact Nat.lt_succ_of_le (length_le_of_takeCodePoint? taken)
  · exact Nat.lt_succ_of_le (length_le_of_takeCodePoint? taken)
  · obtain ⟨_, _, pair⟩ := Option.map_eq_some_iff.1 taken
    rw [Prod.mk.injEq] at pair
    rw [← pair.2]
    exact Nat.lt_succ_self _

/-! ## Bodies

Each function reads a string after its opening quotes and gives its content with the text after its
closing quotes. -/

/-- Puts a character in front of the content that was read. -/
def push (c : Char) (read : Option (List Char × List Char)) : Option (List Char × List Char) :=
  read.map fun (content, rest) => (c :: content, rest)

def basicBody? (text : List Char) : Option (List Char × List Char) :=
  match text with
  | [] => none
  | '"' :: rest => some ([], rest)
  | '\\' :: rest =>
    match taken : takeEscape? rest with
    | none => none
    | some (c, rest) =>
      have := length_lt_of_takeEscape? taken
      push c (basicBody? rest)
  | c :: rest => if isControl c then none else push c (basicBody? rest)
termination_by text.length

def literalBody? : List Char → Option (List Char × List Char)
  | [] => none
  | '\'' :: rest => some ([], rest)
  | c :: rest => if isControl c then none else push c (literalBody? rest)

/-- The end of a string over several lines: three quotes, after one or two that belong to it. -/
def closing? (quote : Char) (text : List Char) : Option (List Char × List Char) :=
  let quotes := (text.takeWhile (· == quote)).length
  if quotes < 3 then none
  else
    -- Five quotes close the string and end its content with two; a sixth stands after it.
    let taken := min quotes 5
    some (List.replicate (taken - 3) quote, text.drop taken)

/-- The body of a basic string over several lines.  A line end stays as it is written.  After a
backslash at the end of a line all blanks and line ends are left out, which `skipping` remembers. -/
def linesBody? (skipping : Bool) (text : List Char) : Option (List Char × List Char) :=
  match text with
  | [] => none
  | '\r' :: '\n' :: rest =>
    if skipping then linesBody? true rest
    else push '\r' (push '\n' (linesBody? false rest))
  | '\\' :: rest =>
    if startsLineEnd (skipBlank rest) then linesBody? true rest
    else
      match taken : takeEscape? rest with
      | none => none
      | some (c, rest) =>
        have := length_lt_of_takeEscape? taken
        push c (linesBody? false rest)
  | c :: rest =>
    match closing? '"' (c :: rest) with
    | some ended => some ended
    | none =>
      if skipping && (isBlank c || c == '\n') then linesBody? true rest
      else if isControl c && c != '\n' then none
      else push c (linesBody? false rest)
termination_by text.length

/-- The body of a literal string over several lines.  A line end stays as it is written. -/
def literalLinesBody? : List Char → Option (List Char × List Char)
  | [] => none
  | '\r' :: '\n' :: rest => push '\r' (push '\n' (literalLinesBody? rest))
  | c :: rest =>
    match closing? '\'' (c :: rest) with
    | some ended => some ended
    | none => if isControl c && c != '\n' then none else push c (literalLinesBody? rest)

def quotedLine? : List Char → Option (List Char × List Char)
  | '"' :: rest => basicBody? rest
  | '\'' :: rest => literalBody? rest
  | _ => none

/-- A string at the front of a text.  A line end right after three opening quotes is left out. -/
def quoted? : List Char → Option (List Char × List Char)
  | '"' :: '"' :: '"' :: rest => linesBody? false (skipLineEnd rest)
  | '\'' :: '\'' :: '\'' :: rest => literalLinesBody? (skipLineEnd rest)
  | text => quotedLine? text

/-! ## Every string takes its quotes off the text -/

theorem push_eq_some {c : Char} {read : Option (List Char × List Char)}
    {content rest : List Char} (pushed : push c read = some (content, rest)) :
    ∃ tail, read = some (tail, rest) := by
  obtain ⟨⟨tail, after⟩, found, pair⟩ := Option.map_eq_some_iff.1 pushed
  simp only [Prod.mk.injEq] at pair
  exact ⟨tail, by rw [found, pair.2]⟩

theorem length_lt_of_basicBody? {text content rest : List Char}
    (read : basicBody? text = some (content, rest)) : rest.length < text.length := by
  fun_induction basicBody? text generalizing content <;> grind [push_eq_some]

theorem length_lt_of_literalBody? {text content rest : List Char}
    (read : literalBody? text = some (content, rest)) : rest.length < text.length := by
  fun_induction literalBody? text generalizing content <;> grind [push_eq_some]

theorem length_lt_of_closing? {quote : Char} {text content rest : List Char}
    (closed : closing? quote text = some (content, rest)) : rest.length < text.length := by
  have le : (text.takeWhile (· == quote)).length ≤ text.length :=
    (List.takeWhile_sublist _).length_le
  simp only [closing?] at closed
  split at closed
  · simp at closed
  · simp only [Option.some.injEq, Prod.mk.injEq] at closed
    rw [← closed.2, List.length_drop]
    omega

theorem length_lt_of_linesBody? {skipping : Bool} {text content rest : List Char}
    (read : linesBody? skipping text = some (content, rest)) : rest.length < text.length := by
  fun_induction linesBody? skipping text generalizing content <;>
    grind [push_eq_some, → length_lt_of_closing?]

theorem length_lt_of_literalLinesBody? {text content rest : List Char}
    (read : literalLinesBody? text = some (content, rest)) : rest.length < text.length := by
  fun_induction literalLinesBody? text generalizing content <;>
    grind [push_eq_some, → length_lt_of_closing?]

theorem length_lt_of_quotedLine? {text content rest : List Char}
    (read : quotedLine? text = some (content, rest)) : rest.length < text.length := by
  unfold quotedLine? at read
  split at read
  · have := length_lt_of_basicBody? read
    simp; omega
  · have := length_lt_of_literalBody? read
    simp; omega
  · simp at read

theorem length_lt_of_quoted? {text content rest : List Char}
    (read : quoted? text = some (content, rest)) : rest.length < text.length := by
  unfold quoted? at read
  split at read
  · next after =>
    have := length_lt_of_linesBody? read
    have := length_skipLineEnd_le after
    simp; omega
  · next after =>
    have := length_lt_of_literalLinesBody? read
    have := length_skipLineEnd_le after
    simp; omega
  · exact length_lt_of_quotedLine? read

end Cadence.Toml
