/-!
# Blanks and comments

What may stand between the values of a TOML document: spaces and tabs within a line, and line ends
and comments where a value may be split over lines.  A line ends with a line feed, which a carriage
return may precede.
-/

namespace Cadence.Toml

def isBlank (c : Char) : Bool := c == ' ' || c == '\t'

/-- Whether the character may not stand as itself in a comment or in a string of one line. -/
def isControl (c : Char) : Bool := (c.toNat < 0x20 && c != '\t') || c.toNat == 0x7F

/-- The text without the spaces and tabs that it starts with. -/
def skipBlank (text : List Char) : List Char := text.dropWhile isBlank

/-- The text after the blanks, line ends and comments that it starts with; within a comment that has
begun if `inComment` is set.  Fails on a control character in a comment. -/
def skipGap (inComment : Bool) : List Char → Option (List Char)
  | [] => some []
  | '\r' :: '\n' :: rest => skipGap false rest
  | '\n' :: rest => skipGap false rest
  | c :: rest =>
    if inComment then if isControl c then none else skipGap true rest
    else if isBlank c then skipGap false rest
    else if c == '#' then skipGap true rest
    else some (c :: rest)

/-- Whether the text starts with a line end. -/
def startsLineEnd : List Char → Bool
  | '\n' :: _ | '\r' :: '\n' :: _ => true
  | _ => false

/-- Whether a line may end here: at a line end, at a comment or at the end of the text. -/
def mayEndLine (text : List Char) : Bool :=
  text.isEmpty || startsLineEnd text || text.head? == some '#'

/-- The text after one line end, if it starts with one. -/
def skipLineEnd : List Char → List Char
  | '\n' :: rest | '\r' :: '\n' :: rest => rest
  | text => text

theorem length_skipBlank_le (text : List Char) : (skipBlank text).length ≤ text.length :=
  (List.dropWhile_sublist _).length_le

theorem length_le_of_skipGap {inComment : Bool} {text rest : List Char}
    (skipped : skipGap inComment text = some rest) : rest.length ≤ text.length := by
  fun_induction skipGap inComment text <;> simp_all <;> grind

theorem length_skipLineEnd_le (text : List Char) : (skipLineEnd text).length ≤ text.length := by
  unfold skipLineEnd
  split <;> grind

end Cadence.Toml
