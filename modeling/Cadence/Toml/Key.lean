import Cadence.Toml.Quoted

/-!
# Keys

A key is a bare word or a string of one line.  Keys with dots between them make a path, which names
a value within nested tables; blanks may stand around the dots.

A path has at most `deepest` keys, and lists and inline tables nest no deeper than that.
-/

namespace Cadence.Toml

/-- Whether the character may stand in a bare key. -/
def isKeyChar (c : Char) : Bool := c.isAlphanum || c == '_' || c == '-'

def takeKey? (text : List Char) : Option (String × List Char) :=
  match quotedLine? text with
  | some (content, rest) => some (.ofList content, rest)
  | none =>
    match text.takeWhile isKeyChar with
    | [] => none
    | key => some (.ofList key, text.dropWhile isKeyChar)

theorem length_lt_of_takeKey? {text rest : List Char} {key : String}
    (taken : takeKey? text = some (key, rest)) : rest.length < text.length := by
  unfold takeKey? at taken
  split at taken
  · next read =>
    simp only [Option.some.injEq, Prod.mk.injEq] at taken
    rw [← taken.2]
    exact length_lt_of_quotedLine? read
  · split at taken
    · simp at taken
    · next nonempty =>
      simp only [Option.some.injEq, Prod.mk.injEq] at taken
      have sum := congrArg List.length
        (List.takeWhile_append_dropWhile (p := isKeyChar) (l := text))
      rw [List.length_append, taken.2] at sum
      have := List.length_pos_iff.2 nonempty
      omega

/-- How many keys a path may have, and how deep values may nest. -/
def deepest : Nat := 80

/-- Takes keys with dots between them off the front of a text, with the blanks after them. -/
def takeKeys? (text : List Char) : Option (List String × List Char) :=
  match taken : takeKey? (skipBlank text) with
  | none => none
  | some (key, after) =>
    match more : skipBlank after with
    | '.' :: rest =>
      have : rest.length < text.length := by
        have := length_lt_of_takeKey? taken
        have := length_skipBlank_le text
        have le := length_skipBlank_le after
        rw [more, List.length_cons] at le
        omega
      (takeKeys? rest).map fun (keys, rest) => (key :: keys, rest)
    | rest => some ([key], rest)
termination_by text.length

/-- Takes a path off the front of a text, with the blanks after it. -/
def takePath? (text : List Char) : Option (List String × List Char) :=
  (takeKeys? text).filter fun (keys, _) => keys.length ≤ deepest

theorem length_lt_of_takeKeys? {text rest : List Char} {keys : List String}
    (taken : takeKeys? text = some (keys, rest)) : rest.length < text.length := by
  fun_induction takeKeys? text generalizing keys with
  | case1 => simp at taken
  | case2 text key after takenKey rest more shorter ih =>
    obtain ⟨⟨_, _⟩, found, pair⟩ := Option.map_eq_some_iff.1 taken
    simp only [Prod.mk.injEq] at pair
    rw [pair.2] at found
    have := ih found
    omega
  | case3 text key after takenKey rest =>
    simp only [Option.some.injEq, Prod.mk.injEq] at taken
    have := length_lt_of_takeKey? takenKey
    have := length_skipBlank_le text
    have := length_skipBlank_le after
    rw [taken.2] at this
    omega

theorem length_lt_of_takePath? {text rest : List Char} {path : List String}
    (taken : takePath? text = some (path, rest)) : rest.length < text.length :=
  length_lt_of_takeKeys? (Option.filter_eq_some_iff.1 taken).1

end Cadence.Toml
