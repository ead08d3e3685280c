import Cadence.Toml.Key
import Cadence.Toml.Scalar
import Cadence.Toml.Tree

/-!
# Values

A TOML value is a string, a bare scalar, a list in square brackets or an inline table in braces.  A
list may be split over lines, may hold comments and may end with a comma; an inline table may not.

Lists and tables nest, so `takeValue?` gives what follows the value together with the fact that it
is shorter than the text.  It is told for how many more levels there is room.
-/

namespace Cadence.Toml

/-- Takes a value that holds no other one off the front of a text. -/
def takeScalar? (text : List Char) : Option (Datum × List Char) :=
  match quoted? text with
  | some (content, rest) => some (.text (.ofList content), rest)
  | none => takeBare? text

theorem length_lt_of_takeScalar? {text rest : List Char} {value : Datum}
    (taken : takeScalar? text = some (value, rest)) : rest.length < text.length := by
  unfold takeScalar? at taken
  split at taken
  · next read =>
    simp only [Option.some.injEq, Prod.mk.injEq] at taken
    rw [← taken.2]
    exact length_lt_of_quoted? read
  · exact length_lt_of_takeBare? taken

/-- Takes a key, an equals sign and the blanks around it off the front of a text. -/
def takeName? (text : List Char) : Option (List String × List Char) :=
  match takePath? text with
  | some (path, '=' :: rest) => some (path, skipBlank rest)
  | _ => none

theorem length_lt_of_takeName? {text rest : List Char} {path : List String}
    (taken : takeName? text = some (path, rest)) : rest.length < text.length := by
  unfold takeName? at taken
  split at taken
  · next _ after takenPath =>
    simp only [Option.some.injEq, Prod.mk.injEq] at taken
    have := length_lt_of_takePath? takenPath
    have := length_skipBlank_le after
    rw [← taken.2]
    rw [List.length_cons] at *
    omega
  · simp at taken

/-- What was read off the front of a text, and the rest of it. -/
structure Taken (α : Type) (text : List Char) where
  value : α
  rest : List Char
  shorter : rest.length < text.length

/-- Adds the fields of an inline table one by one. -/
def inlineTable? (fields : List (List String × Datum)) : Option Datum :=
  let entries := fields.foldlM (fun entries (path, value) => do
    let key ← path.getLast?
    Entries.addEntry? path.dropLast key value entries) []
  entries.map fun entries => .table (Toml.fields entries)

mutual

/-- Takes a value off the front of a text. -/
def takeValue? (room : Nat) (text : List Char) : Option (Taken Datum text) :=
  match text with
  | '[' :: rest =>
    if room = 0 then none
    else
      (takeItems? (room - 1) rest).map fun taken =>
        ⟨.list taken.value, taken.rest, Nat.lt_succ_of_lt taken.shorter⟩
  | '{' :: rest =>
    if room = 0 then none
    else match blanks : skipBlank rest with
    | '}' :: after => some ⟨.table [], after, by
        have := length_skipBlank_le rest
        rw [blanks] at this
        simp at this ⊢
        omega⟩
    | _ => do
      let taken ← takeFields? (room - 1) rest
      let table ← inlineTable? taken.value
      return ⟨table, taken.rest, Nat.lt_succ_of_lt taken.shorter⟩
  | text =>
    match taken : takeScalar? text with
    | some (value, rest) => some ⟨value, rest, length_lt_of_takeScalar? taken⟩
    | none => none
termination_by 2 * text.length

/-- Takes the items of a list and its closing bracket off the front of a text. -/
def takeItems? (room : Nat) (text : List Char) : Option (Taken (List Datum) text) :=
  match gap : skipGap false text with
  | none => none
  | some (']' :: rest) => some ⟨[], rest, length_le_of_skipGap gap⟩
  | some start =>
    have := length_le_of_skipGap gap
    match takeValue? room start with
    | none => none
    | some item =>
      have := item.shorter
      match after : skipGap false item.rest with
      | some (',' :: rest) =>
        have := length_le_of_skipGap after
        have : rest.length < text.length := by
          rw [List.length_cons] at this
          omega
        (takeItems? room rest).map fun taken =>
          ⟨item.value :: taken.value, taken.rest, by have := taken.shorter; omega⟩
      | some (']' :: rest) =>
        some ⟨[item.value], rest, by
          have := length_le_of_skipGap after
          rw [List.length_cons] at this
          omega⟩
      | _ => none
termination_by 2 * text.length + 1

/-- Takes the fields of an inline table and its closing brace off the front of a text. -/
def takeFields? (room : Nat) (text : List Char) :
    Option (Taken (List (List String × Datum)) text) :=
  match name : takeName? text with
  | none => none
  | some (path, start) =>
    have := length_lt_of_takeName? name
    match takeValue? room start with
    | none => none
    | some field =>
      have := field.shorter
      have := length_skipBlank_le field.rest
      match after : skipBlank field.rest with
      | ',' :: rest =>
        have : rest.length < text.length := by
          rw [after, List.length_cons] at this
          omega
        (takeFields? room rest).map fun taken =>
          ⟨(path, field.value) :: taken.value, taken.rest, by have := taken.shorter; omega⟩
      | '}' :: rest =>
        some ⟨[(path, field.value)], rest, by
          rw [after, List.length_cons] at this
          omega⟩
      | _ => none
termination_by 2 * text.length + 1

end

end Cadence.Toml
