import Cadence.Toml.Value

/-!
# Documents

A TOML document is a table, written as lines: a header opens a table or an element of a list of
tables, and an entry adds a value to what was opened last.

`document?` reads a document.  A byte order mark in front of it is skipped.  Numbers may be written
that no reader can take; `readableDocument?` refuses a document with such a number.
-/

namespace Cadence.Toml

/-- A line of a document that is not blank. -/
inductive Line where
  | table (path : List String)
  | element (path : List String)
  | entry (path : List String) (value : Datum)

/-- Takes the closing brackets of a header off the front of a text. -/
def takeClosing? (brackets : Nat) (text : List Char) : Option (List Char) :=
  if text.take brackets = List.replicate brackets ']' then some (text.drop brackets) else none

/-- Takes a line off the front of a text, but for its end. -/
def takeLine? (text : List Char) : Option (Line × List Char) :=
  match text with
  | '[' :: '[' :: rest => do
    let (path, rest) ← takePath? rest
    return (.element path, ← takeClosing? 2 rest)
  | '[' :: rest => do
    let (path, rest) ← takePath? rest
    return (.table path, ← takeClosing? 1 rest)
  | text => do
    let (path, rest) ← takeName? text
    let taken ← takeValue? deepest rest
    return (.entry path taken.value, taken.rest)

theorem length_le_of_takeClosing? {brackets : Nat} {text rest : List Char}
    (taken : takeClosing? brackets text = some rest) : rest.length ≤ text.length := by
  unfold takeClosing? at taken
  split at taken
  · rw [← Option.some.inj taken, List.length_drop]
    omega
  · simp at taken

theorem length_lt_of_takeLine? {text rest : List Char} {line : Line}
    (taken : takeLine? text = some (line, rest)) : rest.length < text.length := by
  unfold takeLine? at taken
  split at taken
  · simp only [Option.bind_eq_bind, Option.bind_eq_some_iff] at taken
    obtain ⟨⟨_, _⟩, path, _, closing, pair⟩ := taken
    simp only [Option.pure_def, Option.some.injEq, Prod.mk.injEq] at pair
    have := length_lt_of_takePath? path
    have := length_le_of_takeClosing? closing
    grind
  · simp only [Option.bind_eq_bind, Option.bind_eq_some_iff] at taken
    obtain ⟨⟨_, _⟩, path, _, closing, pair⟩ := taken
    simp only [Option.pure_def, Option.some.injEq, Prod.mk.injEq] at pair
    have := length_lt_of_takePath? path
    have := length_le_of_takeClosing? closing
    grind
  · simp only [Option.bind_eq_bind, Option.bind_eq_some_iff] at taken
    obtain ⟨⟨_, _⟩, name, value, _, pair⟩ := taken
    simp only [Option.pure_def, Option.some.injEq, Prod.mk.injEq] at pair
    have := length_lt_of_takeName? name
    have := value.shorter
    grind

def lines? (text : List Char) : Option (List Line) :=
  match gap : skipGap false text with
  | none => none
  | some [] => some []
  | some start =>
    match taken : takeLine? start with
    | none => none
    | some (line, rest) =>
      have : rest.length < text.length :=
        Nat.lt_of_lt_of_le (length_lt_of_takeLine? taken) (length_le_of_skipGap gap)
      if mayEndLine (skipBlank rest) then (lines? rest).map (line :: ·) else none
termination_by text.length

/-- A document that is being read: what it holds, and the path of the table opened last. -/
structure Draft where
  root : Entries := []
  opened : List String := []

/-- Adds a line to what was read. -/
def Draft.add? (draft : Draft) : Line → Option Draft
  | .table path => do
    let root ← Entries.addTable? path.dropLast (← path.getLast?) draft.root
    return { root, opened := path }
  | .element path => do
    let root ← Entries.addElement? path.dropLast (← path.getLast?) draft.root
    return { root, opened := path }
  | .entry path value => do
    let key ← path.getLast?
    let add := Entries.addEntry? path.dropLast key value
    let root ← Entries.modify? .implied (fun _ => add) .declared draft.root draft.opened
    return { draft with root }

def document? (text : String) : Option (List (String × Datum)) := do
  let text := match text.toList with
    | '\ufeff' :: rest => rest
    | text => text
  let draft ← (← lines? text).foldlM Draft.add? {}
  return fields draft.root

/-- The fields of a document in which no number is too large. -/
def readableDocument? (text : String) : Option (List (String × Datum)) :=
  (document? text).filter Datum.fieldsInRange

end Cadence.Toml
