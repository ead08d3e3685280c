import Cadence.Datum

/-!
# Tables under construction

A TOML document defines its tables piecemeal: by headers, by dotted keys, and by elements of lists
of tables.  While it is read, every table remembers how it came to be, since that decides what may
still be added to it.

* A table that a header names is complete in itself: no other header may name it.
* A table that only stands on the path of a header may later get a header of its own, once.
* A table that dotted keys make may get further values from dotted keys only.
* A value that is written out, an inline table included, is closed.

`addEntry?`, `addTable?` and `addElement?` are the three ways to add to a document; each fails if
the value is defined already or if its path leads through a closed value.
-/

namespace Cadence.Toml

/-- How a table came to be. -/
inductive Origin where
  /-- By a header of its own; so does the outermost table. -/
  | declared
  /-- On the path of a header. -/
  | implied
  /-- On the path of a dotted key. -/
  | dotted
deriving DecidableEq, Repr

/-- A value under construction. -/
inductive Node where
  | value (datum : Datum)
  /-- A table that can grow. -/
  | table (origin : Origin) (entries : List (String × Node))
  /-- A list of tables of which the last one can grow. -/
  | elements (earlier : List Datum) (last : List (String × Node))

/-- The named values of a table under construction. -/
abbrev Entries := List (String × Node)

mutual

/-- The value, once nothing more is added to it. -/
def Node.datum : Node → Datum
  | .value datum => datum
  | .table _ entries => .table (fields entries)
  | .elements earlier last => .list (earlier ++ [.table (fields last)])

/-- The fields of a table, once nothing more is added to it. -/
def fields : List (String × Node) → List (String × Datum)
  | [] => []
  | (key, node) :: entries => (key, node.datum) :: fields entries

end

theorem fields_eq_map (entries : List (String × Node)) :
    fields entries = entries.map fun (key, node) => (key, node.datum) := by
  induction entries with
  | nil => rfl
  | cons entry entries ih => rw [fields, ih, List.map_cons]

namespace Entries

/-- Puts a value in the place of the one with the same key. -/
def replace (entries : Entries) (key : String) (node : Node) : Entries :=
  entries.map fun entry => if entry.1 == key then (key, node) else entry

/-- Adds a value under a new key. -/
def push (entries : Entries) (key : String) (node : Node) : Entries := entries ++ [(key, node)]

/-- Changes the table that a path leads to.  Tables missing on the path are made with the given
origin; the path of a dotted key may not lead through a declared table.  The change is told the
origin of the table. -/
def modify? (onPath : Origin) (change : Origin → Entries → Option Entries) (origin : Origin)
    (entries : Entries) : List String → Option Entries
  | [] => change origin entries
  | key :: path =>
    match entries.lookup key with
    | none =>
      (modify? onPath change onPath [] path).map fun inner => entries.push key (.table onPath inner)
    | some (.table origin inner) =>
      if onPath = .dotted ∧ origin = .declared then none
      else
        (modify? onPath change origin inner path).map fun inner =>
          entries.replace key (.table origin inner)
    -- A path leads into the last element, which counts as declared by its header.
    | some (.elements earlier last) =>
      (modify? onPath change .declared last path).map fun last =>
        entries.replace key (.elements earlier last)
    | some (.value _) => none

/-- Adds a value under a dotted key within a declared table. -/
def addEntry? (path : List String) (key : String) (datum : Datum) (entries : Entries) :
    Option Entries :=
  modify? .dotted (fun origin entries =>
    -- The table at the end of a path must be one that dotted keys made.
    if (origin = .dotted ↔ path ≠ []) ∧ (entries.lookup key).isNone then
      some (entries.push key (.value datum))
    else none) .declared entries path

/-- Adds a table with a header of its own. -/
def addTable? (path : List String) (key : String) (entries : Entries) : Option Entries :=
  modify? .implied (fun _ entries =>
    match entries.lookup key with
    | none => some (entries.push key (.table .declared []))
    -- So far the table only stood on a path; now it gets the one header that it may have.
    | some (.table .implied inner) => some (entries.replace key (.table .declared inner))
    | some _ => none) .declared entries path

/-- Adds an element to a list of tables, which the first element starts. -/
def addElement? (path : List String) (key : String) (entries : Entries) : Option Entries :=
  modify? .implied (fun _ entries =>
    match entries.lookup key with
    | none => some (entries.push key (.elements [] []))
    | some (.elements earlier last) =>
      some (entries.replace key (.elements (earlier ++ [.table (fields last)]) []))
    | some _ => none) .declared entries path

end Entries

end Cadence.Toml
