import Cadence.Ending.Stored
import Cadence.Rule.Pattern
import Cadence.Toml.Document
import Cadence.Toml.Record

/-!
# Stored rows

A series is stored as a row of two fields: the pattern of its rule, and the record of its ending.
A row always loads with some rule, since patterns are read leniently, but only with a sound ending.
Other fields are passed over.
-/

namespace Cadence

/-- The stored part of a series. -/
structure Row where
  rule : Rule
  ending : Ending
deriving DecidableEq

/-- The rule as a stored value: its pattern. -/
def Rule.value (rule : Rule) : Toml.Scalar := .text rule.pattern

/-- The rule that a stored value gives.  Only a text gives one, and any text does. -/
def Rule.ofDatum? (datum : Datum) : Option Rule := datum.text?.map .parse

/-- The record of an ending as named values. -/
def StoredEnding.values (stored : StoredEnding) : List (String × Toml.Scalar) :=
  ("kind", .text stored.kind) ::
    ((stored.count.toList.map fun count => ("count", .number count.toNat)) ++
      stored.date.toList.map fun date => ("date", .text date.text))

namespace Row

/-- The row that the fields of a document give.  Fields are read in the order of their names, and
the first fault counts: that of the ending, unless a field before it holds a number that is too
large to be read. -/
def ofFields (fields : List (String × Datum)) : Except LoadFault Row := do
  let (before, after) := (fields.filter (·.1 ≠ "end")).partition (·.1 < "end")
  unless Datum.fieldsInRange before do throw .shape
  match fields.lookup "end" with
  | none => throw .shape
  | some datum =>
    let ending ← Ending.ofDatum .ignored datum
    unless Datum.fieldsInRange after do throw .shape
    match fields.lookup "pattern" >>= Rule.ofDatum? with
    | none => throw .shape
    | some rule => return { rule, ending }

def load (text : String) : Except LoadFault Row :=
  match Toml.document? text with
  | none => .error .shape
  | some fields => ofFields fields

def record (row : Row) : Toml.Record :=
  { values := [("pattern", row.rule.value)]
    tables := [("end", row.ending.stored.values)] }

def document (row : Row) : String := row.record.document

end Row

end Cadence
