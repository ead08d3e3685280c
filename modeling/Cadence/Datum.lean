/-!
# Stored data

`Datum` is a value as a document holds it, whatever the document's format: a scalar, a list or a
table of named values.  The readers of stored records work on it and take nothing from the format.

A null stands for a value that is left out.
-/

namespace Cadence

inductive Datum where
  | null
  | boolean (value : Bool)
  | integer (value : Int)
  /-- A number that is written with a fraction or an exponent, as it is written. -/
  | float (text : String)
  /-- A number that is too large for any number type.  It may stand where nobody reads it. -/
  | overflow
  | text (value : String)
  /-- A date or a time, as it is written. -/
  | moment (text : String)
  | list (items : List Datum)
  | table (fields : List (String × Datum))

namespace Datum

instance : Inhabited Datum := ⟨null⟩

mutual

/-- Whether no number in the value is too large. -/
def isInRange : Datum → Bool
  | overflow => false
  | list items => areInRange items
  | table fields => fieldsInRange fields
  | _ => true

/-- Whether no number in the values is too large. -/
def areInRange : List Datum → Bool
  | [] => true
  | item :: items => item.isInRange && areInRange items

/-- Whether no number in the named values is too large. -/
def fieldsInRange : List (String × Datum) → Bool
  | [] => true
  | (_, value) :: fields => value.isInRange && fieldsInRange fields

end

def text? : Datum → Option String
  | text value => some value
  | _ => none

/-- The natural number up to `limit` that the value is. -/
def natural? (limit : Nat) : Datum → Option Nat
  | integer (.ofNat value) => if value ≤ limit then some value else none
  | _ => none

def word? (datum : Datum) : Option UInt32 :=
  (datum.natural? (UInt32.size - 1)).map UInt32.ofNat

def longWord? (datum : Datum) : Option UInt64 :=
  (datum.natural? (UInt64.size - 1)).map UInt64.ofNat

/-- The word that a value without further content spells: a text, or a table that holds an empty
list or table under one name. -/
def choice? : Datum → Option String
  | text value => some value
  | table [(name, list [])] | table [(name, table [])] => some name
  | _ => none

/-- Reads a value that may be left out: nothing from a null or from no value at all. -/
def optional {α : Type} (read? : Datum → Option α) : Option Datum → Option (Option α)
  | none | some null => some none
  | some datum => (read? datum).map some

end Datum

end Cadence
