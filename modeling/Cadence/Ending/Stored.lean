import Cadence.Datum
import Cadence.Ending.Text

/-!
# Stored endings

An ending is stored as a record of its kind and the value that the kind needs.  A record may hold
more than its kind needs; loading leaves that aside and storing drops it.

* `Ending.stored` and `StoredEnding.ending` pass between an ending and its record.
* `StoredEnding.ofDatum?` reads the record from a table or from a list, and fails if any of its
  values has the wrong type, needed or not.  Nobody reads the surplus elements of a list.
* `Ending.ofDatum` does both steps and tells a record that is none from one that is faulty.
-/

namespace Cadence

structure StoredEnding where
  kind : String
  count : Option UInt32 := none
  date : Option Date := none
deriving DecidableEq

/-- What becomes of the elements of a list that a record has no place for. -/
inductive Surplus where
  | refused
  | ignored
deriving DecidableEq, Repr

/-- Why stored data does not load. -/
inductive LoadFault where
  /-- The data is no record of the kind asked for. -/
  | shape
  /-- The record of an ending is faulty. -/
  | ending (fault : EndingFault)
deriving DecidableEq, Repr

/-- The fault in words, if it has words of its own. -/
def LoadFault.message? : LoadFault → Option String
  | .shape => none
  | .ending fault => some fault.message

def Ending.stored (ending : Ending) : StoredEnding :=
  let kind := ending.kind.text
  match ending with
  | never => { kind }
  | after count => { kind, count := some count.word }
  | on date => { kind, date := some date }

namespace StoredEnding

def ending (stored : StoredEnding) : Except EndingFault Ending :=
  match EndingKind.ofWord? stored.kind.toList with
  | none => .error (.unknownKind stored.kind)
  | some .never => .ok .never
  | some .after =>
    match stored.count with
    | none => .error (.missingField .after .count)
    | some word =>
      match Count.ofNat? word.toNat with
      | none => .error (.invalidCount (toString word.toNat))
      | some count => .ok (.after count)
  | some .on =>
    match stored.date with
    | none => .error (.missingField .on .date)
    | some date => .ok (.on date)

/-- A date as records hold it: a text, with blanks allowed wherever a reader can skip them. -/
def date? (datum : Datum) : Option Date :=
  datum.text? >>= fun text => Date.read? .loose text.toList

def ofValues? (kind count date : Option Datum) : Option StoredEnding := do
  let kind ← (← kind).text?
  let count ← Datum.optional Datum.word? count
  let date ← Datum.optional date? date
  return { kind, count, date }

/-- The record that the data holds, as a table or as a list in the order kind, count, date. -/
def ofDatum? (surplus : Surplus) : Datum → Option StoredEnding
  | .table fields =>
    -- Fields that the record has no place for are read all the same.
    if Datum.fieldsInRange fields then
      ofValues? (fields.lookup "kind") (fields.lookup "count") (fields.lookup "date")
    else none
  | .list items =>
    if surplus = .refused ∧ 3 < items.length then none
    else ofValues? items[0]? items[1]? items[2]?
  | _ => none

end StoredEnding

def Ending.ofDatum (surplus : Surplus) (datum : Datum) : Except LoadFault Ending :=
  match StoredEnding.ofDatum? surplus datum with
  | none => .error .shape
  | some stored => stored.ending.mapError .ending

end Cadence
