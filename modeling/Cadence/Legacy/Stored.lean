import Cadence.Legacy.Columns
import Cadence.Toml.Document
import Cadence.Toml.Record

/-!
# Stored legacy columns

Legacy columns as a TOML document with one field a column.  Here a pattern has to be named exactly.
-/

namespace Cadence.LegacyColumns

/-- The columns that the fields of a document give. -/
def ofFields? (fields : List (String × Datum)) : Option LegacyColumns := do
  let name ← (← fields.lookup "recurrence_pattern").choice?
  let pattern ← LegacyPattern.ofName? name.toList
  let config ← Datum.optional Datum.text? (fields.lookup "recurrence_config")
  return { pattern, config }

def load? (text : String) : Option LegacyColumns := Toml.readableDocument? text >>= ofFields?

def record (columns : LegacyColumns) : Toml.Record :=
  { values :=
      ("recurrence_pattern", .text columns.pattern.name) ::
        columns.config.toList.map fun config => ("recurrence_config", .text config) }

def document (columns : LegacyColumns) : String := columns.record.document

end Cadence.LegacyColumns
