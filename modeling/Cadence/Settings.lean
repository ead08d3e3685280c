import Cadence.Occurrence.Query
import Cadence.Rule.Reading
import Cadence.Toml.Document
import Cadence.Toml.Record

/-!
# Settings

The five choices that a user of the library can set: how far to look for dates, how many to show in
a preview, what the two open points of a rule's meaning are, and whether faulty patterns are
refused.

Settings are kept in a file, as a TOML document.  A file sets only what it names and everything else
keeps its default; names that are no settings are passed over, but a setting with a value that it
cannot have makes the file fail as a whole, and so does a number anywhere that is too large to be
read.  A file that does not exist sets nothing.
-/

namespace Cadence

structure Settings where
  /-- The number of days after the anchor in which dates are looked for. -/
  searchHorizon : UInt32 := 365
  /-- The number of dates in a preview. -/
  previewCount : UInt64 := 5
  weeklyInterval : WeeklyInterval := .ignore
  leapDay : LeapDay := .skip
  policy : Policy := .lenient
deriving DecidableEq

/-- What there is where the settings are looked for. -/
inductive SettingsFile where
  | missing
  /-- Something that cannot be read as a file. -/
  | unreadable
  /-- A file with the given bytes. -/
  | content (bytes : ByteArray)

/-- Why settings do not load. -/
inductive SettingsFault where
  /-- The file cannot be read as text. -/
  | unreadable
  /-- The text is no document, or a setting has a value that it cannot have. -/
  | malformed
deriving DecidableEq, Repr

/-- The fault in words, for a file that the user knows under the given name. -/
def SettingsFault.message (fault : SettingsFault) (file : String) : String :=
  match fault with
  | .unreadable => s!"Failed to read config file {file}"
  | .malformed => s!"Failed to parse config file {file}"

namespace Settings

instance : Inhabited Settings := ⟨{}⟩

/-- The chosen meaning of rules. -/
def options (settings : Settings) : FiringOptions :=
  { weeklyInterval := settings.weeklyInterval, leapDay := settings.leapDay }

/-- A setting among the fields of a document, or its default if it is left out. -/
def setting? {α : Type} (fields : List (String × Datum)) (key : String)
    (read? : Datum → Option α) (default : α) : Option α :=
  (Datum.optional read? (fields.lookup key)).map (·.getD default)

/-- The settings that the fields of a document give. -/
def ofFields? (fields : List (String × Datum)) : Option Settings := do
  let default : Settings := {}
  let choice {α : Type} (ofName? : String → Option α) (datum : Datum) := datum.choice? >>= ofName?
  return {
    searchHorizon := ← setting? fields "search_horizon_days" Datum.word? default.searchHorizon
    previewCount := ← setting? fields "preview_count" Datum.longWord? default.previewCount
    weeklyInterval :=
      ← setting? fields "weekly_interval" (choice WeeklyInterval.ofName?) default.weeklyInterval
    leapDay := ← setting? fields "leap_day" (choice LeapDay.ofName?) default.leapDay
    policy := ← setting? fields "parse_mode" (choice Policy.ofName?) default.policy }

def load : SettingsFile → Except SettingsFault Settings
  | .missing => .ok {}
  | .unreadable => .error .unreadable
  | .content bytes =>
    match String.fromUTF8? bytes with
    | none => .error .unreadable
    | some text =>
      match Toml.readableDocument? text >>= ofFields? with
      | none => .error .malformed
      | some settings => .ok settings

def record (settings : Settings) : Toml.Record :=
  { values :=
      [("search_horizon_days", .number settings.searchHorizon.toNat),
        ("preview_count", .number settings.previewCount.toNat),
        ("weekly_interval", .text settings.weeklyInterval.name),
        ("leap_day", .text settings.leapDay.name),
        ("parse_mode", .text settings.policy.name)] }

def document (settings : Settings) : String := settings.record.document

end Settings

end Cadence
