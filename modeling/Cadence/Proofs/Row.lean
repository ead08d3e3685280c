import Cadence.Proofs.Ending.Stored
import Cadence.Proofs.Pattern.Normal
import Cadence.Proofs.Toml.Record

/-!
# Stored rows, read back

`Row.Holds` says what a document has to hold to load as a row: a pattern, which may be any text at
all, and an ending in any of its forms.  What else there is does not count, as long as it holds no
number that is too large to be read.

A row is written as a record (`isPlain_record`), so its document holds what was stored and the row
comes back if its rule does.  Every rule that was read from a pattern does, a repaired one too: what
is loaded from a document of whatever kind is stable from the first time that it is saved.
-/

namespace Cadence

theorem Rule.ofDatum?_eq_some_iff {datum : Datum} {rule : Rule} :
    ofDatum? datum = some rule ↔ ∃ pattern, datum = .text pattern ∧ parse pattern = rule := by
  cases datum <;> simp [ofDatum?, Datum.text?]

theorem StoredEnding.arePlain_values (stored : StoredEnding) : Toml.ArePlain stored.values where
  bare := by
    obtain ⟨kind, count, date⟩ := stored
    cases count <;> cases date <;> simp [values] <;> decide
  fit := by
    obtain ⟨kind, count, date⟩ := stored
    have word (word : UInt32) : Toml.fitsWord word.toNat = true :=
      Toml.fitsWord_of_lt (Nat.lt_trans word.toNat_lt (by decide))
    cases count <;> cases date <;> simp [values, Toml.Scalar.Fits, word]
  distinct := by
    obtain ⟨kind, count, date⟩ := stored
    cases count <;> cases date <;> simp [values]

namespace Row

variable {fields before after : List (String × Datum)} {row : Row} {text : String}

/-! ## What a row is read from -/

/-- The fields are those of the row, and others that do not count. -/
structure Holds (fields : List (String × Datum)) (row : Row) : Prop where
  rule : ∃ pattern, fields.lookup "pattern" = some (.text pattern) ∧ Rule.parse pattern = row.rule
  ending : ∃ datum, fields.lookup "end" = some datum ∧
    Ending.ofDatum .ignored datum = .ok row.ending
  /-- The fields of an ending are checked when the ending is read. -/
  inRange : ∀ field ∈ fields, field.1 ≠ "end" → field.2.isInRange = true

theorem fieldsInRange_partition {first : String × Datum → Bool}
    (parts : fields.partition first = (before, after)) :
    (Datum.fieldsInRange before = true ∧ Datum.fieldsInRange after = true) ↔
      ∀ field ∈ fields, field.2.isInRange = true := by
  rw [List.partition_eq_filter_filter, Prod.mk.injEq] at parts
  obtain ⟨rfl, rfl⟩ := parts
  simp only [Datum.fieldsInRange_iff, List.mem_filter]
  constructor
  · rintro ⟨before, after⟩ field member
    by_cases early : first field = true
    · exact before field ⟨member, early⟩
    · exact after field ⟨member, by simp [early]⟩
  · exact fun all => ⟨fun field found => all field found.1, fun field found => all field found.1⟩

theorem ofFields_eq_ok_iff : ofFields fields = .ok row ↔ Holds fields row := by
  rw [ofFields]
  cases parts : (fields.filter (·.1 ≠ "end")).partition (·.1 < "end") with
  | mk before after =>
    have range := fieldsInRange_partition parts
    simp only [List.mem_filter, decide_eq_true_eq, and_imp] at range
    dsimp only
    constructor
    · intro loaded
      split at loaded
      case isFalse => contradiction
      next early =>
      split at loaded
      · contradiction
      next datum found =>
      cases read : Ending.ofDatum .ignored datum with
      | error fault =>
        rw [read] at loaded
        contradiction
      | ok ending =>
        rw [read] at loaded
        simp only [bind, Except.bind] at loaded
        split at loaded
        case isFalse => contradiction
        next late =>
        split at loaded
        · contradiction
        next rule known =>
        obtain ⟨stored, foundPattern, isRule⟩ := Option.bind_eq_some_iff.mp known
        obtain ⟨pattern, rfl, parsed⟩ := Rule.ofDatum?_eq_some_iff.mp isRule
        cases loaded
        exact ⟨⟨pattern, foundPattern, parsed⟩, ⟨datum, found, read⟩, range.mp ⟨early, late⟩⟩
    · rintro ⟨⟨pattern, foundPattern, parsed⟩, ⟨datum, foundEnding, read⟩, inRange⟩
      obtain ⟨early, late⟩ := range.mpr inRange
      have known := Rule.ofDatum?_eq_some_iff.mpr ⟨pattern, rfl, parsed⟩
      simp [early, late, foundPattern, foundEnding, read, known]

theorem load_eq_ok_iff :
    load text = .ok row ↔ ∃ fields, Toml.document? text = some fields ∧ Holds fields row := by
  unfold load
  split
  · next none => simp [none]
  · next fields found => simp [found, ofFields_eq_ok_iff]

/-! ## What is written for a row -/

theorem isPlain_record (row : Row) : row.record.IsPlain where
  values :=
    { bare := by simp [record]; decide
      fit := by simp [record, Rule.value, Toml.Scalar.Fits]
      distinct := by simp [record] }
  tables := by
    simp only [record, List.forall_mem_singleton]
    exact ⟨by decide, row.ending.stored.arePlain_values⟩
  distinct := by simp [record]

theorem holds_fields (legible : row.rule.IsLegible) : Holds row.record.fields row where
  rule := ⟨row.rule.pattern, rfl, Rule.parse_pattern_of_isLegible legible⟩
  ending := by
    refine ⟨row.ending.stored.datum, rfl, ?_⟩
    have held := StoredEnding.holds_stored row.ending
    rw [Ending.ofDatum, StoredEnding.ofDatum?_datum]
    exact congrArg (Except.mapError LoadFault.ending) (StoredEnding.ending_of_holds held)
  inRange field member _ :=
    Datum.fieldsInRange_iff.mp (Toml.fieldsInRange_fields row.record) field member

theorem load_document_of_isLegible (legible : row.rule.IsLegible) : load row.document = .ok row :=
  load_eq_ok_iff.mpr ⟨_, Toml.document?_document row.isPlain_record, holds_fields legible⟩

theorem isLegible_of_load (loaded : load text = .ok row) : row.rule.IsLegible := by
  obtain ⟨fields, _, holds⟩ := load_eq_ok_iff.mp loaded
  obtain ⟨pattern, _, parsed⟩ := holds.rule
  rw [← parsed]
  exact Rule.isLegible_parse pattern

/-- A document loads as a row exactly if it holds the row.  A row with a legible rule comes back
from its document.  So does every row that was loaded from any document, and what is written for it
then is what was written for it before. -/
theorem stored_stable :
    (∀ text row, load text = .ok row ↔
        ∃ fields, Toml.document? text = some fields ∧ Holds fields row) ∧
      (∀ row : Row, row.rule.IsLegible → load row.document = .ok row) ∧
      ∀ text row, load text = .ok row →
        load row.document = .ok row ∧ (load row.document).map document = .ok row.document := by
  refine ⟨fun _ _ => load_eq_ok_iff, fun _ => load_document_of_isLegible, ?_⟩
  intro text row loaded
  have back := load_document_of_isLegible (isLegible_of_load loaded)
  rw [back]
  exact ⟨rfl, rfl⟩

/-- A document with a faulty pattern and with more than a row holds. -/
theorem stored_repaired :
    let stored : Toml.Record :=
      { values := [("pattern", .text " weekly:0:9"), ("note", .number 7)]
        tables := [("end", [("kind", .text "never"), ("count", .number 3)])] }
    let row : Row := { rule := .weekly .one (.single .monday), ending := .never }
    load stored.document = .ok row ∧ row.rule.IsLegible ∧ load row.document = .ok row ∧
      stored.document ≠ row.document := by
  intro stored row
  have plain : stored.IsPlain := by decide
  have holds : Holds stored.fields row :=
    { rule := ⟨" weekly:0:9", rfl, by rfl⟩
      ending := ⟨_, rfl, by rfl⟩
      inRange := fun field member _ =>
        Datum.fieldsInRange_iff.mp (Toml.fieldsInRange_fields stored) field member }
  have loaded := (stored_stable.1 _ row).mpr ⟨_, Toml.document?_document plain, holds⟩
  have legible : row.rule.IsLegible := isLegible_of_load loaded
  exact ⟨loaded, legible, stored_stable.2.1 row legible, by decide⟩

end Row

end Cadence
