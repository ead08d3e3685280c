import Cadence.Datum

/-!
# Reading stored values

What the readers of a stored value accept.  A word is an integer in the range of the word and
nothing else (`word?_eq_some_iff`, `longWord?_eq_some_iff`), and a value that may be left out is
read if it is there.
-/

namespace Cadence.Datum

variable {α : Type} {datum : Datum} {limit : Nat}

theorem natural?_eq_some_iff {n : Nat} :
    datum.natural? limit = some n ↔ datum = .integer n ∧ n ≤ limit := by
  cases datum with
  | integer value =>
    cases value with
    | ofNat m =>
      simp only [natural?, integer.injEq, Int.ofNat_eq_natCast, Int.natCast_inj]
      split <;> grind
    | negSucc m => simp [natural?]
  | null | boolean _ | float _ | overflow | text _ | moment _ | list _ | table _ => simp [natural?]

/-- A reader that goes on from a natural number to a word finds the word with that number. -/
theorem natural?_map_eq_some_iff {ofNat : Nat → α} {toNat : α → Nat}
    (value : ∀ {n}, n ≤ limit → toNat (ofNat n) = n)
    (bounded : ∀ word, toNat word ≤ limit ∧ ofNat (toNat word) = word) {word : α} :
    (datum.natural? limit).map ofNat = some word ↔ datum = .integer (toNat word) := by
  simp only [Option.map_eq_some_iff, natural?_eq_some_iff]
  constructor
  · rintro ⟨n, ⟨rfl, fits⟩, rfl⟩
    rw [value fits]
  · rintro rfl
    exact ⟨_, ⟨rfl, (bounded word).1⟩, (bounded word).2⟩

theorem word?_eq_some_iff {word : UInt32} :
    datum.word? = some word ↔ datum = .integer (word.toNat : Nat) :=
  natural?_map_eq_some_iff
    (fun fits => UInt32.toNat_ofNat_of_lt' (Nat.lt_of_le_of_lt fits (by decide)))
    fun word => ⟨Nat.le_of_lt_succ word.toNat_lt, UInt32.ofNat_toNat⟩

theorem longWord?_eq_some_iff {word : UInt64} :
    datum.longWord? = some word ↔ datum = .integer (word.toNat : Nat) :=
  natural?_map_eq_some_iff
    (fun fits => UInt64.toNat_ofNat_of_lt' (Nat.lt_of_le_of_lt fits (by decide)))
    fun word => ⟨Nat.le_of_lt_succ word.toNat_lt, UInt64.ofNat_toNat⟩

/-- A table is in range if every value in it is. -/
theorem fieldsInRange_iff {fields : List (String × Datum)} :
    fieldsInRange fields = true ↔ ∀ field ∈ fields, field.2.isInRange = true := by
  induction fields with
  | nil => simp [fieldsInRange]
  | cons field fields ih => rw [fieldsInRange, Bool.and_eq_true, ih, List.forall_mem_cons]

end Cadence.Datum
