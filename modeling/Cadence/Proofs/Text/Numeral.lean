import Cadence.Count
import Cadence.Proofs.Text.Division

/-!
# What a numeral denotes

`IsNumeral text n` says that a text is a numeral for `n` without reading it: one or more digits,
after one plus sign or none, with `n` as their value.  Leading zeros do not change the value, and it
is exact, so a numeral for a number that is out of range is no numeral for any other number.

`IsDigits` is the same for digits without a sign, as dates have them, where zeros in front fill a
number up to a width.

`numeral?` finds the number of a numeral and nothing else (`numeral?_eq_some_iff`).  The readers
that take a number on to a weekday, a month or a count do so through `IsNumeral` of its number.
-/

namespace Cadence.Text

/-- The text is a numeral for `n`. -/
def IsNumeral (text : List Char) (n : Nat) : Prop :=
  ∃ digits, (text = digits ∨ text = '+' :: digits) ∧ digits ≠ [] ∧
    (∀ c ∈ digits, c.isDigit = true) ∧ Nat.ofDigitChars 10 digits 0 = n

/-- The text consists of one or more digits, which have the value `n`. -/
def IsDigits (text : List Char) (n : Nat) : Prop :=
  text ≠ [] ∧ (∀ c ∈ text, c.isDigit = true) ∧ Nat.ofDigitChars 10 text 0 = n

theorem digits?_eq_some_iff {text : List Char} {n : Nat} :
    digits? text = some n ↔ IsDigits text n := by
  rw [digits?, IsDigits, ← List.all_eq_true]
  split
  · next digits => simp [digits.1, digits.2]
  · next other =>
    simp only [reduceCtorEq, false_iff]
    exact fun found => other ⟨found.1, found.2.1⟩

theorem numeral?_eq_some_iff {text : List Char} {n : Nat} :
    numeral? text = some n ↔ IsNumeral text n := by
  constructor
  · intro found
    unfold numeral? at found
    split at found
    · next digits => exact ⟨digits, .inr rfl, digits?_eq_some_iff.mp found⟩
    · exact ⟨text, .inl rfl, digits?_eq_some_iff.mp found⟩
  · rintro ⟨digits, rfl | rfl, numeral⟩
    · -- Digits alone do not start with the sign.
      have unsigned : ∀ rest, text ≠ '+' :: rest := by
        rintro rest rfl
        exact absurd (numeral.2.1 '+' List.mem_cons_self) (by decide)
      rw [numeral?.eq_2 _ unsigned]
      exact digits?_eq_some_iff.mpr numeral
    · exact digits?_eq_some_iff.mpr numeral

theorem IsNumeral.unique {text : List Char} {m n : Nat} (first : IsNumeral text m)
    (second : IsNumeral text n) : m = n := by
  rw [← numeral?_eq_some_iff] at first second
  exact Option.some.inj (first.symm.trans second)

theorem not_isNumeral_nil {n : Nat} : ¬ IsNumeral [] n := by
  rw [← numeral?_eq_some_iff]
  simp [numeral?, digits?]

/-! ## Padded numerals -/

theorem IsDigits.exists_cons {text : List Char} {n : Nat} (digits : IsDigits text n) :
    ∃ c rest, text = c :: rest ∧ c.isDigit = true := by
  obtain ⟨c, rest, rfl⟩ := List.exists_cons_of_ne_nil digits.1
  exact ⟨c, rest, rfl, digits.2.1 c List.mem_cons_self⟩

/-- Padding a number with zeros does not change its value. -/
theorem isDigits_zeroPadded (width n : Nat) : IsDigits (zeroPadded width n).toList n := by
  obtain ⟨nonempty, digits, value⟩ := digits?_eq_some_iff.mp (digits?_toDigits n)
  simp only [IsDigits, zeroPadded, String.toList_ofList]
  refine ⟨List.append_ne_nil_of_right_ne_nil _ nonempty, ?_, ?_⟩
  · intro c member
    rcases List.mem_append.mp member with zero | digit
    · rw [List.eq_of_mem_replicate zero]
      decide
    · exact digits c digit
  · rw [Nat.ofDigitChars_append, Nat.ofDigitChars_replicate_zero, Nat.mul_zero, value]

theorem length_zeroPadded {width n : Nat} (short : (Nat.toDigits 10 n).length ≤ width) :
    (zeroPadded width n).toList.length = width := by
  rw [zeroPadded, String.toList_ofList, List.length_append, List.length_replicate,
    Nat.sub_add_cancel short]

/-! ## Numerals of numbers -/

theorem digits?_toString (n : Nat) : digits? (toString n).toList = some n := by
  rw [Nat.toString_eq_repr, Nat.toList_repr, digits?_toDigits]

/-- A number as it is written is a numeral for it. -/
theorem isNumeral_toString (n : Nat) : IsNumeral (toString n).toList n :=
  ⟨(toString n).toList, .inl rfl, digits?_eq_some_iff.mp (digits?_toString n)⟩

theorem isDigit_of_mem_toString {n : Nat} {c : Char} (member : c ∈ (toString n).toList) :
    c.isDigit = true := by
  rw [Nat.toString_eq_repr, Nat.toList_repr] at member
  exact Nat.isDigit_of_mem_toDigits (by decide) (by decide) member

theorem not_mem_toString {c : Char} (noDigit : c.isDigit = false) (n : Nat) :
    c ∉ (toString n).toList := by
  intro member
  rw [isDigit_of_mem_toString member] at noDigit
  contradiction

theorem trim_toString (n : Nat) : trim (toString n).toList = (toString n).toList :=
  trim_eq_self fun _ member => isBlank_of_isDigit (isDigit_of_mem_toString member)

theorem trims_toString (n : Nat) : Trims (toString n).toList (toString n).toList :=
  trim_eq_iff.mp (trim_toString n)

/-- A reader that goes on from a number to the thing with that number finds it where the text is a
numeral for its number. -/
theorem numeral?_bind_eq_some_iff {α : Type} {ofNumber? : Nat → Option α} {number : α → Nat}
    (spec : ∀ {n a}, ofNumber? n = some a ↔ number a = n) {text : List Char} {a : α} :
    numeral? text >>= ofNumber? = some a ↔ IsNumeral text (number a) := by
  simp only [Option.bind_eq_bind, Option.bind_eq_some_iff, numeral?_eq_some_iff, spec]
  constructor
  · rintro ⟨n, numeral, rfl⟩
    exact numeral
  · exact fun numeral => ⟨_, numeral, rfl⟩

end Cadence.Text

theorem Cadence.Count.read?_eq_some_iff {text : List Char} {count : Cadence.Count} :
    Count.read? text = some count ↔ Text.IsNumeral text count.value :=
  Text.numeral?_bind_eq_some_iff Count.ofNat?_eq_some_iff
