import Cadence.Text.Numeral

/-!
# Counts

Intervals and numbers of occurrences are positive and fit in 32 bits.  Both bounds are part of the
type, so a rule or an ending never holds a zero and a reader has to refuse what does not fit.
-/

namespace Cadence

def wordLimit : Nat := 4294967295

/-- A positive number of 32 bits. -/
@[ext] structure Count where
  value : Nat
  positive : 0 < value := by decide
  fits : value ≤ wordLimit := by decide
deriving DecidableEq

namespace Count

def one : Count := { value := 1 }

/-- The count with the given value, if it is in range. -/
def ofNat? (n : Nat) : Option Count :=
  if range : 0 < n ∧ n ≤ wordLimit then some ⟨n, range.1, range.2⟩ else none

/-- The count as a word of 32 bits. -/
def word (count : Count) : UInt32 :=
  .ofNatLT count.value (Nat.lt_of_le_of_lt count.fits (by decide))

/-- The count that a text denotes. -/
def read? (text : List Char) : Option Count := Text.numeral? text >>= ofNat?

theorem ofNat?_eq_some_iff {n : Nat} {count : Count} : ofNat? n = some count ↔ count.value = n := by
  unfold ofNat?
  split
  · simp only [Option.some.injEq, Count.ext_iff]
    exact eq_comm
  · simp only [reduceCtorEq, false_iff]
    rintro rfl
    exact absurd (And.intro count.positive count.fits) ‹_›

@[simp] theorem ofNat?_value (count : Count) : ofNat? count.value = some count :=
  ofNat?_eq_some_iff.2 rfl

@[simp] theorem toNat_word (count : Count) : count.word.toNat = count.value := rfl

end Count

end Cadence
