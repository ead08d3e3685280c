import Cadence.Proofs.Pattern.Canonical

/-!
# One mask for each set of weekdays

A set of weekdays is a mask of seven bits.  `ByteSet` is the same set kept in a byte, whose highest
bit belongs to no weekday: a set with that bit would differ from one that shows the same weekdays.
No call ever puts the bit there.  Each call on a byte is the call on its seven bits
(`WeekdaySet.byte_edit`), so a byte is that of a set of weekdays after any calls
(`WeekdaySet.byte_edited`), and all that it shows is what the set shows.

A set is determined in turn by the numbers of its weekdays, which are listed in ascending order
however they were given (`WeekdaySet.numbers_injective`), and by its canonical text
(`Rule.weekly_pattern_injective`).
-/

namespace Cadence

/-! ## Calls on a set -/

/-- One call that changes which weekdays are selected. -/
inductive DayEdit where
  | insert (day : Weekday)
  | remove (day : Weekday)
  | toggle (day : Weekday)
deriving DecidableEq

namespace WeekdaySet

def edit (days : WeekdaySet) : DayEdit → WeekdaySet
  | .insert day => days.insert day
  | .remove day => days.remove day
  | .toggle day => days.toggle day

/-- The set after a run of calls. -/
def edited (days : WeekdaySet) (edits : List DayEdit) : WeekdaySet := edits.foldl edit days

end WeekdaySet

/-! ## The numbers of a set -/

theorem Weekday.exists_number_iff {n : Nat} :
    (∃ day : Weekday, day.number = n) ↔ 1 ≤ n ∧ n ≤ 7 := by
  constructor
  · rintro ⟨day, rfl⟩
    exact ⟨Nat.le_add_left 1 day.index, day.index_lt⟩
  · rintro ⟨low, high⟩
    refine ⟨.ofIndex (n - 1), ?_⟩
    rw [Weekday.number, Weekday.index_ofIndex, Nat.mod_eq_of_lt (by omega)]
    omega

namespace WeekdaySet

variable {days other : WeekdaySet} {day : Weekday} {n : Nat} {listed : List Nat}

theorem mem_numbers : n ∈ days.numbers ↔ ∃ day ∈ days, day.number = n := by
  simp [numbers]

theorem number_mem_numbers : day.number ∈ days.numbers ↔ day ∈ days := by
  rw [mem_numbers]
  constructor
  · rintro ⟨other, member, same⟩
    rwa [← Weekday.number_injective same]
  · exact fun member => ⟨day, member, rfl⟩

theorem size_eq_length_numbers : days.size = days.numbers.length := by
  rw [numbers, List.length_map, size]

theorem numbers_pairwise (days : WeekdaySet) : days.numbers.Pairwise (· < ·) := by
  have all : (Weekday.all.map Weekday.number).Pairwise (· < ·) := by decide
  exact all.sublist (List.filter_sublist.map Weekday.number)

theorem numbers_injective (same : days.numbers = other.numbers) : days = other := by
  apply ext
  intro day
  rw [← number_mem_numbers, same, number_mem_numbers]

theorem mem_ofNumbers : day ∈ ofNumbers listed ↔ day.number ∈ listed := by
  simp [ofNumbers, Weekday.ofNumber?_eq_some_iff]

theorem mem_numbers_ofNumbers : n ∈ (ofNumbers listed).numbers ↔ n ∈ listed ∧ 1 ≤ n ∧ n ≤ 7 := by
  rw [mem_numbers, ← Weekday.exists_number_iff]
  constructor
  · rintro ⟨day, member, rfl⟩
    exact ⟨mem_ofNumbers.mp member, day, rfl⟩
  · rintro ⟨given, day, rfl⟩
    exact ⟨day, mem_ofNumbers.mpr given, rfl⟩

/-- Neither the order of the numbers nor their repetition counts. -/
theorem ofNumbers_eq_iff {others : List Nat} :
    ofNumbers listed = ofNumbers others ↔ ∀ n, 1 ≤ n → n ≤ 7 → (n ∈ listed ↔ n ∈ others) := by
  constructor
  · intro same n low high
    obtain ⟨day, rfl⟩ := Weekday.exists_number_iff.mpr ⟨low, high⟩
    rw [← mem_ofNumbers, same, mem_ofNumbers]
  · intro same
    apply ext
    intro day
    obtain ⟨low, high⟩ := Weekday.exists_number_iff.mp ⟨day, rfl⟩
    rw [mem_ofNumbers, mem_ofNumbers, same _ low high]

end WeekdaySet

/-! ## Masks of eight bits -/

/-- A set of weekdays in a byte: bit `i` is the weekday with index `i`, bit 7 is no weekday. -/
structure ByteSet where
  mask : UInt8
deriving DecidableEq

namespace ByteSet

def bit (day : Weekday) : UInt8 := 1 <<< UInt8.ofNat day.index

def contains (days : ByteSet) (day : Weekday) : Bool := days.mask &&& bit day != 0

def isEmpty (days : ByteSet) : Bool := days.mask == 0

def toList (days : ByteSet) : List Weekday := Weekday.all.filter days.contains

def numbers (days : ByteSet) : List Nat := days.toList.map Weekday.number

/-- The number of ones in the mask. -/
def size (days : ByteSet) : Nat := days.mask.toBitVec.cpop.toNat

def insert (days : ByteSet) (day : Weekday) : ByteSet := ⟨days.mask ||| bit day⟩

def remove (days : ByteSet) (day : Weekday) : ByteSet :=
  let rest : ByteSet := ⟨days.mask &&& ~~~bit day⟩
  if rest.isEmpty && !days.isEmpty then days else rest

def toggle (days : ByteSet) (day : Weekday) : ByteSet :=
  if days.contains day then days.remove day else days.insert day

def ofNumbers (numbers : List Nat) : ByteSet :=
  (numbers.filterMap Weekday.ofNumber?).foldl insert ⟨0⟩

def edit (days : ByteSet) : DayEdit → ByteSet
  | .insert day => days.insert day
  | .remove day => days.remove day
  | .toggle day => days.toggle day

def edited (days : ByteSet) (edits : List DayEdit) : ByteSet := edits.foldl edit days

end ByteSet

namespace WeekdaySet

variable {days other : WeekdaySet} {day : Weekday}

/-- The set in a byte. -/
def byte (days : WeekdaySet) : ByteSet := ⟨⟨days.mask.setWidth 8⟩⟩

theorem toNat_mask_byte (days : WeekdaySet) : days.byte.mask.toNat = days.mask.toNat :=
  (BitVec.toNat_setWidth 8 days.mask).trans
    (Nat.mod_eq_of_lt (Nat.lt_of_lt_of_le days.mask.isLt (by decide)))

theorem mask_byte_lt (days : WeekdaySet) : days.byte.mask < 128 := by
  rw [UInt8.lt_iff_toNat_lt, toNat_mask_byte]
  exact days.mask.isLt

theorem byte_injective (same : days.byte = other.byte) : days = other := by
  have masks : days.mask = other.mask := by
    apply BitVec.eq_of_toNat_eq
    rw [← toNat_mask_byte, same, toNat_mask_byte]
  cases days
  cases other
  exact congrArg _ masks

theorem toBitVec_bit (day : Weekday) : (ByteSet.bit day).toBitVec = (bit day).setWidth 8 := by
  cases day <;> rfl

theorem isEmpty_byte (days : WeekdaySet) : days.byte.isEmpty = days.isEmpty := by
  rw [Bool.eq_iff_iff, isEmpty_iff, ByteSet.isEmpty, beq_iff_eq]
  constructor
  · exact fun zero => byte_injective (congrArg ByteSet.mk zero)
  · rintro rfl
    rfl

theorem contains_byte (days : WeekdaySet) (day : Weekday) :
    days.byte.contains day = days.contains day := by
  have both : days.byte.mask &&& ByteSet.bit day = ⟨(days.mask &&& bit day).setWidth 8⟩ := by
    rw [← UInt8.toBitVec_inj, UInt8.toBitVec_and, toBitVec_bit, BitVec.setWidth_and]
    rfl
  rw [ByteSet.contains, both, contains, bit, BitVec.and_twoPow]
  cases days.mask.getLsbD day.index
  · rfl
  · cases day <;> rfl

theorem numbers_byte (days : WeekdaySet) : days.byte.numbers = days.numbers := by
  rw [ByteSet.numbers, ByteSet.toList, funext (contains_byte days)]
  rfl

theorem size_byte (days : WeekdaySet) : days.byte.size = days.size := by
  -- Both sides add up the seven bits; the eighth of the byte is zero.
  have ofBit : ∀ bit : Bool, (if bit = true then 1 else 0) = bit.toNat := by decide
  rw [size_eq_countP, ByteSet.size, BitVec.toNat_cpop]
  simp [byte, Weekday.all, List.countP_cons, contains, ofBit, Weekday.index]

theorem byte_insert (days : WeekdaySet) (day : Weekday) :
    (days.insert day).byte = days.byte.insert day := by
  rw [ByteSet.insert, byte, ByteSet.mk.injEq, ← UInt8.toBitVec_inj, UInt8.toBitVec_or, toBitVec_bit,
    insert, BitVec.setWidth_or]
  rfl

theorem byte_remove (days : WeekdaySet) (day : Weekday) :
    (days.remove day).byte = days.byte.remove day := by
  have rest : byte ⟨days.mask &&& ~~~bit day⟩ = ⟨days.byte.mask &&& ~~~ByteSet.bit day⟩ := by
    rw [byte, ByteSet.mk.injEq, ← UInt8.toBitVec_inj, UInt8.toBitVec_and, UInt8.toBitVec_not,
      toBitVec_bit]
    apply BitVec.eq_of_getLsbD_eq
    intro i bound
    -- The complement has the highest bit of the byte, but the set does not.
    by_cases low : i < 7
    · simp [byte, low, bound]
    · simp [byte, BitVec.getLsbD_of_ge _ _ (Nat.le_of_not_lt low)]
  rw [remove, ByteSet.remove, ← rest, isEmpty_byte, isEmpty_byte]
  split <;> rfl

theorem byte_edit (days : WeekdaySet) (edit : DayEdit) :
    (days.edit edit).byte = days.byte.edit edit := by
  cases edit with
  | insert day => exact byte_insert days day
  | remove day => exact byte_remove days day
  | toggle day =>
    rw [WeekdaySet.edit, ByteSet.edit, toggle, ByteSet.toggle, contains_byte]
    split
    · exact byte_remove days day
    · exact byte_insert days day

theorem byte_edited (days : WeekdaySet) (edits : List DayEdit) :
    (days.edited edits).byte = days.byte.edited edits :=
  (List.foldl_hom byte fun days edit => (byte_edit days edit).symm).symm

theorem byte_ofNumbers (listed : List Nat) : (ofNumbers listed).byte = .ofNumbers listed :=
  (List.foldl_hom byte fun days day => (byte_insert days day).symm).symm

end WeekdaySet

/-! ## Canonical texts -/

namespace Rule

theorem weekly_pattern_injective {interval : Count} {days other : WeekdaySet}
    (same : (weekly interval days).pattern = (weekly interval other).pattern) : days = other := by
  have lists : (String.intercalate "," (days.numbers.map toString)).toList =
      (String.intercalate "," (other.numbers.map toString)).toList := by
    have texts := congrArg String.toList same
    simp only [pattern, patternArguments, keyword, String.toList_intercalate, List.map_cons,
      List.map_nil, List.intercalate_cons_cons, List.intercalate_singleton] at texts ⊢
    exact List.append_cancel_left (List.append_cancel_left texts)
  rw [toList_dayList, toList_dayList] at lists
  by_cases empty : days = ∅ <;> by_cases otherEmpty : other = ∅
  · rw [empty, otherEmpty]
  · -- No text of a list is empty.
    subst empty
    exact absurd lists.symm (Pattern.isDayList_toList otherEmpty).ne_nil
  · subst otherEmpty
    exact absurd lists (Pattern.isDayList_toList empty).ne_nil
  · have list := Pattern.isDayList_toList empty
    rw [lists] at list
    exact list.unique (Pattern.isDayList_toList otherEmpty)

end Rule

/-- A set made from numbers lists those of them that a weekday has, ascending and each once, and its
size is how many these are.  After any calls a set is told by the numbers that it lists, and it
contains the weekdays with these numbers.  Kept in a byte it never has a bit beyond the seven
weekdays, and all this holds of the bytes.  So the canonical text of a weekly rule tells which
numbers were given, and neither their order nor how often. -/
theorem WeekdaySet.edited_sets_have_one_mask (numbers others : List Nat)
    (edits otherEdits : List DayEdit) (interval : Count) :
    let start := ofNumbers numbers
    let days := start.edited edits
    let other := (ofNumbers others).edited otherEdits
    let bytes := (ByteSet.ofNumbers numbers).edited edits
    let otherBytes := (ByteSet.ofNumbers others).edited otherEdits
    (start.numbers.Pairwise (· < ·) ∧ (∀ n, n ∈ start.numbers ↔ n ∈ numbers ∧ 1 ≤ n ∧ n ≤ 7) ∧
      start.size = start.numbers.length) ∧
    (days = other ↔ days.numbers = other.numbers) ∧
    (∀ day, days.contains day = true ↔ day.number ∈ days.numbers) ∧
    (bytes.mask < 128 ∧ bytes.mask.toNat = days.mask.toNat ∧
      bytes.numbers = days.numbers ∧ bytes.size = bytes.numbers.length ∧
      (∀ day, bytes.contains day = days.contains day) ∧
      (bytes = otherBytes ↔ bytes.numbers = otherBytes.numbers)) ∧
    ((Rule.weekly interval (ofNumbers numbers)).pattern =
        (Rule.weekly interval (ofNumbers others)).pattern ↔
      ∀ n, 1 ≤ n → n ≤ 7 → (n ∈ numbers ↔ n ∈ others)) := by
  intro start days other bytes otherBytes
  have ofByte : bytes = days.byte := by rw [byte_edited, byte_ofNumbers]
  have otherOfByte : otherBytes = other.byte := by rw [byte_edited, byte_ofNumbers]
  have told : days = other ↔ days.numbers = other.numbers := ⟨congrArg _, numbers_injective⟩
  rw [ofByte, otherOfByte, numbers_byte, numbers_byte, size_byte]
  refine ⟨⟨start.numbers_pairwise, fun n => mem_numbers_ofNumbers, size_eq_length_numbers⟩, told,
    fun day => number_mem_numbers.symm, ⟨days.mask_byte_lt, days.toNat_mask_byte, rfl,
      size_eq_length_numbers, days.contains_byte, ?_⟩, ?_⟩
  · rw [← told]
    exact ⟨byte_injective, congrArg byte⟩
  · rw [← ofNumbers_eq_iff]
    exact ⟨Rule.weekly_pattern_injective, fun same => by rw [same]⟩

end Cadence
