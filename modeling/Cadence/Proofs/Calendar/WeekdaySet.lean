import Cadence.Calendar.WeekdaySet
import Cadence.Proofs.Text.Division

/-!
# Weekday sets as sets

Membership of a weekday set is a bit of its mask.  These lemmas say what each operation does to the
members, and that a set is determined by them, so that nothing else needs to look at the mask.  A
weekday in turn is determined by its place in the week, and by its name.
-/

namespace Cadence

namespace Weekday

theorem index_injective {day other : Weekday} (same : day.index = other.index) :
    day = other := by
  rw [← ofIndex_index day, same, ofIndex_index]

theorem ofName?_eq_some_iff {name : List Char} {day : Weekday} :
    ofName? name = some day ↔ name = day.name.toList :=
  Text.find?_word_eq_some_iff fun day => by cases day <;> rfl

theorem name_injective : Function.Injective fun day : Weekday => day.name.toList := by
  intro day other same
  have named := ofName?_eq_some_iff.mpr (rfl : day.name.toList = day.name.toList)
  exact Option.some.inj (named.symm.trans (ofName?_eq_some_iff.mpr same))

theorem name_mem_map {days : List Weekday} {day : Weekday} :
    (day.name.toList ∈ days.map fun day => day.name.toList) ↔ day ∈ days :=
  List.mem_map_of_injective name_injective

end Weekday

namespace WeekdaySet

variable {days other : WeekdaySet} {day added : Weekday}

theorem mem_iff : day ∈ days ↔ days.contains day = true := Iff.rfl

/-- Sets with the same members are equal. -/
theorem ext (same : ∀ day, day ∈ days ↔ day ∈ other) : days = other := by
  have bits : days.mask = other.mask := by
    -- Bit `i` of a mask is the membership of the weekday with index `i`.
    apply BitVec.eq_of_getLsbD_eq
    intro i bound
    have here := same (Weekday.ofIndex i)
    simp only [mem_iff, contains, Weekday.index_ofIndex, Nat.mod_eq_of_lt bound] at here
    exact Bool.eq_iff_iff.mpr here
  cases days
  cases other
  exact congrArg _ bits

@[simp] theorem not_mem_empty : day ∉ (∅ : WeekdaySet) := by
  cases day <;> decide

theorem ne_empty_of_mem (member : day ∈ days) : days ≠ ∅ := by
  rintro rfl
  exact not_mem_empty member

theorem getLsbD_bit : (bit added).getLsbD day.index = decide (day = added) := by
  rw [bit, BitVec.getLsbD_twoPow, decide_eq_true (Weekday.index_lt added), Bool.true_and,
    decide_eq_decide]
  exact ⟨fun same => (Weekday.index_injective same).symm, fun same => by rw [same]⟩

@[simp] theorem mem_insert : day ∈ days.insert added ↔ day ∈ days ∨ day = added := by
  simp [mem_iff, contains, insert, BitVec.getLsbD_or, getLsbD_bit]

@[simp] theorem mem_single : day ∈ single added ↔ day = added := by
  simp [mem_iff, contains, single, getLsbD_bit]

@[simp] theorem mem_toList : day ∈ days.toList ↔ day ∈ days := by
  simp [toList, Weekday.mem_all, mem_iff]

@[simp] theorem mem_ofList {listed : List Weekday} : day ∈ ofList listed ↔ day ∈ listed := by
  have added : ∀ days : WeekdaySet, day ∈ listed.foldl insert days ↔ day ∈ days ∨ day ∈ listed := by
    induction listed with
    | nil => simp
    | cons first listed ih => simp [ih, or_assoc]
  exact (added ∅).trans (or_iff_right not_mem_empty)

theorem isEmpty_iff : days.isEmpty = true ↔ days = ∅ := by
  obtain ⟨mask⟩ := days
  rw [isEmpty, beq_iff_eq, EmptyCollection.emptyCollection, instEmptyCollection, empty, mk.injEq]

theorem toList_eq_nil_iff : days.toList = [] ↔ days = ∅ := by
  constructor
  · intro none
    apply ext
    intro day
    rw [← mem_toList, none]
    simp
  · rintro rfl
    rfl

theorem size_eq_countP (days : WeekdaySet) : days.size = Weekday.all.countP days.contains :=
  List.countP_eq_length_filter.symm

theorem exists_mem_of_ne_empty (nonempty : days ≠ ∅) : ∃ day, day ∈ days := by
  rw [ne_eq, ← toList_eq_nil_iff] at nonempty
  obtain ⟨day, member⟩ := List.exists_mem_of_ne_nil _ nonempty
  exact ⟨day, mem_toList.mp member⟩

theorem eq_empty_iff : days = ∅ ↔ ∀ day, day ∉ days := by
  constructor
  · rintro rfl day
    exact not_mem_empty
  · exact fun none => ext fun day => iff_of_false (none day) not_mem_empty

/-- Removing takes a day out of the set, unless it is the only one. -/
theorem mem_remove {removed : Weekday} :
    day ∈ days.remove removed ↔
      day ∈ days ∧ (day ≠ removed ∨ ∀ other ∈ days, other = removed) := by
  generalize restEq : (⟨days.mask &&& ~~~bit removed⟩ : WeekdaySet) = rest
  have memRest : ∀ other, other ∈ rest ↔ other ∈ days ∧ other ≠ removed := by
    intro other
    rw [← restEq, mem_iff, mem_iff, contains, contains, BitVec.getLsbD_and, BitVec.getLsbD_not,
      getLsbD_bit, decide_eq_true other.index_lt, Bool.true_and, Bool.and_eq_true,
      Bool.not_eq_true', decide_eq_false_iff_not]
  have guarded : (rest.isEmpty && !days.isEmpty) = true ↔
      (∀ other ∈ days, other = removed) ∧ days ≠ ∅ := by
    rw [Bool.and_eq_true, Bool.not_eq_true', ← Bool.not_eq_true, isEmpty_iff, isEmpty_iff,
      eq_empty_iff]
    simp [memRest]
  rw [remove, restEq]
  by_cases only : ∀ other ∈ days, other = removed
  · by_cases empty : days = ∅
    · rw [if_neg fun both => (guarded.mp both).2 empty, memRest, empty]
      simp
    · rw [if_pos (guarded.mpr ⟨only, empty⟩), and_iff_left (.inr only)]
  · rw [if_neg fun both => only (guarded.mp both).1, memRest, or_iff_left only]

theorem orSingle_of_ne_empty (nonempty : days ≠ ∅) : days.orSingle day = days := by
  rw [orSingle, if_neg (mt isEmpty_iff.mp nonempty)]

theorem single_ne_empty : single day ≠ ∅ := by
  cases day <;> decide

theorem orSingle_ne_empty : days.orSingle day ≠ ∅ := by
  rw [orSingle]
  split
  · exact single_ne_empty
  · next nonempty => exact mt isEmpty_iff.mpr nonempty

theorem mem_orSingle {fallback : Weekday} :
    day ∈ days.orSingle fallback ↔ day ∈ days ∨ days = ∅ ∧ day = fallback := by
  by_cases empty : days = ∅
  · subst empty
    have same : (∅ : WeekdaySet).orSingle fallback = single fallback := rfl
    simp [same]
  · simp [orSingle_of_ne_empty empty, empty]

theorem orSingle_eq_self_iff : days.orSingle day = days ↔ days ≠ ∅ := by
  constructor
  · intro same
    rw [← same]
    exact orSingle_ne_empty
  · exact orSingle_of_ne_empty

end WeekdaySet

end Cadence
