import Cadence.Row
import Cadence.Proofs.Calendar.DateText
import Cadence.Proofs.Datum

/-!
# Which stored endings load

`StoredEnding.Holds` says which ending a record holds and `StoredEnding.Lacks` what is wrong with a
record that holds none, both read off the record's kind, which has to be one of the three words to
the letter, and off the one value that this kind uses.  A value that it does not use may be there or
not.

Loading decides both (`StoredEnding.ending_exact`), and the record of an ending holds that ending
and nothing besides.  So what is stored after loading is the record that was loaded, without the
values that its kind does not use (`needed`).
-/

namespace Cadence

theorem EndingKind.ofWord?_eq_some_iff {word : List Char} {kind : EndingKind} :
    ofWord? word = some kind ↔ word = kind.text.toList :=
  Text.find?_word_eq_some_iff fun kind => by cases kind <;> rfl

theorem EndingKind.ofWord?_text (kind : EndingKind) : ofWord? kind.text.toList = some kind :=
  ofWord?_eq_some_iff.mpr rfl

namespace StoredEnding

variable {stored : StoredEnding} {ending : Ending} {fault : EndingFault}

/-! ## What a record says -/

/-- The record is one of the ending. -/
inductive Holds : StoredEnding → Ending → Prop where
  | never {count : Option UInt32} {date : Option Date} : Holds ⟨"never", count, date⟩ .never
  | after {count : Count} {date : Option Date} :
      Holds ⟨"after", some count.word, date⟩ (.after count)
  | on {count : Option UInt32} {date : Date} : Holds ⟨"on", count, some date⟩ (.on date)

/-- What is wrong with a record that is one of no ending. -/
inductive Lacks : StoredEnding → EndingFault → Prop where
  | noCount {date : Option Date} : Lacks ⟨"after", none, date⟩ (.missingField .after .count)
  | zeroCount {date : Option Date} : Lacks ⟨"after", some 0, date⟩ (.invalidCount "0")
  | noDate {count : Option UInt32} : Lacks ⟨"on", count, none⟩ (.missingField .on .date)
  | kind {kind : String} {count : Option UInt32} {date : Option Date}
      (unknown : kind ≠ "never" ∧ kind ≠ "after" ∧ kind ≠ "on") :
      Lacks ⟨kind, count, date⟩ (.unknownKind kind)

/-- The record without the values that its kind does not use. -/
def needed (stored : StoredEnding) : StoredEnding :=
  { kind := stored.kind
    count := if stored.kind = "after" then stored.count else none
    date := if stored.kind = "on" then stored.date else none }

/-! ## Loading -/

theorem ending_of_holds (holds : Holds stored ending) : stored.ending = .ok ending := by
  cases holds with
  | never =>
    rw [show "never" = EndingKind.text .never from rfl]
    simp only [StoredEnding.ending, EndingKind.ofWord?_text]
  | after =>
    rw [show "after" = EndingKind.text .after from rfl]
    simp only [StoredEnding.ending, EndingKind.ofWord?_text, Count.toNat_word, Count.ofNat?_value]
  | on =>
    rw [show "on" = EndingKind.text .on from rfl]
    simp only [StoredEnding.ending, EndingKind.ofWord?_text]

theorem ending_of_lacks (lacks : Lacks stored fault) : stored.ending = .error fault := by
  cases lacks with
  | noCount =>
    rw [show "after" = EndingKind.text .after from rfl]
    simp only [StoredEnding.ending, EndingKind.ofWord?_text]
  | zeroCount =>
    rw [show "after" = EndingKind.text .after from rfl]
    simp only [StoredEnding.ending, EndingKind.ofWord?_text]
    rfl
  | noDate =>
    rw [show "on" = EndingKind.text .on from rfl]
    simp only [StoredEnding.ending, EndingKind.ofWord?_text]
  | @kind kind count date unknown =>
    obtain ⟨notNever, notAfter, notOn⟩ := unknown
    have unspelled : EndingKind.ofWord? kind.toList = none := by
      rw [Option.eq_none_iff_forall_ne_some]
      intro known found
      have same := String.toList_injective (EndingKind.ofWord?_eq_some_iff.mp found)
      cases known <;> contradiction
    simp only [StoredEnding.ending, unspelled]

/-- Every word but zero is a count. -/
theorem exists_word_eq {word : UInt32} (positive : word ≠ 0) :
    ∃ count : Count, count.word = word := by
  have value : 0 < word.toNat :=
    Nat.pos_of_ne_zero fun zero => positive (UInt32.toNat_inj.mp zero)
  have fits : word.toNat ≤ wordLimit := Nat.le_of_lt_succ word.toNat_lt
  exact ⟨⟨word.toNat, value, fits⟩, UInt32.toNat_inj.mp rfl⟩

theorem holds_or_lacks (stored : StoredEnding) :
    (∃ ending, Holds stored ending) ∨ ∃ fault, Lacks stored fault := by
  obtain ⟨kind, count, date⟩ := stored
  by_cases never : kind = "never"
  · subst never
    exact .inl ⟨_, .never⟩
  by_cases after : kind = "after"
  · subst after
    cases count with
    | none => exact .inr ⟨_, .noCount⟩
    | some word =>
      by_cases zero : word = 0
      · subst zero
        exact .inr ⟨_, .zeroCount⟩
      · obtain ⟨count, rfl⟩ := exists_word_eq zero
        exact .inl ⟨_, .after⟩
  by_cases on : kind = "on"
  · subst on
    cases date with
    | none => exact .inr ⟨_, .noDate⟩
    | some date => exact .inl ⟨_, .on⟩
  exact .inr ⟨_, .kind ⟨never, after, on⟩⟩

theorem ending_eq_ok_iff : stored.ending = .ok ending ↔ Holds stored ending := by
  constructor
  · intro loaded
    rcases holds_or_lacks stored with ⟨other, holds⟩ | ⟨fault, lacks⟩
    · obtain rfl := Except.ok.inj (loaded.symm.trans (ending_of_holds holds))
      exact holds
    · rw [ending_of_lacks lacks] at loaded
      contradiction
  · exact ending_of_holds

theorem ending_eq_error_iff : stored.ending = .error fault ↔ Lacks stored fault := by
  constructor
  · intro refused
    rcases holds_or_lacks stored with ⟨ending, holds⟩ | ⟨other, lacks⟩
    · rw [ending_of_holds holds] at refused
      contradiction
    · obtain rfl := Except.error.inj (refused.symm.trans (ending_of_lacks lacks))
      exact lacks
  · exact ending_of_lacks

/-! ## Storing -/

theorem holds_stored (ending : Ending) : Holds ending.stored ending := by
  cases ending with
  | never => exact .never
  | after count => exact .after
  | on date => exact .on

theorem stored_of_holds (holds : Holds stored ending) : ending.stored = stored.needed := by
  cases holds <;> rfl

/-! ## Records as data -/

/-- The record as data, with the values that it has and no others. -/
def datum (stored : StoredEnding) : Datum := .table (Toml.Record.valueFields stored.values)

theorem date?_text (date : Date) : date? (.text date.text) = some date := by
  simp only [date?, Datum.text?, Option.bind_eq_bind, Option.bind_some]
  exact Date.read?_of_isDateText (date.isDateText_text .loose)

theorem ofDatum?_datum (surplus : Surplus) (stored : StoredEnding) :
    ofDatum? surplus stored.datum = some stored := by
  obtain ⟨kind, count, date⟩ := stored
  have word : ∀ word : UInt32, Datum.word? (.integer (word.toNat : Nat)) = some word :=
    fun _ => Datum.word?_eq_some_iff.mpr rfl
  cases count <;> cases date <;>
    simp [ofDatum?, datum, values, ofValues?, Toml.Record.valueFields, Toml.Scalar.datum,
      Datum.fieldsInRange, Datum.isInRange, Datum.optional, Datum.text?, word, date?_text,
      List.lookup_cons]

/-- A record loads exactly if it is one of an ending, as that ending, and is refused with the one
thing that is wrong with it if it is not; so it does as data, from which it is read back whatever
becomes of surplus elements.  An ending comes back from its record.  What is stored after loading is
the record without the values that its kind does not use, and loads as before. -/
theorem ending_exact :
    (∀ stored ending, stored.ending = .ok ending ↔ Holds stored ending) ∧
      (∀ stored fault, stored.ending = .error fault ↔ Lacks stored fault) ∧
      (∀ (stored : StoredEnding) surplus,
        Ending.ofDatum surplus stored.datum = stored.ending.mapError .ending) ∧
      (∀ ending : Ending, ending.stored.ending = .ok ending) ∧
      ∀ (stored : StoredEnding) ending, stored.ending = .ok ending →
        ending.stored = stored.needed ∧ stored.needed.ending = .ok ending := by
  refine ⟨fun _ _ => ending_eq_ok_iff, fun _ _ => ending_eq_error_iff, ?_,
    fun ending => ending_of_holds (holds_stored ending), ?_⟩
  · intro stored surplus
    simp only [Ending.ofDatum, ofDatum?_datum]
  · intro stored ending loaded
    have dropped := stored_of_holds (ending_eq_ok_iff.mp loaded)
    refine ⟨dropped, ?_⟩
    rw [← dropped]
    exact ending_of_holds (holds_stored ending)

/-- A count with a date that its kind has no use for. -/
theorem ending_of_three :
    let stored : StoredEnding := ⟨"after", some 3, some ⟨741181, by decide⟩⟩
    stored.ending = .ok (.after { value := 3 }) ∧
      (Ending.after { value := 3 }).stored = ⟨"after", some 3, none⟩ := by
  intro stored
  have loaded : stored.ending = .ok (.after { value := 3 }) :=
    (ending_exact.1 _ _).mpr (@Holds.after { value := 3 } _)
  exact ⟨loaded, (ending_exact.2.2.2.2 _ _ loaded).1⟩

end StoredEnding

end Cadence
