import Cadence.Proofs.Datum
import Cadence.Proofs.Toml.Document
import Cadence.Proofs.Toml.Record
import Cadence.Settings

/-!
# What a settings file sets

`Settings.Given` says which settings a document gives without reading it: under each of the five
keys the value that stands there, or the default where there is none.  `Settings.Unfit` says which
values a setting cannot have.

A text that is no document does not load.  A document loads exactly if none of its settings has such
a value and no number in it, whatever its key, is too large to be read; then it gives the settings
that it names and nothing else (`load_exact`).  Every document of settings is of this kind, up to
the limits of both numbers.
-/

namespace Cadence

namespace Settings

variable {α : Type} {fields : List (String × Datum)} {key name : String} {datum : Datum}
  {settings : Settings}

/-! ## What a document sets -/

/-- The value names a choice: it is the name, or a table with an empty value under the name. -/
inductive Names : Datum → String → Prop where
  | text {name : String} : Names (.text name) name
  | list {name : String} : Names (.table [(name, .list [])]) name
  | table {name : String} : Names (.table [(name, .table [])]) name

/-- The setting has the value that its key holds, or the default if its key is not there. -/
def Sets (fields : List (String × Datum)) (key : String) (Holds : Datum → α → Prop)
    (default value : α) : Prop :=
  match fields.lookup key with
  | none => value = default
  | some datum => Holds datum value

/-- The settings are the defaults but for what the document names. -/
structure Given (fields : List (String × Datum)) (settings : Settings) : Prop where
  searchHorizon : Sets fields "search_horizon_days"
    (fun datum days => datum = .integer (days.toNat : Nat)) 365 settings.searchHorizon
  previewCount : Sets fields "preview_count"
    (fun datum count => datum = .integer (count.toNat : Nat)) 5 settings.previewCount
  weeklyInterval : Sets fields "weekly_interval"
    (fun datum choice => Names datum choice.name) .ignore settings.weeklyInterval
  leapDay : Sets fields "leap_day"
    (fun datum choice => Names datum choice.name) .skip settings.leapDay
  policy : Sets fields "parse_mode"
    (fun datum choice => Names datum choice.name) .lenient settings.policy

/-- The key is that of a setting that cannot have the value. -/
inductive Unfit : String → Datum → Prop where
  | searchHorizon {datum : Datum} (other : ∀ days : UInt32, datum ≠ .integer (days.toNat : Nat)) :
      Unfit "search_horizon_days" datum
  | previewCount {datum : Datum} (other : ∀ count : UInt64, datum ≠ .integer (count.toNat : Nat)) :
      Unfit "preview_count" datum
  | weeklyInterval {datum : Datum} (other : ∀ choice : WeeklyInterval, ¬ Names datum choice.name) :
      Unfit "weekly_interval" datum
  | leapDay {datum : Datum} (other : ∀ choice : LeapDay, ¬ Names datum choice.name) :
      Unfit "leap_day" datum
  | policy {datum : Datum} (other : ∀ choice : Policy, ¬ Names datum choice.name) :
      Unfit "parse_mode" datum

theorem choice?_eq_some_iff : datum.choice? = some name ↔ Names datum name := by
  constructor
  · intro found
    unfold Datum.choice? at found
    split at found <;> cases found
    · exact .text
    · exact .list
    · exact .table
  · rintro (_ | _ | _) <;> rfl

theorem choice?_bind_eq_some_iff {ofName? : String → Option α} {nameOf : α → String}
    (spec : ∀ {name a}, ofName? name = some a ↔ name = nameOf a) {a : α} :
    datum.choice? >>= ofName? = some a ↔ Names datum (nameOf a) := by
  simp only [Option.bind_eq_bind, Option.bind_eq_some_iff, choice?_eq_some_iff, spec]
  constructor
  · rintro ⟨name, names, rfl⟩
    exact names
  · exact fun names => ⟨_, names, rfl⟩

theorem setting?_eq_some_iff {read? : Datum → Option α} {Holds : Datum → α → Prop}
    {default value : α} (noNull : fields.lookup key ≠ some .null)
    (spec : ∀ {datum value}, read? datum = some value ↔ Holds datum value) :
    setting? fields key read? default = some value ↔ Sets fields key Holds default value := by
  unfold setting? Sets
  cases found : fields.lookup key with
  | none => simp [Datum.optional, eq_comm]
  | some datum =>
    rw [Datum.optional]
    · simp [spec]
    · rintro rfl
      exact noNull found

theorem ofFields?_eq_some_iff (noNull : ∀ key, fields.lookup key ≠ some .null) :
    ofFields? fields = some settings ↔ Given fields settings := by
  have choice {α : Type} {key : String} {all : List α} {nameOf : α → String} {default a : α}
      (known : ∀ a, all.find? (nameOf · == nameOf a) = some a) :
      setting? fields key (fun datum => datum.choice? >>= fun name => all.find? (nameOf · == name))
          default = some a ↔
        Sets fields key (fun datum a => Names datum (nameOf a)) default a :=
    setting?_eq_some_iff (noNull key) (choice?_bind_eq_some_iff (Text.find?_word_eq_some_iff known))
  unfold ofFields?
  simp only [Option.bind_eq_bind, Option.bind_eq_some_iff]
  constructor
  · rintro ⟨days, setDays, count, setCount, interval, setInterval, leapDay, setLeapDay, policy,
      setPolicy, same⟩
    cases same
    exact
      { searchHorizon := (setting?_eq_some_iff (noNull _) Datum.word?_eq_some_iff).mp setDays
        previewCount := (setting?_eq_some_iff (noNull _) Datum.longWord?_eq_some_iff).mp setCount
        weeklyInterval := (choice WeeklyInterval.ofName?_name).mp setInterval
        leapDay := (choice LeapDay.ofName?_name).mp setLeapDay
        policy := (choice Policy.ofName?_name).mp setPolicy }
  · intro given
    exact ⟨_, (setting?_eq_some_iff (noNull _) Datum.word?_eq_some_iff).mpr given.searchHorizon,
      _, (setting?_eq_some_iff (noNull _) Datum.longWord?_eq_some_iff).mpr given.previewCount,
      _, (choice WeeklyInterval.ofName?_name).mpr given.weeklyInterval,
      _, (choice LeapDay.ofName?_name).mpr given.leapDay,
      _, (choice Policy.ofName?_name).mpr given.policy, rfl⟩

/-! ## Which documents load -/

theorem Sets.holds {Holds : Datum → α → Prop} {default value : α}
    (sets : Sets fields key Holds default value) (found : fields.lookup key = some datum) :
    Holds datum value := by
  rw [Sets, found] at sets
  exact sets

theorem not_given_of_unfit (found : fields.lookup key = some datum) (unfit : Unfit key datum) :
    ¬ Given fields settings := by
  intro given
  cases unfit with
  | searchHorizon other => exact other _ (given.searchHorizon.holds found)
  | previewCount other => exact other _ (given.previewCount.holds found)
  | weeklyInterval other => exact other _ (given.weeklyInterval.holds found)
  | leapDay other => exact other _ (given.leapDay.holds found)
  | policy other => exact other _ (given.policy.holds found)

theorem exists_sets {Holds : Datum → α → Prop} (default : α)
    (fit : ∀ datum, fields.lookup key = some datum → ¬ ∀ value, ¬ Holds datum value) :
    ∃ value, Sets fields key Holds default value := by
  unfold Sets
  cases found : fields.lookup key with
  | none => exact ⟨default, rfl⟩
  | some datum => exact not_forall_not.mp (fit datum found)

theorem exists_given (fit : ∀ key datum, fields.lookup key = some datum → ¬ Unfit key datum) :
    ∃ settings, Given fields settings := by
  obtain ⟨days, setDays⟩ := exists_sets 365 fun datum found other =>
    fit _ datum found (.searchHorizon other)
  obtain ⟨count, setCount⟩ := exists_sets 5 fun datum found other =>
    fit _ datum found (.previewCount other)
  obtain ⟨interval, setInterval⟩ := exists_sets .ignore fun datum found other =>
    fit _ datum found (.weeklyInterval other)
  obtain ⟨leapDay, setLeapDay⟩ := exists_sets .skip fun datum found other =>
    fit _ datum found (.leapDay other)
  obtain ⟨policy, setPolicy⟩ := exists_sets .lenient fun datum found other =>
    fit _ datum found (.policy other)
  exact ⟨⟨days, count, interval, leapDay, policy⟩,
    ⟨setDays, setCount, setInterval, setLeapDay, setPolicy⟩⟩

theorem load_content (text : String) :
    load (.content text.toUTF8) =
      ((Toml.document? text).filter Datum.fieldsInRange >>= ofFields?).elim
        (.error .malformed) .ok := by
  have read : String.fromUTF8? text.toUTF8 = some text := by
    rw [String.toUTF8_eq_toByteArray, String.fromUTF8?, dif_pos text.isValidUTF8]
    rfl
  simp only [load, read, Toml.readableDocument?]
  cases (Toml.document? text).filter Datum.fieldsInRange >>= ofFields? <;> rfl

theorem load_of_no_document {text : String} (noDocument : Toml.document? text = none) :
    load (.content text.toUTF8) = .error .malformed := by
  rw [load_content, noDocument]
  rfl

theorem load_eq_ok_iff {text : String} (found : Toml.document? text = some fields) :
    load (.content text.toUTF8) = .ok settings ↔
      Datum.fieldsInRange fields = true ∧ Given fields settings := by
  have noNull (key : String) : fields.lookup key ≠ some .null := by
    intro null
    obtain ⟨before, after, rfl, _⟩ := List.lookup_eq_some_iff.mp null
    exact Toml.ne_null_of_document? found (key, .null) (by simp) rfl
  rw [load_content, found, ← ofFields?_eq_some_iff noNull, Option.filter_some]
  cases Datum.fieldsInRange fields with
  | false => simp
  | true => cases read : ofFields? fields <;> simp [read]

theorem load_eq_ok_or_malformed (text : String) :
    (∃ settings, load (.content text.toUTF8) = .ok settings) ∨
      load (.content text.toUTF8) = .error .malformed := by
  rw [load_content]
  cases (Toml.document? text).filter Datum.fieldsInRange >>= ofFields? with
  | none => exact .inr rfl
  | some settings => exact .inl ⟨settings, rfl⟩

theorem load_eq_error_iff {text : String} (found : Toml.document? text = some fields) :
    load (.content text.toUTF8) = .error .malformed ↔
      Datum.fieldsInRange fields = false ∨
        ∃ key datum, fields.lookup key = some datum ∧ Unfit key datum := by
  constructor
  · intro refused
    by_contra sound
    simp only [not_or, not_exists, not_and, Bool.not_eq_false] at sound
    obtain ⟨settings, given⟩ := exists_given sound.2
    rw [(load_eq_ok_iff found).mpr ⟨sound.1, given⟩] at refused
    contradiction
  · intro faulty
    refine (load_eq_ok_or_malformed text).resolve_left ?_
    rintro ⟨settings, loaded⟩
    obtain ⟨inRange, given⟩ := (load_eq_ok_iff found).mp loaded
    rcases faulty with overflow | ⟨key, datum, stands, unfit⟩
    · rw [inRange] at overflow
      contradiction
    · exact not_given_of_unfit stands unfit given

/-! ## What is written for settings -/

theorem isPlain_record (settings : Settings) : settings.record.IsPlain where
  values :=
    { bare := by simp [record]; decide
      fit := by
        have days := Toml.fitsWord_of_lt (Nat.lt_trans settings.searchHorizon.toNat_lt (by decide))
        have count := Toml.fitsWord_of_lt settings.previewCount.toNat_lt
        simp [record, Toml.Scalar.Fits, days, count]
      distinct := by simp [record] }
  tables := nofun
  distinct := by simp [record]

theorem given_fields (settings : Settings) : Given settings.record.fields settings where
  searchHorizon := rfl
  previewCount := rfl
  weeklyInterval := .text
  leapDay := .text
  policy := .text

theorem load_document (settings : Settings) :
    load (.content settings.document.toUTF8) = .ok settings :=
  (load_eq_ok_iff (Toml.document?_document settings.isPlain_record)).mpr
    ⟨Toml.fieldsInRange_fields settings.record, settings.given_fields⟩

/-- Without a file the settings are the defaults, and settings come back from what is written for
them.  A text that is no document gives none.  A document gives the settings that it names and the
defaults of the others, whatever else it holds; it fails as a whole if it holds a value that a
setting cannot have, whatever the others are, or a number anywhere that is too large to be read. -/
theorem load_exact :
    load .missing = .ok {} ∧
      (∀ settings : Settings, load (.content settings.document.toUTF8) = .ok settings) ∧
      (∀ text : String, Toml.document? text = none →
        load (.content text.toUTF8) = .error .malformed) ∧
      ∀ (text : String) fields, Toml.document? text = some fields →
        (∀ settings, load (.content text.toUTF8) = .ok settings ↔
          Datum.fieldsInRange fields = true ∧ Given fields settings) ∧
        (load (.content text.toUTF8) = .error .malformed ↔
          Datum.fieldsInRange fields = false ∨
            ∃ key datum, fields.lookup key = some datum ∧ Unfit key datum) := by
  refine ⟨rfl, load_document, fun _ => load_of_no_document, ?_⟩
  intro text fields found
  exact ⟨fun _ => load_eq_ok_iff found, load_eq_error_iff found⟩

/-- A choice of leap day beside a name that is no setting, and beside a count in words. -/
theorem load_leapDay :
    let partly : Toml.Record := { values := [("leap_day", .text "mar1"), ("note", .number 7)] }
    let faulty : Toml.Record :=
      { values := [("leap_day", .text "mar1"), ("preview_count", .text "three")] }
    load (.content partly.document.toUTF8) = .ok { leapDay := .march1 } ∧
      load (.content faulty.document.toUTF8) = .error .malformed := by
  intro partly faulty
  have plain : partly.IsPlain ∧ faulty.IsPlain := by decide
  have given : Given partly.fields { leapDay := .march1 } := ⟨rfl, rfl, rfl, .text, rfl⟩
  have unfit : Unfit "preview_count" (.text "three") := .previewCount nofun
  refine ⟨((load_exact.2.2.2 _ _ (Toml.document?_document plain.1)).1 _).mpr ⟨?_, given⟩,
    (load_exact.2.2.2 _ _ (Toml.document?_document plain.2)).2.mpr (.inr ⟨_, _, ?_, unfit⟩)⟩
  · exact Toml.fieldsInRange_fields partly
  · rfl

/-- A number that nobody asks for can be too large to be read, and a list that nobody asks for can
nest too deep.  Then nothing is set. -/
theorem load_beyond_limits :
    let overflowing := "x = 1e400\npreview_count = 3\n"
    let nested := String.ofList ("x = ".toList ++ List.replicate 81 '[' ++
      (List.replicate 81 ']' ++ "\npreview_count = 3\n".toList))
    (∃ fields, Toml.document? overflowing = some fields ∧ Given fields { previewCount := 3 } ∧
        load (.content overflowing.toUTF8) = .error .malformed) ∧
      load (.content nested.toUTF8) = .error .malformed := by
  intro overflowing nested
  have bare : Toml.IsBareKey "x" ∧ Toml.IsBareKey "preview_count" := by decide
  constructor
  · have large : Toml.bare? "1e400".toList = some .overflow := rfl
    have overflow (rest : List Char) :
        Toml.takeScalar? ("1e400".toList ++ '\n' :: rest) = some (.overflow, '\n' :: rest) :=
      Toml.takeBare?_append (List.all_eq_true.mp (by decide)) large rest
    have three : Toml.takeScalar? ("3".toList ++ ['\n']) = some (.integer 3, ['\n']) :=
      Toml.takeScalar?_number (n := 3) (by decide)
    have first := Toml.lines?_entry bare.1 (overflow "preview_count = 3\n".toList)
    have second := Toml.lines?_entry bare.2 three
    have start : overflowing.toList =
        "x".toList ++ ' ' :: '=' :: ' ' :: ("1e400".toList ++ '\n' ::
          ("preview_count".toList ++ ' ' :: '=' :: ' ' :: ("3".toList ++ ['\n']))) := by
      decide
    have lines : Toml.lines? overflowing.toList =
        some [.entry ["x"] .overflow, .entry ["preview_count"] (.integer 3)] := by
      rw [start]
      exact first.trans (congrArg _ (second.trans (congrArg _ Toml.lines?_nil)))
    have document :
        Toml.document? overflowing = some [("x", .overflow), ("preview_count", .integer 3)] := by
      rw [Toml.document?_of_unmarked (by decide), lines]
      rfl
    refine ⟨_, document, ?_, (load_eq_error_iff document).mpr (.inl rfl)⟩
    exact ⟨rfl, rfl, rfl, rfl, rfl⟩
  · have deep : nested.toList =
        "x".toList ++ ' ' :: '=' :: ' ' :: (List.replicate (Toml.deepest + 1) '[' ++
          (List.replicate 81 ']' ++ "\npreview_count = 3\n".toList)) := by
      rw [String.toList_ofList, List.append_assoc]
      rfl
    exact load_of_no_document (Toml.document?_of_deep bare.1 deep)

end Settings

end Cadence
